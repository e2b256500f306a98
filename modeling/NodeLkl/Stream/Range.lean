import NodeLkl.Stream.ReadStream

/-!
# Reading a range of a file

A `ReadStream` delivers the bytes of a file from `start` to `end`, however many of them each read
gets. Without `start`, it reads at the position of the descriptor, which the kernel moves by what
was read. With it, it keeps a position of its own, and moves it by what it asks for: if a read
gets less than that before the end of the file, bytes are skipped (`not_delivers_shortRead`).
Otherwise it delivers what it is meant to (`delivers_of_full`).
-/

namespace NodeLkl

namespace Stream

open Fs (ofBytes)

/-- The bytes of a file up to `end`, which counts only if there is a `start`. -/
def upTo (c : Bytes) : Option ℕ → Option ℕ → Bytes
  | some _, some stop => c.take (stop + 1)
  | _, _ => c

/-- The bytes asked for: from `start` on, or else from the position of the descriptor. -/
def range (c : Bytes) (offset : ℕ) (start stop : Option ℕ) : Bytes :=
  (upTo c start stop).drop (start.getD offset)

namespace Readers

variable {ι : Type} [DecidableEq ι]

/-- Where a request reads. -/
def place (w : Readers ι) (r : Request ι) : ℕ :=
  match r.offset with
  | some p => p.toNat
  | none => w.offsets r.stream

/-- What is assumed for the stream `i`, of a file with the contents `c`. `Readable` calls `_read`
    once what was read before was pushed, and until the end; the reads get bytes of the file, none
    only at its end. -/
def Faithful (i : ι) (c : Bytes) (w : Readers ι) : Event ι → Prop
  | .read j n => j = i → 1 ≤ n ∧ (w.streams i).reading = false ∧ (w.streams i).ended = false
  | .mark j n => j = i → 1 ≤ n
  | .complete k result => ∀ r, w.requests[k]? = some r → r.stream = i → ∃ data,
      result = some data ∧ data = (c.drop (w.place r)).take data.length ∧
        (data = [] → c.length ≤ w.place r)
  | _ => True

/-- A read at a given position gets all that it asks for, or all that is left in the file. -/
def Full (i : ι) (c : Bytes) (w : Readers ι) : Event ι → Prop
  | .complete k (some data) => ∀ r p, w.requests[k]? = some r → r.stream = i →
      r.offset = some p → data.length = min r.part.length (c.length - p.toNat)
  | _ => True

/-- The streams, the reads of the stream `i` getting what they are assumed to. -/
def fullReaders (i : ι) (c : Bytes) : System (Readers ι) (Event ι) :=
  (readers ι).restrict fun w e => w.Faithful i c e ∧ w.Full i c e

/-- The stream has pushed the first of the bytes, as many as `bytesRead` says, and all of them if
    it has ended. -/
structure Delivers (w : Readers ι) (i : ι) (bytes : Bytes) : Prop where
  chunks : ((w.streams i).chunks.map w.heap.contents).flatten =
    ofBytes (bytes.take (w.streams i).bytesRead)
  bytesRead_le : (w.streams i).bytesRead ≤ bytes.length
  bytesRead_eq : (w.streams i).ended = true → (w.streams i).bytesRead = bytes.length

/-! ## The phases of a stream -/

/-- The position of the next byte to be read. -/
def Cursor (start : Option ℕ) (s : ReadStream) (offset q : ℕ) : Prop :=
  match start with
  | none => s.pos = none ∧ offset = q
  | some _ => s.pos = some (q : ℤ)

/-- A request reads at `q`, and the stream goes on after what it asks for. -/
def Asks (start : Option ℕ) (s : ReadStream) (offset q : ℕ) (r : Request ι) : Prop :=
  match start with
  | none => r.offset = none ∧ s.pos = none ∧ offset = q
  | some _ => r.offset = some (q : ℤ) ∧ s.pos = some ((q + r.part.length : ℕ) : ℤ)

section Flow

variable (c : Bytes) (offset₀ : ℕ) (start stop : Option ℕ)

/-- The bytes still to be read are those at `q`. -/
def Left (s : ReadStream) (q : ℕ) : Prop :=
  (range c offset₀ start stop).drop s.bytesRead = (upTo c start stop).drop q

/-- What a stream may be about to do: to read when it is asked to, or once its file is open; to
    get what it asked for; nothing more. -/
inductive Phase (s : ReadStream) (offset : ℕ) : List (Request ι) → Prop
  | quiet {q : ℕ} : s.ended = false → Cursor start s offset q → Left c offset₀ start stop s q →
      s.handle.pending = [] → Phase s offset []
  | waiting {q n : ℕ} : s.ended = false → Cursor start s offset q →
      Left c offset₀ start stop s q → s.reading = true → 1 ≤ n →
      s.handle.pending = [n] → Phase s offset []
  | flying {q : ℕ} {r : Request ι} : s.ended = false → Asks start s offset q r →
      Left c offset₀ start stop s q → s.reading = true → 1 ≤ r.part.length →
      (∀ m ≤ r.part.length, (c.drop q).take m = ((upTo c start stop).drop q).take m) →
      s.handle.pending = [] → Phase s offset [r]
  | drained : s.ended = true → s.bytesRead = (range c offset₀ start stop).length →
      s.handle.pending = [] → Phase s offset []

/-- What holds of the stream `i`. -/
structure Flow (i : ι) (w : Readers ι) : Prop where
  chunks : ((w.streams i).chunks.map w.heap.contents).flatten =
    ofBytes ((range c offset₀ start stop).take (w.streams i).bytesRead)
  le : (w.streams i).bytesRead ≤ (range c offset₀ start stop).length
  limit : (w.streams i).stop = stop.map Nat.cast
  mark : 1 ≤ (w.streams i).highWaterMark
  phase : Phase c offset₀ start stop (w.streams i) (w.offsets i) (w.requestsOf i)

end Flow

variable {c : Bytes} {offset₀ : ℕ} {start stop : Option ℕ} {i : ι} {w w' : Readers ι}

theorem Flow.delivers (h : Flow c offset₀ start stop i w) :
    w.Delivers i (range c offset₀ start stop) := by
  refine ⟨h.chunks, h.le, ?_⟩
  intro hended
  have hphase := h.phase
  generalize w.requestsOf i = rs at hphase
  cases hphase with
  | quiet hnot => simp [hended] at hnot
  | waiting hnot => simp [hended] at hnot
  | flying hnot => simp [hended] at hnot
  | drained _ heq => exact heq

/-- What was delivered stays so, whatever the stream is about to do. -/
theorem Flow.update (h : Flow c offset₀ start stop i w) (hinv : Inv w) (hkeeps : Keeps w w')
    (hchunks : (w'.streams i).chunks = (w.streams i).chunks)
    (hbytes : (w'.streams i).bytesRead = (w.streams i).bytesRead)
    (hstop : (w'.streams i).stop = (w.streams i).stop)
    (hmark : 1 ≤ (w'.streams i).highWaterMark)
    (hphase : Phase c offset₀ start stop (w'.streams i) (w'.offsets i) (w'.requestsOf i)) :
    Flow c offset₀ start stop i w' := by
  have hcontents : (w.streams i).chunks.map w'.heap.contents =
      (w.streams i).chunks.map w.heap.contents :=
    List.map_congr_left fun b hb => hkeeps.contents_read (hinv.chunks i b hb)
  refine ⟨?_, ?_, hstop.trans h.limit, hmark, hphase⟩
  · rw [hchunks, hcontents, hbytes]
    exact h.chunks
  · rw [hbytes]
    exact h.le

/-- The stream goes on as before, if only its handle and its mark change, and no call of `_read`
    comes or goes. -/
theorem Flow.frame (h : Flow c offset₀ start stop i w) (hinv : Inv w) (hkeeps : Keeps w w')
    (handle : Handle ℕ) (highWaterMark : ℕ)
    (hs : w'.streams i = { w.streams i with handle, highWaterMark })
    (hpending : handle.pending = (w.streams i).handle.pending)
    (hmark : 1 ≤ highWaterMark) (hoffset : w'.offsets i = w.offsets i)
    (hrequests : List.Perm (w'.requestsOf i) (w.requestsOf i)) :
    Flow c offset₀ start stop i w' := by
  have hphase := h.phase
  refine h.update hinv hkeeps (by rw [hs]) (by rw [hs]) (by rw [hs]) (by rw [hs]; exact hmark) ?_
  rw [hs, hoffset]
  generalize w.requestsOf i = rs at hphase hrequests
  cases hphase with
  | quiet hended hcursor hleft hnone =>
    rw [hrequests.eq_nil]
    exact .quiet hended hcursor hleft (hpending.trans hnone)
  | waiting hended hcursor hleft hreading hn hone =>
    rw [hrequests.eq_nil]
    exact .waiting hended hcursor hleft hreading hn (hpending.trans hone)
  | flying hended hasks hleft hreading hlength hsame hnone =>
    rw [hrequests.eq_singleton]
    exact .flying hended hasks hleft hreading hlength hsame (hpending.trans hnone)
  | drained hended heq hnone =>
    rw [hrequests.eq_nil]
    exact .drained hended heq (hpending.trans hnone)

/-! ## The other streams -/

/-- The stream an event is about. -/
def target (w : Readers ι) : Event ι → Option ι
  | .close j | .destroy j | .finished j | .openCompleted j _ | .emit j | .mark j _ | .read j _ =>
    some j
  | .complete k _ => w.requests[k]?.map Request.stream

/-- Nothing has happened to the stream `i`. -/
structure Undisturbed (i : ι) (w w' : Readers ι) : Prop where
  streams : w'.streams i = w.streams i
  offsets : w'.offsets i = w.offsets i
  requestsOf : List.Perm (w'.requestsOf i) (w.requestsOf i)

theorem Undisturbed.trans {w'' : Readers ι} (h : Undisturbed i w w') (h' : Undisturbed i w' w'') :
    Undisturbed i w w'' :=
  ⟨h'.streams.trans h.streams, h'.offsets.trans h.offsets, h'.requestsOf.trans h.requestsOf⟩

theorem undisturbed_set (w : Readers ι) {j : ι} (hj : i ≠ j) (s : ReadStream) :
    Undisturbed i w (w.set j s) :=
  ⟨streams_set_of_ne w hj s, rfl, .refl _⟩

theorem offsets_read (w : Readers ι) (j : ι) (n : ℕ) : (w.read j n).offsets = w.offsets := by
  rw [Readers.read]
  split_ifs
  · rfl
  · simp only
    split_ifs <;> rfl

theorem undisturbed_read (hinv : Inv w) {j : ι} (hj : i ≠ j) (n : ℕ) :
    Undisturbed i w (w.read j n) := by
  refine ⟨streams_read_of_ne w hj n, by rw [offsets_read], ?_⟩
  rw [Readers.read]
  split_ifs
  · exact .refl _
  · rcases Stream.thisPool w.pool w.heap (w.streams j).highWaterMark with ⟨pool, heap⟩
    simp only
    split_ifs
    · exact .refl _
    · refine .of_eq ((requestsOf_request hinv w.pool heap _ i).trans ?_)
      rw [if_neg (Ne.symm hj), List.append_nil]

theorem undisturbed_onread (w : Readers ι) {r : Request ι} (hr : i ≠ r.stream) (n : ℕ) :
    Undisturbed i w (w.onread r n) := by
  rw [Readers.onread]
  split <;> exact undisturbed_set w hr _

theorem undisturbed_receive {k : ℕ} (hk : k ∈ w.inFlight) {r : Request ι}
    (hr : w.requests[k]? = some r) (hi : i ≠ r.stream) (data : Bytes) :
    Undisturbed i w (w.receive k r data) := by
  refine ⟨rfl, ?_, ?_⟩
  · rw [Readers.receive]
    cases r.offset with
    | none => exact Function.update_of_ne hi _ _
    | some p => rfl
  · have hperm := requestsOf_erase hk hr w.heap w.offsets i
    rw [if_neg (Ne.symm hi), List.nil_append] at hperm
    exact hperm.symm

/-- What happens to another stream is nothing to the stream `i`. -/
theorem undisturbed_next (hinv : Inv w) {e : Event ι} (he : w.Enabled e)
    (hne : w.target e ≠ some i) : Undisturbed i w (w.next e) := by
  have hj : ∀ {j : ι}, some j ≠ some i → i ≠ j := fun hne heq => hne (heq ▸ rfl)
  cases e with
  | close j => exact undisturbed_set w (hj hne) _
  | destroy j => exact undisturbed_set w (hj hne) _
  | finished j => exact undisturbed_set w (hj hne) _
  | openCompleted j fd => exact undisturbed_set w (hj hne) _
  | mark j highWaterMark => exact undisturbed_set w (hj hne) _
  | read j n =>
    refine (undisturbed_set w (hj hne) _).trans (undisturbed_read ?_ (hj hne) n)
    exact hinv.set j (hinv.chunks j)
  | emit j =>
    simp only [Readers.next, Readers.emit]
    split
    · exact ⟨rfl, rfl, .refl _⟩
    · exact undisturbed_set w (hj hne) _
    · refine (undisturbed_set w (hj hne) _).trans (undisturbed_read ?_ (hj hne) _)
      exact hinv.set j (hinv.chunks j)
  | complete k result =>
    simp only [Readers.next, Readers.complete]
    split
    · exact ⟨rfl, rfl, .refl _⟩
    · rename_i r hr
      have hi : i ≠ r.stream := by
        rw [target, hr] at hne
        exact hj hne
      have hperm := requestsOf_erase he.1 hr w.heap w.offsets i
      rw [if_neg (Ne.symm hi), List.nil_append] at hperm
      exact ⟨streams_set_of_ne _ hi _, rfl, hperm.symm⟩
    · rename_i r data hr
      have hi : i ≠ r.stream := by
        rw [target, hr] at hne
        exact hj hne
      exact (undisturbed_receive he.1 hr hi data).trans (undisturbed_onread _ hi _)

/-! ## Asking for bytes -/

/-- There is room in the pool that `_read` uses. -/
theorem used_lt_thisPool {pool : Option Pool} {heap : Memory} {highWaterMark : ℕ} {p : Pool}
    {heap' : Memory} (hmark : 1 ≤ highWaterMark)
    (heq : thisPool pool heap highWaterMark = (p, heap')) : 1 ≤ (p.length : ℤ) - p.used := by
  have hnew : allocNewPool heap highWaterMark = (p, heap') → 1 ≤ (p.length : ℤ) - p.used := by
    intro hnew
    obtain ⟨rfl, -⟩ := Prod.mk.inj hnew
    simp only [Nat.cast_zero, sub_zero]
    exact_mod_cast hmark
  cases pool with
  | none => exact hnew heq
  | some pool =>
    rw [thisPool] at heq
    split at heq
    · exact hnew heq
    · rename_i hroom
      obtain ⟨rfl, -⟩ := Prod.mk.inj heq
      rw [kMinPoolSpace] at hroom
      omega

section ToRead

variable {s : ReadStream} {offset q n : ℕ} {pool : Pool}

/-- If `_read` has nothing to ask for, nothing is left. -/
theorem drop_upTo_of_toRead (hcursor : Cursor start s offset q) (hstop : s.stop = stop.map Nat.cast)
    (hroom : 1 ≤ (pool.length : ℤ) - pool.used) (hn : 1 ≤ n) (htoRead : s.toRead pool n ≤ 0) :
    (upTo c start stop).drop q = [] := by
  have hmin : 1 ≤ min ((pool.length : ℤ) - pool.used) n :=
    le_min hroom (by exact_mod_cast hn)
  cases start with
  | none =>
    rw [ReadStream.toRead, hcursor.1] at htoRead
    exact absurd (hmin.trans htoRead) (by decide)
  | some start =>
    have hpos : s.pos = some (q : ℤ) := hcursor
    cases stop with
    | none =>
      rw [ReadStream.toRead, hpos, hstop] at htoRead
      exact absurd (hmin.trans htoRead) (by decide)
    | some stop =>
      -- the range is over
      rw [ReadStream.toRead, hpos, hstop] at htoRead
      refine List.drop_eq_nil_of_le ((List.length_take_le _ _).trans ?_)
      simp only [Option.map_some] at htoRead
      omega

/-- It does not ask for bytes that it is not meant to get. -/
theorem take_upTo_of_toRead (hcursor : Cursor start s offset q) (hstop : s.stop = stop.map Nat.cast)
    {m : ℕ} (hm : (m : ℤ) ≤ s.toRead pool n) :
    (c.drop q).take m = ((upTo c start stop).drop q).take m := by
  cases start with
  | none => rfl
  | some start => cases stop with
    | none => rfl
    | some stop =>
      have hpos : s.pos = some (q : ℤ) := hcursor
      rw [ReadStream.toRead, hpos, hstop] at hm
      simp only [Option.map_some] at hm
      have hle : q + m ≤ stop + 1 := by omega
      rw [upTo, List.take_drop, List.take_drop, List.take_take, Nat.min_eq_left hle]

end ToRead

/-- If nothing is left, everything was read. -/
theorem Flow.bytesRead_eq (h : Flow c offset₀ start stop i w) {q : ℕ}
    (hleft : Left c offset₀ start stop (w.streams i) q) (hnone : (upTo c start stop).drop q = []) :
    (w.streams i).bytesRead = (range c offset₀ start stop).length :=
  Nat.le_antisymm h.le (List.drop_eq_nil_iff.1 (hleft.trans hnone))

omit [DecidableEq ι] in
/-- A stream that is quiet asks for bytes. -/
theorem Phase.flying_of_cursor {s : ReadStream} {offset q : ℕ} (hended : s.ended = false)
    (hcursor : Cursor start s offset q) (hleft : Left c offset₀ start stop s q)
    (hreading : s.reading = true) {toRead : ℤ} (htoRead : 0 < toRead) {part : Region}
    (hpart : part.length = toRead.toNat)
    (hsame : ∀ m ≤ part.length, (c.drop q).take m = ((upTo c start stop).drop q).take m)
    {handle : Handle ℕ} (hpending : handle.pending = []) (region : Region) :
    Phase c offset₀ start stop { s with handle, pos := s.pos.map (· + toRead) } offset
      [(⟨i, region, part, s.pos⟩ : Request ι)] := by
  have hlength : 1 ≤ part.length := by omega
  refine .flying hended ?_ hleft hreading hlength hsame hpending
  cases start with
  | none =>
    obtain ⟨hpos, hoffset⟩ := hcursor
    exact ⟨by rw [Request.offset, hpos]; rfl, by rw [hpos]; rfl, hoffset⟩
  | some start =>
    have hpos : s.pos = some (q : ℤ) := hcursor
    refine ⟨?_, ?_⟩
    · have hne : (q : ℤ) ≠ -1 := by omega
      simp [Request.offset, hpos, hne]
    · rw [hpos, Option.map_some]
      simp only [hpart]
      congr 1
      omega

/-- `_read` is called, and nothing else is going on. -/
theorem Flow.read (h : Flow c offset₀ start stop i w) (hinv : Inv w) {q n : ℕ}
    (hended : (w.streams i).ended = false) (hcursor : Cursor start (w.streams i) (w.offsets i) q)
    (hleft : Left c offset₀ start stop (w.streams i) q) (hreading : (w.streams i).reading = true)
    (hpending : (w.streams i).handle.pending = []) (hrequests : w.requestsOf i = [])
    (hn : 1 ≤ n) : Flow c offset₀ start stop i (w.read i n) := by
  obtain ⟨hinv', hkeeps⟩ := hinv.read i n
  have hoffsets : (w.read i n).offsets i = w.offsets i := by rw [offsets_read]
  rw [Readers.read] at hinv' hkeeps hoffsets ⊢
  split_ifs at hinv' hkeeps hoffsets ⊢ with hfd
  · -- it waits, or the stream was destroyed
    have hs := streams_set_self w i
      { w.streams i with handle := (w.streams i).handle.transfer n false }
    refine h.update hinv hkeeps (by rw [hs]) (by rw [hs]) (by rw [hs]) (by rw [hs]; exact h.mark) ?_
    rw [hs, hoffsets]
    cases hnone : (w.streams i).handle.fd with
    | none =>
      have hwaits := Handle.pending_transfer_of_none hnone n false
      rw [hpending, List.nil_append] at hwaits
      exact hrequests ▸ .waiting hended hcursor hleft hreading hn hwaits
    | some fd =>
      have hsame := Handle.pending_transfer_of_some hnone n false
      exact hrequests ▸ .quiet hended hcursor hleft (hsame.trans hpending)
  · rcases heq : Stream.thisPool w.pool w.heap (w.streams i).highWaterMark with ⟨pool, heap⟩
    rw [heq] at hinv' hkeeps hoffsets
    simp only at hinv' hkeeps hoffsets ⊢
    split_ifs at hinv' hkeeps hoffsets ⊢ with htoRead
    · -- there is nothing to ask for
      have hs := streams_set_self { w with pool := some pool, heap } i ((w.streams i).push none)
      refine h.update hinv hkeeps (by rw [hs]; rfl) (by rw [hs]; rfl) (by rw [hs]; rfl)
        (by rw [hs]; exact h.mark) ?_
      rw [hs, hoffsets]
      have hnone := drop_upTo_of_toRead (c := c) hcursor h.limit (used_lt_thisPool h.mark heq) hn
        htoRead
      exact hrequests ▸ .drained rfl (h.bytesRead_eq hleft hnone) hpending
    · -- bytes are asked for
      obtain ⟨fd, hfd⟩ := Option.ne_none_iff_exists'.1 (not_or.1 hfd).1
      have hlength :
          (slice heap ⟨pool.addr, pool.used, ((w.streams i).toRead pool n).toNat⟩).length =
            ((w.streams i).toRead pool n).toNat :=
        congrArg Region.length (hinv'.inside _ (List.mem_append_right _ List.mem_cons_self)).1
      have hflying := requestsOf_request hinv w.pool heap
        ⟨i, ⟨pool.addr, pool.used, ((w.streams i).toRead pool n).toNat⟩,
          slice heap ⟨pool.addr, pool.used, ((w.streams i).toRead pool n).toNat⟩,
          (w.streams i).pos⟩ i
      rw [if_pos rfl, hrequests, List.nil_append] at hflying
      refine h.update hinv hkeeps (by rw [streams_set_self]) (by rw [streams_set_self])
        (by rw [streams_set_self]) (by rw [streams_set_self]; exact h.mark) ?_
      rw [hoffsets, streams_set_self]
      refine (congrArg (Phase c offset₀ start stop _ _) hflying).mpr
        (.flying_of_cursor hended hcursor hleft hreading (by omega) hlength ?_ ?_ _)
      · intro m hm
        have hle : (m : ℤ) ≤ (w.streams i).toRead pool n := by omega
        exact take_upTo_of_toRead hcursor h.limit hle
      · exact (Handle.pending_transfer_of_some hfd n true).trans hpending

/-! ## Getting bytes -/

/-- After a read of `m` bytes, what is left is what comes after them. -/
theorem Left.add {s : ReadStream} {q : ℕ} (h : Left c offset₀ start stop s q) (m : ℕ) :
    Left c offset₀ start stop { s with bytesRead := s.bytesRead + m } (q + m) := by
  have hdrop := congrArg (List.drop m) h
  rwa [List.drop_drop, List.drop_drop] at hdrop

theorem length_upTo_le (c : Bytes) (start stop : Option ℕ) :
    (upTo c start stop).length ≤ c.length := by
  cases start with
  | none => exact Nat.le_refl _
  | some start => cases stop with
    | none => exact Nat.le_refl _
    | some stop => exact List.length_take_le' _ _

/-- The bytes of a read come next. -/
theorem take_add_of_left {s : ReadStream} {q : ℕ} {data : Bytes}
    (h : Left c offset₀ start stop s q)
    (hdata : data = ((upTo c start stop).drop q).take data.length) :
    (range c offset₀ start stop).take (s.bytesRead + data.length) =
      (range c offset₀ start stop).take s.bytesRead ++ data := by
  rw [List.take_add, h, ← hdata]

omit [DecidableEq ι] in
/-- The position that a read at `q` of `m` bytes leaves the stream at. -/
theorem exists_cursor {s : ReadStream} {offset q : ℕ} {r : Request ι} {m : ℕ}
    (hasks : Asks start s offset q r) (hleft : Left c offset₀ start stop s q)
    (hfull : ∀ p, r.offset = some p → m = min r.part.length (c.length - p.toNat))
    (handle : Handle ℕ) (chunks : List Region) :
    ∃ q', Cursor start
        { s with handle, bytesRead := s.bytesRead + m, chunks, reading := false }
        (match r.offset with
          | some _ => offset
          | none => offset + m) q' ∧
      Left c offset₀ start stop
        { s with handle, bytesRead := s.bytesRead + m, chunks, reading := false } q' := by
  cases start with
  | none =>
    obtain ⟨hr, hpos, rfl⟩ := hasks
    refine ⟨offset + m, ⟨hpos, ?_⟩, hleft.add m⟩
    rw [hr]
  | some start =>
    obtain ⟨hr, hpos⟩ := hasks
    refine ⟨q + r.part.length, hpos, ?_⟩
    have hm : m = min r.part.length (c.length - q) := by simpa using hfull q hr
    rcases Nat.le_total r.part.length (c.length - q) with hle | hle
    · -- all that was asked for was read
      rw [Nat.min_eq_left hle] at hm
      exact hm ▸ hleft.add m
    · -- the end of the file was reached
      rw [Nat.min_eq_right hle] at hm
      have hlength := length_upTo_le c (some start) stop
      have hread : (upTo c (some start) stop).length ≤ q + m := by omega
      have hasked : (upTo c (some start) stop).length ≤ q + r.part.length := by omega
      refine (hleft.add m).trans ?_
      rw [List.drop_eq_nil_of_le hread, List.drop_eq_nil_of_le hasked]

omit [DecidableEq ι] in
theorem offset_of_asks {s : ReadStream} {offset q : ℕ} {r : Request ι}
    (hasks : Asks start s offset q r) (hplace : offset = w.offsets r.stream) : w.place r = q := by
  cases start with
  | none =>
    obtain ⟨hr, -, hoffset⟩ := hasks
    rw [place, hr]
    exact hplace.symm.trans hoffset
  | some start =>
    rw [place, hasks.1]
    exact Int.toNat_natCast q

theorem offsets_receive (w : Readers ι) (k : ℕ) (r : Request ι) (data : Bytes) :
    (w.receive k r data).offsets r.stream = match r.offset with
      | some _ => w.offsets r.stream
      | none => w.offsets r.stream + data.length := by
  rw [Readers.receive]
  cases r.offset with
  | some p => rfl
  | none => exact Function.update_self _ _ _

theorem onread_zero (w : Readers ι) (r : Request ι) :
    w.onread r 0 = w.set r.stream { w.streams r.stream with
      handle := (w.streams r.stream).handle.completed true
      ended := true
      reading := false } := rfl

theorem onread_of_pos {r : Request ι} {n : ℕ} (hn : 0 < n)
    (hended : (w.streams r.stream).ended = false) :
    w.onread r n = w.set r.stream { w.streams r.stream with
      handle := (w.streams r.stream).handle.completed true
      bytesRead := (w.streams r.stream).bytesRead + n
      chunks := (w.streams r.stream).chunks ++
        [slice w.heap ⟨r.region.addr, r.region.start, n⟩]
      reading := false } := by
  simp only [Readers.onread, ReadStream.push, gt_iff_lt, if_pos hn, hended, Bool.false_eq_true,
    if_false]

/-- What is pushed is what was read. -/
theorem contents_pushed (hinv : Inv w) {k : ℕ} {r : Request ι} (hr : w.requests[k]? = some r)
    {data : Bytes} (hle : data.length ≤ r.part.length) :
    (w.receive k r data).heap.contents
      (slice (w.receive k r data).heap ⟨r.region.addr, r.region.start, data.length⟩) =
      ofBytes data := by
  obtain ⟨hregion, hbounds⟩ := hinv.inside r (List.mem_of_getElem? hr)
  have hbounds' := ((hinv.receive hr hle).inside r (List.mem_of_getElem? hr)).2
  have hwithin : (⟨r.part.addr, r.part.start, data.length⟩ : Region).Within r.part :=
    ⟨rfl, Nat.le_refl _, Nat.add_le_add_left hle _⟩
  rw [← hregion, slice_of_inBounds (hbounds'.within hwithin)]
  have hfill := Heap.contents_fill hbounds (ofBytes data)
  rwa [ofBytes, List.length_map] at hfill

/-- Bytes are pushed after those that were, which are left as they are. -/
theorem Flow.chunks_receive {k : ℕ} {r : Request ι} {data : Bytes}
    (h : Flow c offset₀ start stop r.stream w) (hinv : Inv w) (hk : k ∈ w.inFlight)
    (hr : w.requests[k]? = some r) (hle : data.length ≤ r.part.length) :
    (((w.streams r.stream).chunks ++ [slice (w.receive k r data).heap
        ⟨r.region.addr, r.region.start, data.length⟩]).map
      (w.receive k r data).heap.contents).flatten =
        ofBytes ((range c offset₀ start stop).take (w.streams r.stream).bytesRead ++ data) := by
  have hold : (w.streams r.stream).chunks.map (w.receive k r data).heap.contents =
      (w.streams r.stream).chunks.map w.heap.contents :=
    List.map_congr_left fun b hb =>
      (keeps_receive hinv hr hk hle).contents_read (hinv.chunks _ b hb)
  calc (((w.streams r.stream).chunks ++ [_]).map (w.receive k r data).heap.contents).flatten
      = ((w.streams r.stream).chunks.map w.heap.contents).flatten ++ ofBytes data := by
        rw [List.map_append, hold, List.flatten_append, List.map_singleton,
          contents_pushed hinv hr hle, List.flatten_singleton]
    _ = ofBytes ((range c offset₀ start stop).take (w.streams r.stream).bytesRead ++ data) := by
        rw [h.chunks, ofBytes, ofBytes, ofBytes, List.map_append]

/-- The stream gets bytes. -/
theorem Flow.complete (h : Flow c offset₀ start stop i w) (hinv : Inv w) {k : ℕ}
    (hk : k ∈ w.inFlight) {r : Request ι} (hr : w.requests[k]? = some r) (hi : r.stream = i)
    {data : Bytes} (hle : data.length ≤ r.part.length)
    (hdata : data = (c.drop (w.place r)).take data.length)
    (hend : data = [] → c.length ≤ w.place r)
    (hfull : ∀ p, r.offset = some p → data.length = min r.part.length (c.length - p.toNat)) :
    Flow c offset₀ start stop i (onread (w.receive k r data) r data.length) := by
  subst hi
  have hphase := h.phase
  have hperm := requestsOf_erase hk hr (w.receive k r data).heap (w.receive k r data).offsets
    r.stream
  rw [if_pos rfl] at hperm
  have hkeeps : Keeps w (w.receive k r data) := keeps_receive hinv hr hk hle
  generalize w.requestsOf r.stream = rs at hphase hperm
  -- Only in one phase is a request in flight, and it is the only one.
  cases hphase with
  | quiet => exact absurd hperm.symm.eq_nil (List.cons_ne_nil _ _)
  | waiting => exact absurd hperm.symm.eq_nil (List.cons_ne_nil _ _)
  | drained => exact absurd hperm.symm.eq_nil (List.cons_ne_nil _ _)
  | @flying q r' hended hasks hleft hreading hlength hsame hpending =>
    have hcons := hperm.symm.eq_singleton
    obtain ⟨rfl, hrequests⟩ := List.cons.inj hcons
    have hplace : w.place r = q := offset_of_asks hasks rfl
    rw [hplace] at hdata hend
    have hdata' := hdata.trans (hsame _ hle)
    have hpending' :=
      (Handle.sameWork_completed (w.streams r.stream).handle true).pending.trans hpending
    by_cases hzero : data.length = 0
    · -- the end of the file was reached
      have hnone : (upTo c start stop).drop q = [] := by
        refine List.drop_eq_nil_of_le ((length_upTo_le c start stop).trans ?_)
        exact hend (List.length_eq_zero_iff.1 hzero)
      rw [hzero, onread_zero]
      refine h.update hinv (hkeeps.trans (keeps_set _ _ _)) (by rw [streams_set_self]; rfl)
        (by rw [streams_set_self]; rfl) (by rw [streams_set_self]; rfl)
        (by rw [streams_set_self]; exact h.mark) ?_
      rw [streams_set_self]
      refine (congrArg (Phase c offset₀ start stop _ _) hrequests).mpr (.drained rfl ?_ hpending')
      exact h.bytesRead_eq hleft hnone
    · obtain ⟨q', hcursor, hleft'⟩ := exists_cursor hasks hleft hfull
        ((w.streams r.stream).handle.completed true)
        ((w.streams r.stream).chunks ++
          [slice (w.receive k r data).heap ⟨r.region.addr, r.region.start, data.length⟩])
      have htake := take_add_of_left hleft hdata'
      rw [onread_of_pos (w := w.receive k r data) (Nat.pos_of_ne_zero hzero) hended]
      refine ⟨?_, ?_, ?_, ?_, ?_⟩
      · rw [streams_set_self]
        exact (h.chunks_receive hinv hk hr hle).trans (congrArg ofBytes htake.symm)
      · rw [streams_set_self]
        have hlen := congrArg List.length htake
        rw [List.length_append, List.length_take, List.length_take, Nat.min_eq_left h.le] at hlen
        exact min_eq_left_iff.1 hlen
      · rw [streams_set_self]
        exact h.limit
      · rw [streams_set_self]
        exact h.mark
      · rw [streams_set_self]
        refine (congrArg (Phase c offset₀ start stop _ _) hrequests).mpr
          (.quiet hended ?_ hleft' hpending')
        exact (offsets_receive w k r data).symm ▸ hcursor

/-! ## Runs -/

/-- The handle of the stream changes, and no call of `_read` comes or goes. -/
theorem Flow.handle (h : Flow c offset₀ start stop i w) (hinv : Inv w) {handle : Handle ℕ}
    (hpending : handle.pending = (w.streams i).handle.pending) :
    Flow c offset₀ start stop i (w.set i { w.streams i with handle }) :=
  h.frame hinv (keeps_set w i _) _ _ (streams_set_self w i _) hpending h.mark rfl (.refl _)

/-- `_read` is called, once it is noted that it is. -/
theorem Flow.setRead (h : Flow c offset₀ start stop i w) (hinv : Inv w) {s : ReadStream} {q n : ℕ}
    (hs : s = { w.streams i with handle := s.handle, reading := s.reading })
    (hended : (w.streams i).ended = false) (hcursor : Cursor start (w.streams i) (w.offsets i) q)
    (hleft : Left c offset₀ start stop (w.streams i) q) (hreading : s.reading = true)
    (hpending : s.handle.pending = []) (hrequests : w.requestsOf i = []) (hn : 1 ≤ n) :
    Flow c offset₀ start stop i ((w.set i s).read i n) := by
  have hself := streams_set_self w i s
  have hended' : s.ended = false := by rw [hs]; exact hended
  have hcursor' : Cursor start s (w.offsets i) q := by rw [hs]; exact hcursor
  have hleft' : Left c offset₀ start stop s q := by rw [hs]; exact hleft
  have hflow : Flow c offset₀ start stop i (w.set i s) := by
    refine h.update hinv (keeps_set w i s) ?_ ?_ ?_ ?_ ?_
    · rw [hself, hs]
    · rw [hself, hs]
    · rw [hself, hs]
    · rw [hself, hs]
      exact h.mark
    · rw [hself]
      exact (congrArg (Phase c offset₀ start stop _ _) hrequests).mpr
        (.quiet hended' hcursor' hleft' hpending)
  have hinv' : Inv (w.set i s) := hinv.set i (by rw [hs]; exact hinv.chunks i)
  refine hflow.read hinv' (q := q) ?_ ?_ ?_ ?_ ?_ hrequests hn
  all_goals rw [hself]
  · exact hended'
  · exact hcursor'
  · exact hleft'
  · exact hreading
  · exact hpending

/-- `Readable` calls `_read`. -/
theorem Flow.startRead (h : Flow c offset₀ start stop i w) (hinv : Inv w) {n : ℕ} (hn : 1 ≤ n)
    (hreading : (w.streams i).reading = false) (hended : (w.streams i).ended = false) :
    Flow c offset₀ start stop i ((w.set i { w.streams i with reading := true }).read i n) := by
  have hphase := h.phase
  generalize hrequests : w.requestsOf i = rs at hphase
  cases hphase with
  | drained hended' => simp [hended] at hended'
  | waiting _ _ _ hreading' => simp [hreading] at hreading'
  | flying _ _ _ hreading' => simp [hreading] at hreading'
  | quiet _ hcursor hleft hpending =>
    exact h.setRead hinv rfl hended hcursor hleft rfl hpending hrequests hn

/-- A call of `_read` that waited is made. -/
theorem Flow.emitRead (h : Flow c offset₀ start stop i w) (hinv : Inv w) {n : ℕ}
    {ls : List (Listener ℕ)} (hemitting : (w.streams i).handle.emitting = .transfer n :: ls) :
    Flow c offset₀ start stop i
      ((w.set i { w.streams i with handle := { (w.streams i).handle with emitting := ls } }).read
        i n) := by
  have hphase := h.phase
  have hcons : (w.streams i).handle.pending =
      n :: Handle.pending { (w.streams i).handle with emitting := ls } := by
    simp [Handle.pending, hemitting]
  generalize hrequests : w.requestsOf i = rs at hphase
  cases hphase with
  | drained _ _ hpending => simp [hcons] at hpending
  | quiet _ _ _ hpending => simp [hcons] at hpending
  | flying _ _ _ _ _ _ hpending => simp [hcons] at hpending
  | waiting hended hcursor hleft hreading hn hpending =>
    rw [hcons] at hpending
    obtain ⟨rfl, hnone⟩ := List.cons.inj hpending
    exact h.setRead hinv rfl hended hcursor hleft hreading hnone hrequests hn

theorem Flow.next (h : Flow c offset₀ start stop i w) (hinv : Inv w) {e : Event ι}
    (he : w.Enabled e) (hfaithful : w.Faithful i c e) (hfull : w.Full i c e) :
    Flow c offset₀ start stop i (w.next e) := by
  by_cases htarget : w.target e = some i
  · cases e with
    | close j =>
      obtain rfl := Option.some.inj htarget
      exact h.handle hinv (Handle.sameWork_close _).pending
    | destroy j =>
      obtain rfl := Option.some.inj htarget
      exact h.handle hinv (Handle.sameWork_destroy _).pending
    | finished j =>
      obtain rfl := Option.some.inj htarget
      exact h.handle hinv (Handle.sameWork_finished _).pending
    | openCompleted j fd =>
      obtain rfl := Option.some.inj htarget
      exact h.handle hinv (Handle.pending_openCompleted he.2 fd)
    | mark j n =>
      obtain rfl := Option.some.inj htarget
      exact h.frame hinv (keeps_set w _ _) _ _ (streams_set_self w _ _) rfl (hfaithful rfl) rfl
        (.refl _)
    | read j n =>
      obtain rfl := Option.some.inj htarget
      obtain ⟨hn, hreading, hended⟩ := hfaithful rfl
      exact h.startRead hinv hn hreading hended
    | emit j =>
      obtain rfl := Option.some.inj htarget
      simp only [Readers.next, Readers.emit]
      split
      · exact h
      · rename_i ls hemitting
        refine h.handle hinv ?_
        rw [Handle.emit, hemitting]
        simp [Handle.pending, Handle.closeNow, hemitting]
      · rename_i n ls hemitting
        exact h.emitRead hinv hemitting
    | complete k result =>
      obtain ⟨r, hr, hi⟩ := Option.map_eq_some_iff.1 htarget
      obtain ⟨data, rfl, hdata, hend⟩ := hfaithful r hr hi
      simp only [Readers.next, Readers.complete, hr]
      exact h.complete hinv he.1 hr hi ((he.2 r hr).2 data rfl) hdata hend
        fun p hp => hfull r p hr hi hp
  · -- it happens to another stream
    have hsame := undisturbed_next hinv he htarget
    exact h.frame hinv (hinv.next he).2 (w.streams i).handle (w.streams i).highWaterMark
      hsame.streams rfl h.mark hsame.offsets hsame.requestsOf

/-! ## The end of the file is reached -/

/-- The file of a stream is open, and may be read. -/
structure Open (s : ReadStream) : Prop where
  fd : s.handle.fd ≠ none
  destroyed : s.handle.destroyed ≠ true
  emitting : s.handle.emitting = []

theorem Open.completed {s s' : ReadStream} (h : Open s)
    (hs' : s'.handle = s.handle.completed true) : Open s' := by
  refine ⟨?_, ?_, ?_⟩
  all_goals rw [hs']
  · exact h.fd
  · exact h.destroyed
  · exact h.emitting

theorem bytesRead_read (w : Readers ι) (i : ι) (n : ℕ) :
    ((w.read i n).streams i).bytesRead = (w.streams i).bytesRead := by
  rw [Readers.read]
  split_ifs
  · rw [streams_set_self]
  · simp only
    split_ifs
    · rw [streams_set_self]
      rfl
    · rw [streams_set_self]

/-- If the file is open, `_read` ends the stream or asks for bytes. -/
theorem Open.read (hopen : Open (w.streams i)) (hinv : Inv w) (n : ℕ) :
    Open ((w.read i n).streams i) ∧
      (((w.read i n).streams i).ended = true ∨ (w.read i n).requestsOf i ≠ []) := by
  obtain ⟨fd, hfd⟩ := Option.ne_none_iff_exists'.1 hopen.fd
  have hidle : ¬((w.streams i).handle.fd = none ∨ (w.streams i).handle.destroyed = true) :=
    not_or.2 ⟨hopen.fd, hopen.destroyed⟩
  rw [Readers.read, if_neg hidle]
  rcases Stream.thisPool w.pool w.heap (w.streams i).highWaterMark with ⟨pool, heap⟩
  simp only
  split_ifs
  · rw [streams_set_self]
    exact ⟨⟨hopen.fd, hopen.destroyed, hopen.emitting⟩, .inl rfl⟩
  · rw [streams_set_self]
    refine ⟨?_, .inr fun hnone => ?_⟩
    · rcases Handle.transfer_of_some hfd n true with heq | heq
      · rw [heq]
        exact ⟨hopen.fd, hopen.destroyed, hopen.emitting⟩
      · rw [heq]
        exact ⟨hopen.fd, hopen.destroyed, hopen.emitting⟩
    · have hlength := (requestsOf_request hinv w.pool heap _ i).symm.trans hnone
      rw [if_pos rfl] at hlength
      exact List.append_ne_nil_of_right_ne_nil _ (List.cons_ne_nil _ _) hlength

/-- A request may be replied to, and then more was read, or the stream has ended. -/
theorem Flow.exists_reply (h : Flow c offset₀ start stop i w) (hopen : Open (w.streams i))
    (hrequests : w.requestsOf i ≠ []) :
    ∃ e, w.Enabled e ∧ w.Faithful i c e ∧ w.Full i c e ∧ Open ((w.next e).streams i) ∧
      (((w.next e).streams i).ended = true ∨ (((w.next e).streams i).reading = false ∧
        (w.streams i).bytesRead < ((w.next e).streams i).bytesRead)) := by
  have hphase := h.phase
  generalize hrs : w.requestsOf i = rs at hphase
  cases hphase with
  | quiet => exact absurd hrs hrequests
  | waiting => exact absurd hrs hrequests
  | drained => exact absurd hrs hrequests
  | @flying q r hended hasks _ _ hlength _ _ =>
    have hmem : r ∈ w.requestsOf i := by
      rw [hrs]
      exact List.mem_cons_self
    obtain ⟨k, hk, hfilter⟩ := List.mem_filterMap.1 hmem
    obtain ⟨hr, hi⟩ := Option.filter_eq_some_iff.1 hfilter
    have hi : r.stream = i := by simpa using hi
    subst hi
    have hdata : ((c.drop (w.place r)).take r.part.length).length =
        min r.part.length (c.length - w.place r) := by
      rw [List.length_take, List.length_drop]
    have hnext : w.next (.complete k (some ((c.drop (w.place r)).take r.part.length))) =
        onread (w.receive k r ((c.drop (w.place r)).take r.part.length)) r
          ((c.drop (w.place r)).take r.part.length).length := by
      simp only [Readers.next, Readers.complete, hr]
    refine ⟨.complete k (some ((c.drop (w.place r)).take r.part.length)), ⟨hk, ?_⟩, ?_, ?_, ?_, ?_⟩
    · intro r' hr'
      obtain rfl := Option.some.inj (hr.symm.trans hr')
      refine ⟨hopen.emitting, ?_⟩
      rintro data ⟨⟩
      exact List.length_take_le _ _
    · intro r' hr' _
      obtain rfl := Option.some.inj (hr.symm.trans hr')
      refine ⟨_, rfl, ?_, ?_⟩
      · rw [hdata, ← List.length_drop, List.take_eq_take_min]
      · intro hnil
        rw [hnil, List.length_nil] at hdata
        omega
    · intro r' p hr' _ hp
      obtain rfl := Option.some.inj (hr.symm.trans hr')
      rw [hdata, place, hp]
    · rw [hnext]
      exact hopen.completed (handle_onread _ r _)
    · rw [hnext]
      by_cases hzero : ((c.drop (w.place r)).take r.part.length).length = 0
      · refine .inl ?_
        rw [hzero, onread_zero, streams_set_self]
      · refine .inr ?_
        rw [onread_of_pos (w := w.receive k r _) (Nat.pos_of_ne_zero hzero) hended,
          streams_set_self]
        exact ⟨rfl, Nat.lt_add_of_pos_right (Nat.pos_of_ne_zero hzero)⟩

/-- As long as its file is open, the stream gets to the end if it is read from. -/
theorem Flow.exists_ended (h : Flow c offset₀ start stop i w) (hinv : Inv w)
    (hopen : Open (w.streams i)) (hreading : (w.streams i).reading = false) :
    ∃ w', (fullReaders i c).Reachable w w' ∧ (w'.streams i).ended = true := by
  -- By induction on the bytes left: `_read` ends the stream, or makes a request, and the reply to
  -- it ends the stream, or gives it some of them.
  induction hm : (range c offset₀ start stop).length - (w.streams i).bytesRead using
    Nat.strongRecOn generalizing w with
  | ind m ih =>
  by_cases hended : (w.streams i).ended = true
  · exact ⟨w, .refl, hended⟩
  · rw [Bool.not_eq_true] at hended
    have hset : Open ((w.set i { w.streams i with reading := true }).streams i) := by
      rw [streams_set_self]
      exact ⟨hopen.fd, hopen.destroyed, hopen.emitting⟩
    have henabled : (fullReaders i c).Enabled w (.read i 1) :=
      ⟨trivial, fun _ => ⟨Nat.le_refl 1, hreading, hended⟩, trivial⟩
    have hstep : (fullReaders i c).Reachable w (w.next (.read i 1)) := .step .refl henabled
    have hflow : Flow c offset₀ start stop i (w.next (.read i 1)) :=
      h.startRead hinv (Nat.le_refl 1) hreading hended
    have hinv' : Inv (w.next (.read i 1)) := (hinv.next (e := .read i 1) trivial).1
    have hbytes : ((w.next (.read i 1)).streams i).bytesRead = (w.streams i).bytesRead := by
      rw [Readers.next, bytesRead_read, streams_set_self]
    obtain ⟨hopen', hended' | hrequests⟩ := hset.read (hinv.set i (hinv.chunks i)) 1
    · exact ⟨_, hstep, hended'⟩
    · obtain ⟨e, he, hfaithful, hfull, hopen'', hor⟩ := hflow.exists_reply hopen' hrequests
      have hstep' : (fullReaders i c).Reachable w ((w.next (.read i 1)).next e) :=
        hstep.step ⟨he, hfaithful, hfull⟩
      have hflow' := hflow.next hinv' he hfaithful hfull
      rcases hor with hended' | ⟨hreading', hlt⟩
      · exact ⟨_, hstep', hended'⟩
      · have hle := hflow'.le
        obtain ⟨w', hw', hended'⟩ := ih _ (by omega) hflow' (hinv'.next he).1 hopen'' hreading' rfl
        exact ⟨w', hstep'.trans hw', hended'⟩

theorem flow_init {options : ι → ReadOptions} {streams : ι → ReadStream}
    (hmake : ∀ j, ReadStream.make (options j) = .ok (streams j)) (offsets : ι → ℕ)
    (hstart : (options i).start = start.map Nat.cast)
    (hstop : (options i).stop = stop.map Nat.cast) (hmark : 1 ≤ (streams i).highWaterMark) :
    Flow c (offsets i) start stop i (init streams offsets) := by
  have hi : (init streams offsets).streams i = _ := ReadStream.eq_of_make (hmake i)
  refine ⟨?_, ?_, ?_, hmark, ?_⟩
  · rw [hi]
    rfl
  · rw [hi]
    exact Nat.zero_le _
  · rw [hi]
    exact hstop
  · rw [hi]
    refine .quiet (q := start.getD (offsets i)) rfl ?_ rfl ?_
    · cases start with
      | none => exact ⟨hstart, rfl⟩
      | some start => exact hstart
    · cases hfd : (options i).fd <;> rfl

/-- A stream whose reads get all that they ask for, or all that is left, delivers the bytes it was
    asked for; it gets to the end of them if it is read from. Without `start`, and from the start
    of the file on, these are all. -/
theorem delivers_of_full {options : ι → ReadOptions} {streams : ι → ReadStream}
    (hmake : ∀ j, ReadStream.make (options j) = .ok (streams j)) (offsets : ι → ℕ)
    (hstart : (options i).start = start.map Nat.cast)
    (hstop : (options i).stop = stop.map Nat.cast) (hmark : 1 ≤ (streams i).highWaterMark)
    {es : List (Event ι)} (hrun : (readers ι).IsRun (init streams offsets) es)
    (hfaithful : (readers ι).Along (Faithful i c) (init streams offsets) es)
    (hfull : (readers ι).Along (Full i c) (init streams offsets) es) :
    ((readers ι).run (init streams offsets) es).Delivers i (range c (offsets i) start stop) ∧
      (Open (((readers ι).run (init streams offsets) es).streams i) →
        (((readers ι).run (init streams offsets) es).streams i).reading = false →
        ∃ w', (fullReaders i c).Reachable ((readers ι).run (init streams offsets) es) w' ∧
          (w'.streams i).ended = true) ∧
      (offsets i = 0 → start = none ∨ start = some 0 ∧ stop = none →
        range c (offsets i) start stop = c) := by
  have hreachable : (fullReaders i c).Reachable (init streams offsets)
      ((readers ι).run (init streams offsets) es) :=
    System.reachable_run (System.isRun_restrict.2 ⟨hrun, System.along_and.2 ⟨hfaithful, hfull⟩⟩)
  obtain ⟨hinv, hflow⟩ := hreachable.invariant
    (P := fun w => Inv w ∧ Flow c (offsets i) start stop i w)
    ⟨inv_init hmake offsets, flow_init hmake offsets hstart hstop hmark⟩
    fun w e hw he => ⟨(hw.1.next he.1).1, hw.2.next hw.1 he.1 he.2.1 he.2.2⟩
  refine ⟨hflow.delivers, hflow.exists_ended hinv, ?_⟩
  rintro hzero (rfl | ⟨rfl, rfl⟩)
  · rw [range, Option.getD_none, hzero]
    rfl
  · rfl

/-- A stream that reads from the position `start` on, at most 4 bytes at a time. -/
def smallStream (start : ℕ) : ReadStream where
  handle := .init .read true (some 3)
  highWaterMark := 4
  pos := some start
  stop := none
  bytesRead := 0
  chunks := []
  ended := false
  reading := false

/-- The first read gets `data`, the next one nothing. -/
def readTwice (data : Bytes) : List (Event Unit) :=
  [.read () 4, .complete 0 (some data), .read () 4, .complete 1 (some [])]

theorem delivers_readTwice :
    (readers Unit).IsRun (init (fun _ => smallStream 1) fun _ => 0) (readTwice [2, 3]) ∧
      (((readers Unit).run (init (fun _ => smallStream 1) fun _ => 0)
        (readTwice [2, 3])).streams ()).ended = true ∧
      ((readers Unit).run (init (fun _ => smallStream 1) fun _ => 0)
        (readTwice [2, 3])).Delivers () [2, 3] := by
  have hrun : (readers Unit).IsRun (init (fun _ => smallStream 1) fun _ => 0)
      (readTwice [2, 3]) := by
    refine ⟨trivial, ⟨by decide, ?_⟩, trivial, ⟨by decide, ?_⟩, trivial⟩
    all_goals
      intro r hr
      cases hr
      refine ⟨rfl, ?_⟩
      rintro data ⟨⟩
      decide
  have hfaithful : (readers Unit).Along (Faithful () [1, 2, 3])
      (init (fun _ => smallStream 1) fun _ => 0) (readTwice [2, 3]) := by
    refine ⟨fun _ => ⟨by decide, rfl, rfl⟩, ?_, fun _ => ⟨by decide, rfl, rfl⟩, ?_, trivial⟩
    all_goals
      intro r hr _
      cases hr
      exact ⟨_, rfl, by decide, by decide⟩
  have hfull : (readers Unit).Along (Full () [1, 2, 3])
      (init (fun _ => smallStream 1) fun _ => 0) (readTwice [2, 3]) := by
    refine ⟨trivial, ?_, trivial, ?_, trivial⟩
    all_goals
      intro r p hr _ hp
      cases hr
      cases hp
      decide
  have hmake : ∀ _ : Unit, ReadStream.make ⟨none, some 3, some 4, some 1, none⟩ =
      .ok (smallStream 1) := fun _ => rfl
  have hstart : some (1 : ℤ) = (some 1).map Nat.cast := rfl
  have hstop : (none : Option ℤ) = (none : Option ℕ).map Nat.cast := rfl
  exact ⟨hrun, rfl,
    (delivers_of_full hmake (fun _ => 0) hstart hstop (by decide) hrun hfaithful hfull).1⟩

/-- The first read gets one of three bytes. The others are skipped. -/
theorem not_delivers_shortRead :
    (readers Unit).IsRun (init (fun _ => smallStream 0) fun _ => 0) (readTwice [1]) ∧
      (readers Unit).Along (Faithful () [1, 2, 3]) (init (fun _ => smallStream 0) fun _ => 0)
        (readTwice [1]) ∧
      (((readers Unit).run (init (fun _ => smallStream 0) fun _ => 0)
        (readTwice [1])).streams ()).ended = true ∧
      ¬((readers Unit).run (init (fun _ => smallStream 0) fun _ => 0)
        (readTwice [1])).Delivers () (range [1, 2, 3] 0 (some 0) none) := by
  refine ⟨?_, ?_, rfl, fun h => ?_⟩
  · refine ⟨trivial, ⟨by decide, ?_⟩, trivial, ⟨by decide, ?_⟩, trivial⟩
    all_goals
      intro r hr
      cases hr
      refine ⟨rfl, ?_⟩
      rintro data ⟨⟩
      decide
  · refine ⟨fun _ => ⟨by decide, rfl, rfl⟩, ?_, fun _ => ⟨by decide, rfl, rfl⟩, ?_, trivial⟩
    all_goals
      intro r hr _
      cases hr
      exact ⟨_, rfl, by decide, by decide⟩
  · have hall := h.bytesRead_eq rfl
    exact absurd hall (by decide)

end Readers

end Stream

end NodeLkl
