import Mathlib.Logic.Function.Basic
import NodeLkl.Base.Regions
import NodeLkl.Fs.Calls
import NodeLkl.Stream.Handle

/-!
# The read pool

All the `ReadStream`s read to parts of one buffer, the pool, which is replaced by a new one once
there is little room left, reads to the old one being still in flight. The streams and the pool
are one system (`readers`), in which they are read from, and the reads completed, in any order.

* The parts of the pool that are read to are apart from each other, so that no read changes what
  another one read, or is reading (`poolSafe_of_reachable`).
* Each stream deals with its descriptor as in `lifecycle` (`reachable_handle`).

Positions are integers, but for `end`, which may be infinite.
-/

namespace NodeLkl

namespace Stream

open Fs (ofBytes adjustOffset)

/-- What a buffer holds: bytes, and what was never written. -/
abbrev Memory := Heap (Option UInt8)

/-- The part of a buffer that `Buffer.slice` returns, given where the region starts and stops. -/
def slice (heap : Memory) (r : Region) : Region :=
  let start := adjustOffset r.start (heap.buffer r.addr).length
  let stop := adjustOffset (r.start + r.length : ℕ) (heap.buffer r.addr).length
  ⟨r.addr, start, stop - start⟩

/-! ## The streams -/

/-- The options of a `ReadStream`. -/
structure ReadOptions where
  autoClose : Option Bool
  fd : Option ℕ
  highWaterMark : Option ℕ
  start : Option ℤ
  /-- The option `end`. It is infinite if there is none. -/
  stop : Option ℤ

/-- A `ReadStream`, with what is known of it to `Readable`: the chunks that were pushed, whether
    `null` was, and whether a call of `_read` has not pushed anything yet. -/
structure ReadStream where
  handle : Handle ℕ
  highWaterMark : ℕ
  pos : Option ℤ
  stop : Option ℤ
  bytesRead : ℕ
  chunks : List Region
  ended : Bool
  reading : Bool

namespace ReadStream

def make (options : ReadOptions) : Except String ReadStream :=
  if options.start.any fun start => options.stop.any fun stop => start > stop then
    .error "\"start\" option must be <= \"end\" option"
  else .ok {
    handle := .init .read (options.autoClose.getD true) options.fd
    highWaterMark := options.highWaterMark.getD (64 * 1024)
    pos := options.start
    stop := options.stop
    bytesRead := 0
    chunks := []
    ended := false
    reading := false }

theorem eq_of_make {options : ReadOptions} {s : ReadStream} (h : make options = .ok s) :
    s = {
      handle := .init .read (options.autoClose.getD true) options.fd
      highWaterMark := options.highWaterMark.getD (64 * 1024)
      pos := options.start
      stop := options.stop
      bytesRead := 0
      chunks := []
      ended := false
      reading := false } := by
  rw [make] at h
  split at h
  · cases h
  · exact (Except.ok.inj h).symm

/-- `Readable.push`. Nothing can be pushed after `null`. -/
def push (s : ReadStream) : Option Region → ReadStream
  | none => { s with ended := true, reading := false }
  | some b => if s.ended then s else { s with chunks := s.chunks ++ [b], reading := false }

end ReadStream

/-! ## The pool -/

def kMinPoolSpace : ℕ := 128

/-- The variable `pool`: the address of a buffer, its length and the property `used`. -/
structure Pool where
  addr : ℕ
  length : ℕ
  used : ℕ

def allocNewPool (heap : Memory) (poolSize : ℕ) : Pool × Memory :=
  (⟨heap.length, poolSize, 0⟩, heap ++ [List.replicate poolSize none])

/-- The pool that `_read` uses. -/
def thisPool (pool : Option Pool) (heap : Memory) (highWaterMark : ℕ) : Pool × Memory :=
  match pool with
  | none => allocNewPool heap highWaterMark
  | some pool =>
    if (pool.length : ℤ) - pool.used < kMinPoolSpace then allocNewPool heap highWaterMark
    else (pool, heap)

/-- How many bytes `_read` asks for. -/
def ReadStream.toRead (s : ReadStream) (pool : Pool) (n : ℕ) : ℤ :=
  let toRead := min ((pool.length : ℤ) - pool.used) n
  match s.pos, s.stop with
  | some pos, some stop => min (stop - pos + 1) toRead
  -- without `start`, `end` is not looked at
  | _, _ => toRead

/-- A call of `fs.read`: its arguments, and the part of the buffer it gives to the kernel. -/
structure Request (ι : Type) where
  stream : ι
  region : Region
  part : Region
  position : Option ℤ

/-- The position that `binding.read` gives to the kernel, or none if it reads at the position of
    the descriptor. -/
def Request.offset {ι : Type} (r : Request ι) : Option ℤ := r.position.filter (· ≠ -1)

/-- The streams, the pool, the requests that were made (each has its number) and those that are
    in flight, and the positions of the descriptors. -/
structure Readers (ι : Type) where
  streams : ι → ReadStream
  pool : Option Pool
  heap : Memory
  requests : List (Request ι)
  inFlight : List ℕ
  offsets : ι → ℕ

namespace Readers

variable {ι : Type} [DecidableEq ι]

def init (streams : ι → ReadStream) (offsets : ι → ℕ) : Readers ι where
  streams
  pool := none
  heap := []
  requests := []
  inFlight := []
  offsets

def set (w : Readers ι) (i : ι) (s : ReadStream) : Readers ι :=
  { w with streams := Function.update w.streams i s }

/-- `_read`. -/
def read (w : Readers ι) (i : ι) (n : ℕ) : Readers ι :=
  let s := w.streams i
  if s.handle.fd = none ∨ s.handle.destroyed = true then
    w.set i { s with handle := s.handle.transfer n false }
  else
    let (pool, heap) := thisPool w.pool w.heap s.highWaterMark
    let toRead := s.toRead pool n
    if toRead ≤ 0 then set { w with pool := some pool, heap } i (s.push none)
    else
      let region := ⟨pool.addr, pool.used, toRead.toNat⟩
      -- `used` and `pos` move by what is asked for, whatever is read
      set { w with
          pool := some { pool with used := pool.used + toRead.toNat }
          heap
          requests := w.requests ++ [⟨i, region, slice heap region, s.pos⟩]
          inFlight := w.inFlight ++ [w.requests.length] }
        i { s with handle := s.handle.transfer n true, pos := s.pos.map (· + toRead) }

/-- The next listener of `open` is called. -/
def emit (w : Readers ι) (i : ι) : Readers ι :=
  let s := w.streams i
  match s.handle.emitting with
  | [] => w
  | .close :: _ => w.set i { s with handle := s.handle.emit false }
  | .transfer n :: ls => (w.set i { s with handle := { s.handle with emitting := ls } }).read i n

/-- The function `onread` in `_read`, given the bytes read. -/
def onread (w : Readers ι) (r : Request ι) (bytesRead : ℕ) : Readers ι :=
  let s := { w.streams r.stream with handle := (w.streams r.stream).handle.completed true }
  if bytesRead > 0 then
    w.set r.stream ({ s with bytesRead := s.bytesRead + bytesRead }.push
      (some (slice w.heap ⟨r.region.addr, r.region.start, bytesRead⟩)))
  else w.set r.stream (s.push none)

/-- The kernel has written the bytes read to the buffer. -/
def receive (w : Readers ι) (k : ℕ) (r : Request ι) (data : Bytes) : Readers ι :=
  { w with
    inFlight := w.inFlight.erase k
    heap := w.heap.fill r.part (ofBytes data)
    offsets := match r.offset with
      | some _ => w.offsets
      | none => Function.update w.offsets r.stream (w.offsets r.stream + data.length) }

/-- The kernel replies to a request, with the bytes read or an error. -/
def complete (w : Readers ι) (k : ℕ) (result : Option Bytes) : Readers ι :=
  match w.requests[k]?, result with
  | none, _ => w
  | some r, none =>
    -- nothing is pushed, so that `Readable` does not call `_read` any more
    let s := w.streams r.stream
    set { w with inFlight := w.inFlight.erase k } r.stream
      { s with handle := s.handle.completed false }
  | some r, some data => onread (w.receive k r data) r data.length

/-- What happens. A call of `read` by the user may change the mark; `_read` is called by
    `Readable`. -/
inductive Event (ι : Type)
  | close (i : ι)
  | destroy (i : ι)
  | finished (i : ι)
  | openCompleted (i : ι) (fd : Option ℕ)
  | emit (i : ι)
  | mark (i : ι) (highWaterMark : ℕ)
  | read (i : ι) (n : ℕ)
  | complete (k : ℕ) (result : Option Bytes)

/-- The event `e` happens to the handle of a stream. -/
def handleNext (w : Readers ι) (i : ι) (e : Handle.Event ℕ) : Readers ι :=
  w.set i { w.streams i with handle := (w.streams i).handle.next e }

def Enabled (w : Readers ι) : Event ι → Prop
  | .openCompleted i fd => (w.streams i).handle.Enabled (.openCompleted fd)
  | .emit i => (w.streams i).handle.Enabled (.emit false)
  | .complete k result => k ∈ w.inFlight ∧ ∀ r, w.requests[k]? = some r →
      (w.streams r.stream).handle.emitting = [] ∧
        ∀ data, result = some data → data.length ≤ r.part.length
  | _ => True

def next (w : Readers ι) : Event ι → Readers ι
  | .close i => w.handleNext i .close
  | .destroy i => w.handleNext i .destroy
  | .finished i => w.handleNext i .finished
  | .openCompleted i fd => w.handleNext i (.openCompleted fd)
  | .emit i => w.emit i
  | .mark i highWaterMark => w.set i { w.streams i with highWaterMark }
  | .read i n => (w.set i { w.streams i with reading := true }).read i n
  | .complete k result => w.complete k result

end Readers

/-- The streams that read, and the pool they share. -/
def readers (ι : Type) [DecidableEq ι] : System (Readers ι) (Readers.Event ι) where
  Enabled := Readers.Enabled
  next := Readers.next

/-! ## The parts of the pool -/

theorem slice_of_inBounds {heap : Memory} {r : Region} (hr : heap.InBounds r) :
    slice heap r = r := by
  have hstop := hr.stop
  cases r with
  | mk addr start length =>
    simp only [slice, Fs.adjustOffset_natCast] at *
    rw [Nat.min_eq_left (by omega), Nat.min_eq_left hstop, Nat.add_sub_cancel_left]

namespace Readers

variable {ι : Type}

/-- A region is part of one that was read to. -/
def Read (w : Readers ι) (c : Region) : Prop :=
  ∃ k r, w.requests[k]? = some r ∧ k ∉ w.inFlight ∧ c.Within r.part

/-- What the streams keep to. -/
structure Inv (w : Readers ι) : Prop where
  /-- The pool is a buffer, of which no request uses what comes after `used`. -/
  pool : ∀ pool, w.pool = some pool → w.heap.InBounds ⟨pool.addr, 0, pool.used⟩ ∧
    (w.heap.buffer pool.addr).length = pool.length ∧
    ∀ r ∈ w.requests, r.part.addr = pool.addr → r.part.start + r.part.length ≤ pool.used
  inside : ∀ r ∈ w.requests, r.part = r.region ∧ w.heap.InBounds r.part
  apart : w.requests.Pairwise fun r r' => r.part.Apart r'.part
  nodup : w.inFlight.Nodup
  inFlight : ∀ k ∈ w.inFlight, k < w.requests.length
  chunks : ∀ i, ∀ c ∈ (w.streams i).chunks, w.Read c

/-- What changes, from one state to a later one, is not what was read, and not what is still
    being read. -/
structure Keeps (w w' : Readers ι) : Prop where
  requests : w.requests <+: w'.requests
  inFlight : ∀ k < w.requests.length, k ∈ w'.inFlight → k ∈ w.inFlight
  contents : ∀ k r c, w.requests[k]? = some r → c.Within r.part →
    (k ∈ w.inFlight → k ∈ w'.inFlight) → w'.heap.contents c = w.heap.contents c

theorem Keeps.refl (w : Readers ι) : Keeps w w :=
  ⟨List.prefix_rfl, fun _ _ h => h, fun _ _ _ _ _ _ => rfl⟩

theorem Keeps.getElem? {w w' : Readers ι} (h : Keeps w w') {k : ℕ} {r : Request ι}
    (hr : w.requests[k]? = some r) : w'.requests[k]? = some r := by
  obtain ⟨rs, hrs⟩ := h.requests
  rw [← hrs, List.getElem?_append_left (List.getElem?_eq_some_iff.1 hr).1, hr]

theorem Keeps.trans {w w' w'' : Readers ι} (h : Keeps w w') (h' : Keeps w' w'') :
    Keeps w w'' := by
  have hle : w.requests.length ≤ w'.requests.length := h.requests.length_le
  refine ⟨h.requests.trans h'.requests, ?_, ?_⟩
  · intro k hk hmem
    exact h.inFlight k hk (h'.inFlight k (by omega) hmem)
  · intro k r c hr hc himp
    have hk : k < w.requests.length := (List.getElem?_eq_some_iff.1 hr).1
    rw [h'.contents k r c (h.getElem? hr) hc fun hmem => himp (h.inFlight k hk hmem)]
    exact h.contents k r c hr hc fun hmem => h'.inFlight k (by omega) (himp hmem)

/-- What was read stays so. -/
theorem Keeps.read {w w' : Readers ι} (h : Keeps w w') {c : Region} (hc : w.Read c) :
    w'.Read c := by
  obtain ⟨k, r, hr, hk, hwithin⟩ := hc
  refine ⟨k, r, h.getElem? hr, fun hmem => hk ?_, hwithin⟩
  exact h.inFlight k (List.getElem?_eq_some_iff.1 hr).1 hmem

theorem Keeps.contents_read {w w' : Readers ι} (h : Keeps w w') {c : Region} (hc : w.Read c) :
    w'.heap.contents c = w.heap.contents c := by
  obtain ⟨k, r, hr, hk, hwithin⟩ := hc
  exact h.contents k r c hr hwithin fun hmem => absurd hmem hk

section Steps

variable {w : Readers ι}

/-- There is a new pool, of which nothing is used. -/
theorem Inv.allocNewPool (h : Inv w) (poolSize : ℕ) :
    Inv { w with
      pool := some (Stream.allocNewPool w.heap poolSize).1
      heap := (Stream.allocNewPool w.heap poolSize).2 } := by
  refine ⟨?_, ?_, h.apart, h.nodup, h.inFlight, h.chunks⟩
  · intro pool hpool
    obtain rfl := Option.some.inj hpool
    refine ⟨⟨?_, Nat.zero_le _⟩, ?_, ?_⟩
    · simp [Stream.allocNewPool]
    · simp [Stream.allocNewPool, Heap.buffer_concat_self]
    · -- no request is for a buffer that was not there
      intro r hr haddr
      have hlt := (h.inside r hr).2.addr
      rw [haddr] at hlt
      exact absurd hlt (Nat.lt_irrefl _)
  · intro r hr
    exact ⟨(h.inside r hr).1, (h.inside r hr).2.concat _⟩

theorem keeps_allocNewPool (h : Inv w) (poolSize : ℕ) :
    Keeps w { w with
      pool := some (Stream.allocNewPool w.heap poolSize).1
      heap := (Stream.allocNewPool w.heap poolSize).2 } := by
  refine ⟨List.prefix_rfl, fun _ _ h => h, ?_⟩
  intro k r c hr hc _
  exact Heap.contents_concat ((h.inside r (List.mem_of_getElem? hr)).2.within hc) _

/-- The pool that `_read` uses. -/
theorem Inv.thisPool (h : Inv w) (highWaterMark : ℕ) {pool : Pool} {heap : Memory}
    (heq : Stream.thisPool w.pool w.heap highWaterMark = (pool, heap)) :
    Inv { w with pool := some pool, heap } ∧ Keeps w { w with pool := some pool, heap } := by
  have hnew : Stream.allocNewPool w.heap highWaterMark = (pool, heap) →
      Inv { w with pool := some pool, heap } ∧ Keeps w { w with pool := some pool, heap } := by
    intro hnew
    have hinv := h.allocNewPool highWaterMark
    have hkeeps := keeps_allocNewPool h highWaterMark
    rw [hnew] at hinv hkeeps
    exact ⟨hinv, hkeeps⟩
  cases hpool : w.pool with
  | none =>
    rw [hpool] at heq
    exact hnew heq
  | some pool' =>
    rw [hpool, Stream.thisPool] at heq
    split at heq
    · exact hnew heq
    · cases heq
      have hw : { w with pool := some pool } = w := by rw [← hpool]
      rw [hw]
      exact ⟨h, .refl w⟩

/-- The unused part of the pool that comes first is read to. -/
theorem Inv.request (h : Inv w) {pool : Pool} (hpool : w.pool = some pool) (i : ι) {n : ℕ}
    (hn : pool.used + n ≤ pool.length) (position : Option ℤ) :
    Inv { w with
      pool := some { pool with used := pool.used + n }
      requests := w.requests ++ [⟨i, ⟨pool.addr, pool.used, n⟩,
        slice w.heap ⟨pool.addr, pool.used, n⟩, position⟩]
      inFlight := w.inFlight ++ [w.requests.length] } := by
  obtain ⟨hin, hlength, hused⟩ := h.pool pool hpool
  have hbounds : w.heap.InBounds ⟨pool.addr, pool.used, n⟩ := by
    refine ⟨hin.addr, ?_⟩
    rw [hlength]
    exact hn
  rw [slice_of_inBounds hbounds]
  refine ⟨?_, ?_, ?_, ?_, ?_, ?_⟩
  · intro pool' hpool'
    obtain rfl := Option.some.inj hpool'
    refine ⟨⟨hin.addr, ?_⟩, hlength, ?_⟩
    · simp only [Nat.zero_add, hlength]
      exact hn
    · intro r hr haddr
      rcases List.mem_append.1 hr with hr | hr
      · exact Nat.le_add_right_of_le (hused r hr haddr)
      · obtain rfl := List.mem_singleton.1 hr
        exact Nat.le_refl _
  · intro r hr
    rcases List.mem_append.1 hr with hr | hr
    · exact h.inside r hr
    · obtain rfl := List.mem_singleton.1 hr
      exact ⟨rfl, hbounds⟩
  · -- the requests made before use what comes before `used`
    refine List.pairwise_append.2 ⟨h.apart, List.pairwise_singleton _ _, ?_⟩
    intro r hr r' hr' haddr
    obtain rfl := List.mem_singleton.1 hr'
    exact .inl (hused r hr haddr)
  · refine List.nodup_append.2 ⟨h.nodup, List.pairwise_singleton _ _, ?_⟩
    intro k hk k' hk'
    rw [List.mem_singleton.1 hk']
    exact Nat.ne_of_lt (h.inFlight k hk)
  · intro k hk
    rw [List.length_append, List.length_singleton]
    rcases List.mem_append.1 hk with hk | hk
    · exact Nat.lt_succ_of_lt (h.inFlight k hk)
    · rw [List.mem_singleton.1 hk]
      exact Nat.lt_succ_self _
  · -- the requests which are over keep their numbers
    intro j c hc
    obtain ⟨k, r, hr, hk, hwithin⟩ := h.chunks j c hc
    have hlt : k < w.requests.length := (List.getElem?_eq_some_iff.1 hr).1
    refine ⟨k, r, ?_, ?_, hwithin⟩
    · rw [List.getElem?_append_left hlt, hr]
    · rw [List.mem_append, List.mem_singleton]
      rintro (hmem | rfl)
      · exact hk hmem
      · exact absurd hlt (Nat.lt_irrefl _)

theorem keeps_request (w : Readers ι) (pool : Option Pool) (r : Request ι) :
    Keeps w { w with
      pool
      requests := w.requests ++ [r]
      inFlight := w.inFlight ++ [w.requests.length] } := by
  refine ⟨List.prefix_append _ _, ?_, fun _ _ _ _ _ _ => rfl⟩
  intro k hk hmem
  rcases List.mem_append.1 hmem with hmem | hmem
  · exact hmem
  · exact absurd hk (List.mem_singleton.1 hmem ▸ Nat.lt_irrefl _)

theorem Inv.apart_of_ne (h : Inv w) {k k' : ℕ} {r r' : Request ι} (hr : w.requests[k]? = some r)
    (hr' : w.requests[k']? = some r') (hne : k ≠ k') : r.part.Apart r'.part := by
  obtain ⟨hk, rfl⟩ := List.getElem?_eq_some_iff.1 hr
  obtain ⟨hk', rfl⟩ := List.getElem?_eq_some_iff.1 hr'
  rcases Nat.lt_or_gt_of_ne hne with hlt | hlt
  · exact List.pairwise_iff_getElem.1 h.apart k k' hk hk' hlt
  · exact (List.pairwise_iff_getElem.1 h.apart k' k hk' hk hlt).symm

/-- A request is over. -/
theorem Inv.erase (h : Inv w) (k : ℕ) : Inv { w with inFlight := w.inFlight.erase k } := by
  refine ⟨h.pool, h.inside, h.apart, h.nodup.erase k, ?_, ?_⟩
  · exact fun j hj => h.inFlight j (List.mem_of_mem_erase hj)
  · intro i c hc
    obtain ⟨j, r, hr, hj, hwithin⟩ := h.chunks i c hc
    exact ⟨j, r, hr, fun hmem => hj (List.mem_of_mem_erase hmem), hwithin⟩

theorem keeps_erase (w : Readers ι) (k : ℕ) :
    Keeps w { w with inFlight := w.inFlight.erase k } :=
  ⟨List.prefix_rfl, fun _ _ => List.mem_of_mem_erase, fun _ _ _ _ _ _ => rfl⟩

variable [DecidableEq ι]

/-- A stream is changed, having pushed no more than what was read. -/
theorem Inv.set (h : Inv w) (i : ι) {s : ReadStream} (hs : ∀ c ∈ s.chunks, w.Read c) :
    Inv (w.set i s) := by
  refine ⟨h.pool, h.inside, h.apart, h.nodup, h.inFlight, ?_⟩
  intro j c hc
  by_cases hj : j = i
  · subst hj
    simp only [Readers.set, Function.update_self] at hc
    exact hs c hc
  · simp only [Readers.set, Function.update_of_ne hj] at hc
    exact h.chunks j c hc

theorem keeps_set (w : Readers ι) (i : ι) (s : ReadStream) : Keeps w (w.set i s) :=
  ⟨List.prefix_rfl, fun _ _ h => h, fun _ _ _ _ _ _ => rfl⟩

/-- The kernel writes to a part of a buffer. -/
theorem Inv.receive (h : Inv w) {k : ℕ} {r : Request ι} (hr : w.requests[k]? = some r)
    {data : Bytes} (hdata : data.length ≤ r.part.length) : Inv (w.receive k r data) := by
  have hbounds : w.heap.InBounds r.part := (h.inside r (List.mem_of_getElem? hr)).2
  have hlength : (ofBytes data).length ≤ r.part.length := by
    rw [ofBytes, List.length_map]
    exact hdata
  have herase := h.erase k
  refine ⟨?_, ?_, h.apart, herase.nodup, herase.inFlight, herase.chunks⟩
  · intro pool hpool
    obtain ⟨hin, hlen, hused⟩ := h.pool pool hpool
    refine ⟨hin.fill hbounds hlength, ?_, hused⟩
    exact (Heap.length_buffer_fill hbounds hlength _).trans hlen
  · intro r' hr'
    exact ⟨(h.inside r' hr').1, (h.inside r' hr').2.fill hbounds hlength⟩

/-- It does not write to the parts of the others. -/
theorem keeps_receive (h : Inv w) {k : ℕ} {r : Request ι} (hr : w.requests[k]? = some r)
    (hk : k ∈ w.inFlight) {data : Bytes} (hdata : data.length ≤ r.part.length) :
    Keeps w (w.receive k r data) := by
  refine ⟨List.prefix_rfl, fun _ _ => List.mem_of_mem_erase, ?_⟩
  intro k' r' c hr' hc himp
  -- the request that is replied to is not in flight any more
  have hne : k' ≠ k := by
    rintro rfl
    exact (h.nodup.mem_erase_iff.1 (himp hk)).1 rfl
  refine Heap.contents_fill_of_apart (h.inside r (List.mem_of_getElem? hr)).2 ?_ ?_
  · rw [ofBytes, List.length_map]
    exact hdata
  · exact (h.apart_of_ne hr' hr hne).within hc

theorem mem_chunks_push {s : ReadStream} {b c : Region} (hc : c ∈ (s.push (some b)).chunks) :
    c ∈ s.chunks ∨ c = b := by
  rw [ReadStream.push] at hc
  split at hc
  · exact .inl hc
  · simpa using hc

/-- What was read is pushed. -/
theorem Inv.onread (h : Inv w) {k : ℕ} {r : Request ι} (hr : w.requests[k]? = some r)
    (hk : k ∉ w.inFlight) {n : ℕ} (hn : n ≤ r.part.length) : Inv (w.onread r n) := by
  obtain ⟨hregion, hbounds⟩ := h.inside r (List.mem_of_getElem? hr)
  have hwithin : (⟨r.region.addr, r.region.start, n⟩ : Region).Within r.part := by
    rw [hregion] at hn ⊢
    exact ⟨rfl, Nat.le_refl _, Nat.add_le_add_left hn _⟩
  rw [Readers.onread]
  split
  · refine h.set _ fun c hc => ?_
    rw [slice_of_inBounds (hbounds.within hwithin)] at hc
    rcases mem_chunks_push hc with hc | rfl
    · exact h.chunks _ c hc
    · exact ⟨k, r, hr, hk, hwithin⟩
  · exact h.set _ fun c hc => h.chunks _ c hc

theorem keeps_onread (w : Readers ι) (r : Request ι) (n : ℕ) : Keeps w (w.onread r n) := by
  rw [Readers.onread]
  split <;> exact keeps_set w _ _

theorem toRead_le (s : ReadStream) (pool : Pool) (n : ℕ) :
    s.toRead pool n ≤ (pool.length : ℤ) - pool.used := by
  rw [ReadStream.toRead]
  split
  · exact (min_le_right _ _).trans (min_le_left _ _)
  · exact min_le_left _ _

/-- A call of `_read`. -/
theorem Inv.read (h : Inv w) (i : ι) (n : ℕ) : Inv (w.read i n) ∧ Keeps w (w.read i n) := by
  rw [Readers.read]
  split_ifs with hfd
  · exact ⟨h.set i (h.chunks i), keeps_set w i _⟩
  · rcases heq : Stream.thisPool w.pool w.heap (w.streams i).highWaterMark with ⟨pool, heap⟩
    obtain ⟨hinv, hkeeps⟩ := h.thisPool _ heq
    simp only
    split_ifs with htoRead
    · exact ⟨hinv.set i (hinv.chunks i), hkeeps.trans (keeps_set _ i _)⟩
    · have hroom : pool.used + ((w.streams i).toRead pool n).toNat ≤ pool.length := by
        have := toRead_le (w.streams i) pool n
        omega
      have hrequest := hinv.request rfl i hroom (w.streams i).pos
      refine ⟨hrequest.set i (hrequest.chunks i), ?_⟩
      exact (hkeeps.trans (keeps_request _ _ _)).trans (keeps_set _ i _)

/-- What happens keeps to it. -/
theorem Inv.next (h : Inv w) {e : Event ι} (he : w.Enabled e) :
    Inv (w.next e) ∧ Keeps w (w.next e) := by
  cases e with
  | close i => exact ⟨h.set i (h.chunks i), keeps_set w i _⟩
  | destroy i => exact ⟨h.set i (h.chunks i), keeps_set w i _⟩
  | finished i => exact ⟨h.set i (h.chunks i), keeps_set w i _⟩
  | openCompleted i fd => exact ⟨h.set i (h.chunks i), keeps_set w i _⟩
  | mark i highWaterMark => exact ⟨h.set i (h.chunks i), keeps_set w i _⟩
  | read i n =>
    obtain ⟨hinv, hkeeps⟩ :=
      (h.set i (s := { w.streams i with reading := true }) (h.chunks i)).read i n
    exact ⟨hinv, (keeps_set w i _).trans hkeeps⟩
  | emit i =>
    simp only [Readers.next, Readers.emit]
    split
    · exact ⟨h, .refl w⟩
    · exact ⟨h.set i (h.chunks i), keeps_set w i _⟩
    · rename_i n ls _
      obtain ⟨hinv, hkeeps⟩ := (h.set i
        (s := { w.streams i with handle := { (w.streams i).handle with emitting := ls } })
        (h.chunks i)).read i n
      exact ⟨hinv, (keeps_set w i _).trans hkeeps⟩
  | complete k result =>
    obtain ⟨hk, hfits⟩ := he
    simp only [Readers.next, Readers.complete]
    split
    · exact ⟨h, .refl w⟩
    · have herase := h.erase k
      exact ⟨herase.set _ (herase.chunks _), (keeps_erase w k).trans (keeps_set _ _ _)⟩
    · rename_i r data hr
      have hdata : data.length ≤ r.part.length := (hfits r hr).2 data rfl
      have hk' : k ∉ (w.receive k r data).inFlight := fun hmem =>
        (h.nodup.mem_erase_iff.1 hmem).1 rfl
      exact ⟨(h.receive hr hdata).onread hr hk' hdata,
        (keeps_receive h hr hk hdata).trans (keeps_onread _ _ _)⟩

end Steps

theorem inv_init {options : ι → ReadOptions} {streams : ι → ReadStream}
    (hmake : ∀ i, ReadStream.make (options i) = .ok (streams i)) (offsets : ι → ℕ) :
    Inv (init streams offsets) := by
  refine ⟨?_, ?_, .nil, .nil, ?_, ?_⟩
  · intro pool hpool
    cases hpool
  · intro r hr
    cases hr
  · intro k hk
    cases hk
  · intro i c hc
    have hi : (init streams offsets).streams i = _ := ReadStream.eq_of_make (hmake i)
    rw [hi] at hc
    cases hc

/-- From a state that keeps to the invariant on, what was read stays as it is. -/
theorem Inv.reachable [DecidableEq ι] {w w' : Readers ι} (h : Inv w)
    (hw' : (readers ι).Reachable w w') : Inv w' ∧ Keeps w w' := by
  refine hw'.invariant (P := fun w' => Inv w' ∧ Keeps w w') ⟨h, .refl w⟩ ?_
  intro v e hv he
  obtain ⟨hinv, hkeeps⟩ := hv.1.next he
  exact ⟨hinv, hv.2.trans hkeeps⟩

variable [DecidableEq ι]

/-- What is meant of the pool. -/
structure PoolSafe (w : Readers ι) : Prop where
  /-- The regions asked for are inside their buffers, and are what the kernel gets. -/
  inside : ∀ r ∈ w.requests, r.part = r.region ∧ w.heap.InBounds r.region
  /-- They have nothing in common. -/
  apart : w.requests.Pairwise fun r r' => r.region.Apart r'.region
  /-- The chunks that were pushed stay as they are. -/
  pushed : ∀ w', (readers ι).Reachable w w' → ∀ i, ∀ c ∈ (w.streams i).chunks,
    w'.heap.contents c = w.heap.contents c
  /-- Only the read itself changes a region that is being read to. -/
  filling : ∀ w', (readers ι).Reachable w w' → ∀ k ∈ w'.inFlight, ∀ r, w.requests[k]? = some r →
    w'.heap.contents r.region = w.heap.contents r.region

theorem Inv.poolSafe {w : Readers ι} (h : Inv w) : PoolSafe w := by
  have hregion : ∀ r ∈ w.requests, r.part = r.region := fun r hr => (h.inside r hr).1
  refine ⟨?_, ?_, ?_, ?_⟩
  · intro r hr
    exact ⟨hregion r hr, hregion r hr ▸ (h.inside r hr).2⟩
  · refine h.apart.imp_of_mem ?_
    intro r r' hr hr' hapart
    rwa [hregion r hr, hregion r' hr'] at hapart
  · intro w' hw' i c hc
    exact (h.reachable hw').2.contents_read (h.chunks i c hc)
  · intro w' hw' k hk r hr
    have hwithin : r.region.Within r.part := by
      rw [hregion r (List.mem_of_getElem? hr)]
      exact ⟨rfl, Nat.le_refl _, Nat.le_refl _⟩
    exact (h.reachable hw').2.contents k r _ hr hwithin fun _ => hk

/-- However the streams are read from, and whatever is read, the pool is safe. -/
theorem poolSafe_of_reachable {options : ι → ReadOptions} {streams : ι → ReadStream}
    (hmake : ∀ i, ReadStream.make (options i) = .ok (streams i)) (offsets : ι → ℕ)
    {w : Readers ι} (hw : (readers ι).Reachable (init streams offsets) w) : w.PoolSafe := by
  exact ((inv_init hmake offsets).reachable hw).1.poolSafe

/-- The options of two streams, with descriptors, and marks of 200 bytes. -/
def twoOptions (i : Bool) : ReadOptions := ⟨none, some (if i then 3 else 4), some 200, none, none⟩

def twoStreams (i : Bool) : ReadStream where
  handle := .init .read true (some (if i then 3 else 4))
  highWaterMark := 200
  pos := none
  stop := none
  bytesRead := 0
  chunks := []
  ended := false
  reading := false

/-- The first two reads are from one pool, which is replaced while the first is in flight. -/
def threeReads : List (Event Bool) :=
  [.read true 50, .read false 30, .complete 1 (some [7]), .read false 20]

theorem poolSafe_threeReads :
    (readers Bool).IsRun (init twoStreams fun _ => 0) threeReads ∧
      ((readers Bool).run (init twoStreams fun _ => 0) threeReads).requests.map Request.region =
        [⟨0, 0, 50⟩, ⟨0, 50, 30⟩, ⟨1, 0, 20⟩] ∧
      ((readers Bool).run (init twoStreams fun _ => 0) threeReads).PoolSafe := by
  have hrun : (readers Bool).IsRun (init twoStreams fun _ => 0) threeReads := by
    refine ⟨trivial, trivial, ⟨by decide, ?_⟩, trivial, trivial⟩
    intro r hr
    cases hr
    refine ⟨rfl, ?_⟩
    intro data hdata
    cases hdata
    decide +kernel
  refine ⟨hrun, by decide +kernel, ?_⟩
  have hmake : ∀ i, ReadStream.make (twoOptions i) = .ok (twoStreams i) := fun _ => rfl
  exact poolSafe_of_reachable hmake (fun _ => 0) (System.reachable_run hrun)

/-! ## The descriptors -/

/-- The requests of a stream that are in flight. -/
def requestsOf (w : Readers ι) (i : ι) : List (Request ι) :=
  w.inFlight.filterMap fun k => w.requests[k]?.filter fun r => r.stream = i

/-- The streams know how many there are. -/
def Counted (w : Readers ι) : Prop :=
  ∀ i, (w.streams i).handle.inFlight = (w.requestsOf i).length

section Handles

variable {w : Readers ι}

@[simp]
theorem streams_set_self (w : Readers ι) (i : ι) (s : ReadStream) :
    (w.set i s).streams i = s := Function.update_self _ _ _

theorem streams_set_of_ne (w : Readers ι) {i j : ι} (hj : j ≠ i) (s : ReadStream) :
    (w.set i s).streams j = w.streams j := Function.update_of_ne hj _ _

theorem Counted.set (h : Counted w) (i : ι) {s : ReadStream}
    (hs : s.handle.inFlight = (w.streams i).handle.inFlight) : Counted (w.set i s) := by
  intro j
  by_cases hj : j = i
  · subst hj
    rw [streams_set_self, hs]
    exact h j
  · rw [streams_set_of_ne w hj]
    exact h j

/-- A request is made. -/
theorem requestsOf_request (hinv : Inv w) (pool : Option Pool) (heap : Memory) (r : Request ι)
    (j : ι) :
    requestsOf { w with
      pool
      heap
      requests := w.requests ++ [r]
      inFlight := w.inFlight ++ [w.requests.length] } j =
      w.requestsOf j ++ if r.stream = j then [r] else [] := by
  have hold : w.inFlight.filterMap (fun k => (w.requests ++ [r])[k]?.filter fun r => r.stream = j) =
      w.requestsOf j := by
    refine List.filterMap_congr fun k hk => ?_
    rw [List.getElem?_append_left (hinv.inFlight k hk)]
  simp only [requestsOf, List.filterMap_append] at hold ⊢
  rw [hold, List.filterMap_cons, List.filterMap_nil, List.getElem?_concat_length,
    Option.filter_some]
  by_cases hr : r.stream = j
  · simp [hr]
  · simp [hr]

/-- A request is over. -/
theorem requestsOf_erase {k : ℕ} (hk : k ∈ w.inFlight) {r : Request ι}
    (hr : w.requests[k]? = some r) (heap : Memory) (offsets : ι → ℕ) (j : ι) :
    List.Perm (w.requestsOf j) ((if r.stream = j then [r] else []) ++
      requestsOf { w with inFlight := w.inFlight.erase k, heap, offsets } j) := by
  have hperm := (List.perm_cons_erase hk).filterMap
    fun k => w.requests[k]?.filter fun r => r.stream = j
  rw [List.filterMap_cons, hr, Option.filter_some] at hperm
  split_ifs with hj
  · simpa [requestsOf, hj] using hperm
  · simpa [requestsOf, hj] using hperm

theorem Counted.request (h : Counted w) (hinv : Inv w) (pool : Option Pool) (heap : Memory)
    (r : Request ι) {s : ReadStream}
    (hs : s.handle.inFlight = (w.streams r.stream).handle.inFlight + 1) :
    Counted (Readers.set { w with
      pool
      heap
      requests := w.requests ++ [r]
      inFlight := w.inFlight ++ [w.requests.length] } r.stream s) := by
  intro j
  have hcount := congrArg List.length (requestsOf_request hinv pool heap r j)
  rw [List.length_append] at hcount
  by_cases hj : j = r.stream
  · subst hj
    rw [if_pos rfl] at hcount
    rw [streams_set_self, hs, h]
    exact hcount.symm
  · rw [if_neg (Ne.symm hj)] at hcount
    rw [streams_set_of_ne _ hj]
    exact (h j).trans hcount.symm

theorem Counted.read (h : Counted w) (hinv : Inv w) (i : ι) (n : ℕ) : Counted (w.read i n) := by
  rw [Readers.read]
  split_ifs with hfd
  · exact h.set i (Handle.inFlight_transfer_false _ _)
  · obtain ⟨hfd, hdestroyed⟩ := not_or.1 hfd
    rcases Stream.thisPool w.pool w.heap (w.streams i).highWaterMark with ⟨pool, heap⟩
    simp only
    split_ifs with htoRead
    · exact Counted.set (w := { w with pool := some pool, heap }) h i rfl
    · exact h.request hinv _ _ ⟨i, _, _, _⟩
        (Handle.inFlight_transfer_true hfd (fun h => hdestroyed h.2) n)

theorem Counted.erase (h : Counted w) {k : ℕ} (hk : k ∈ w.inFlight)
    {r : Request ι} (hr : w.requests[k]? = some r) {s : ReadStream}
    (hs : s.handle.inFlight = (w.streams r.stream).handle.inFlight - 1) (heap : Memory)
    (offsets : ι → ℕ) :
    Counted (Readers.set { w with inFlight := w.inFlight.erase k, heap, offsets } r.stream s) := by
  intro j
  have hcount := (requestsOf_erase hk hr heap offsets j).length_eq
  rw [List.length_append] at hcount
  by_cases hj : j = r.stream
  · subst hj
    rw [if_pos rfl] at hcount
    rw [streams_set_self, hs, h, hcount]
    exact Nat.add_sub_cancel_left _ _
  · rw [if_neg (Ne.symm hj), List.length_nil, Nat.zero_add] at hcount
    rw [streams_set_of_ne _ hj]
    exact (h j).trans hcount

theorem Counted.next (h : Counted w) (hinv : Inv w) {e : Event ι} (he : w.Enabled e) :
    Counted (w.next e) := by
  cases e with
  | close i => exact h.set i (Handle.sameWork_close _).inFlight
  | destroy i => exact h.set i (Handle.sameWork_destroy _).inFlight
  | finished i => exact h.set i (Handle.sameWork_finished _).inFlight
  | openCompleted i fd => exact h.set i (Handle.inFlight_openCompleted _ fd)
  | mark i highWaterMark => exact h.set i rfl
  | read i n =>
    have hset : Counted (w.set i { w.streams i with reading := true }) := h.set i rfl
    exact hset.read (hinv.set i (hinv.chunks i)) i n
  | emit i =>
    simp only [Readers.next, Readers.emit]
    split
    · exact h
    · rename_i hemitting
      refine h.set i ?_
      rw [Handle.emit, hemitting]
      rfl
    · rename_i n ls _
      have hset : Counted (w.set i
          { w.streams i with handle := { (w.streams i).handle with emitting := ls } }) :=
        h.set i rfl
      exact hset.read (hinv.set i (hinv.chunks i)) i n
  | complete k result =>
    simp only [Readers.next, Readers.complete]
    split
    · exact h
    · rename_i r hr
      exact h.erase he.1 hr (Handle.sameWork_completed _ _).inFlight w.heap w.offsets
    · rename_i r data hr
      rw [Readers.onread]
      split
      · refine h.erase he.1 hr ?_ _ _
        rw [ReadStream.push]
        split <;> exact (Handle.sameWork_completed _ _).inFlight
      · exact h.erase he.1 hr (Handle.sameWork_completed _ _).inFlight _ _

/-- What `_read` does with the descriptor. -/
theorem exists_handle_read (w : Readers ι) (i : ι) (n : ℕ) : ∃ issues,
    ((w.read i n).streams i).handle = (w.streams i).handle.transfer n issues := by
  rw [Readers.read]
  split_ifs with hfd
  · exact ⟨false, by rw [streams_set_self]⟩
  · obtain ⟨hfd, hdestroyed⟩ := not_or.1 hfd
    obtain ⟨fd, hfd⟩ := Option.ne_none_iff_exists'.1 hfd
    rcases Stream.thisPool w.pool w.heap (w.streams i).highWaterMark with ⟨pool, heap⟩
    simp only
    split_ifs with htoRead
    · refine ⟨false, ?_⟩
      rw [streams_set_self]
      simp [ReadStream.push, Handle.transfer, hfd]
    · exact ⟨true, by rw [streams_set_self]⟩

theorem streams_read_of_ne (w : Readers ι) {i j : ι} (hj : j ≠ i) (n : ℕ) :
    (w.read i n).streams j = w.streams j := by
  rw [Readers.read]
  split_ifs
  · exact streams_set_of_ne w hj _
  · simp only
    split_ifs
    · exact streams_set_of_ne _ hj _
    · exact streams_set_of_ne _ hj _

/-- A stream does nothing with its descriptor, or what streams do. -/
def HandleStep (w w' : Readers ι) (j : ι) : Prop :=
  (w'.streams j).handle = (w.streams j).handle ∨ ∃ e, (w.streams j).handle.Enabled e ∧
    (w'.streams j).handle = (w.streams j).handle.next e

/-- One of the streams does something. -/
theorem handleStep_of_ne {w' : Readers ι} {i : ι} {e : Handle.Event ℕ}
    (hne : ∀ j, j ≠ i → (w'.streams j).handle = (w.streams j).handle)
    (he : (w.streams i).handle.Enabled e)
    (hs : (w'.streams i).handle = (w.streams i).handle.next e) (j : ι) : HandleStep w w' j := by
  by_cases hj : j = i
  · subst hj
    exact .inr ⟨e, he, hs⟩
  · exact .inl (hne j hj)

theorem handleStep_set {i : ι} {s : ReadStream} {e : Handle.Event ℕ}
    (he : (w.streams i).handle.Enabled e) (hs : s.handle = (w.streams i).handle.next e) (j : ι) :
    HandleStep w (w.set i s) j := by
  refine handleStep_of_ne (fun j hj => ?_) he ?_ j
  · rw [streams_set_of_ne w hj]
  · rw [streams_set_self, hs]

theorem handle_onread (w : Readers ι) (r : Request ι) (n : ℕ) :
    ((w.onread r n).streams r.stream).handle =
      ((w.streams r.stream).handle).completed true := by
  rw [Readers.onread]
  split
  · rw [streams_set_self, ReadStream.push]
    split <;> rfl
  · rw [streams_set_self]
    rfl

theorem streams_onread_of_ne (w : Readers ι) (r : Request ι) (n : ℕ) {j : ι}
    (hj : j ≠ r.stream) : (w.onread r n).streams j = w.streams j := by
  rw [Readers.onread]
  split <;> exact streams_set_of_ne w hj _

theorem Counted.handleStep (h : Counted w) {e : Event ι} (he : w.Enabled e) (j : ι) :
    HandleStep w (w.next e) j := by
  cases e with
  | close i => exact handleStep_set (e := .close) trivial rfl j
  | destroy i => exact handleStep_set (e := .destroy) trivial rfl j
  | finished i => exact handleStep_set (e := .finished) trivial rfl j
  | openCompleted i fd => exact handleStep_set (e := .openCompleted fd) he rfl j
  | mark i highWaterMark =>
    refine .inl ?_
    by_cases hj : j = i
    · subst hj
      rw [Readers.next, streams_set_self]
    · rw [Readers.next, streams_set_of_ne w hj]
  | read i n =>
    obtain ⟨issues, hissues⟩ :=
      exists_handle_read (w.set i { w.streams i with reading := true }) i n
    refine handleStep_of_ne (i := i) (e := .transfer n issues) (fun j hj => ?_) trivial ?_ j
    · rw [Readers.next, streams_read_of_ne _ hj, streams_set_of_ne w hj]
    · rw [Readers.next, hissues, streams_set_self]
      rfl
  | emit i =>
    simp only [Readers.next, Readers.emit]
    split
    · exact .inl rfl
    · exact handleStep_set (e := .emit false) he rfl j
    · rename_i n ls hemitting
      obtain ⟨issues, hissues⟩ := exists_handle_read
        (w.set i { w.streams i with handle := { (w.streams i).handle with emitting := ls } }) i n
      refine handleStep_of_ne (i := i) (e := .emit issues) (fun j hj => ?_) he ?_ j
      · rw [streams_read_of_ne _ hj, streams_set_of_ne w hj]
      · rw [hissues, streams_set_self]
        simp only [Handle.next, Handle.emit, hemitting]
  | complete k result =>
    obtain ⟨hk, hfits⟩ := he
    have henabled : ∀ r ok, w.requests[k]? = some r →
        (w.streams r.stream).handle.Enabled (.completed ok) := by
      intro r ok hr
      refine ⟨?_, (hfits r hr).1⟩
      rw [h r.stream]
      refine Nat.ne_of_gt (List.length_pos_of_mem (a := r) ?_)
      exact List.mem_filterMap.2 ⟨k, hk, by simp [hr]⟩
    simp only [Readers.next, Readers.complete]
    split
    · exact .inl rfl
    · rename_i r hr
      exact handleStep_set (w := w) (henabled r false hr) rfl j
    · rename_i r data hr
      refine handleStep_of_ne (i := r.stream) (fun j hj => ?_) (henabled r true hr) ?_ j
      · rw [streams_onread_of_ne _ _ _ hj]
        rfl
      · rw [handle_onread]
        rfl

end Handles

/-- Each of the streams deals with its descriptor as one stream does. -/
theorem reachable_handle {options : ι → ReadOptions} {streams : ι → ReadStream}
    (hmake : ∀ i, ReadStream.make (options i) = .ok (streams i)) (offsets : ι → ℕ)
    {w : Readers ι} (hw : (readers ι).Reachable (init streams offsets) w) (j : ι) :
    (lifecycle ℕ).Reachable (.init .read ((options j).autoClose.getD true) (options j).fd)
      (w.streams j).handle := by
  refine (hw.invariant (P := fun w => Inv w ∧ Counted w ∧ (lifecycle ℕ).Reachable
    (.init .read ((options j).autoClose.getD true) (options j).fd) (w.streams j).handle)
    ⟨inv_init hmake offsets, ?_, ?_⟩ ?_).2.2
  · intro i
    have hi : (init streams offsets).streams i = _ := ReadStream.eq_of_make (hmake i)
    rw [hi]
    rfl
  · have hj : (init streams offsets).streams j = _ := ReadStream.eq_of_make (hmake j)
    rw [hj]
    exact .refl
  · rintro w e ⟨hinv, hcounted, hreachable⟩ he
    refine ⟨(hinv.next he).1, hcounted.next hinv he, ?_⟩
    rcases hcounted.handleStep he j with heq | ⟨e', he', heq⟩
    · exact heq ▸ hreachable
    · exact heq ▸ hreachable.step he'

end Readers

end Stream

end NodeLkl
