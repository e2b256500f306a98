import NodeLkl.Base.File
import NodeLkl.Fs.Structs
import NodeLkl.Stream.Handle

/-!
# Writing a stream to a file

A `WriteStream` writes the chunks it is given one at a time: `Writable` keeps those that come while
a write is under way, and then has the stream write the next one with `_write`, or all of them with
`_writev` if there are several. The position of the stream, if it has one, moves by what it writes.

* What a write does not store is not written again, and is lost. `_writev` cannot write at all: it
  throws, no `error` is emitted, and the stream is stuck (`not_stores_twoChunks_threeChunks`).
* If neither happens, the stream stores the chunks one after the other, or emits an `error`
  (`stores_of_whole`).
* What the stream does with its descriptor is as in `lifecycle` (`reachable_handle_writer`).
-/

namespace NodeLkl

namespace Stream

/-- The calls that may wait for the event `open`: of `_write`, or of `_writev`. -/
inductive Transfer
  | write (data : Bytes)
  | writev (chunks : List Bytes)

/-- The options of a `WriteStream`. -/
structure WriteOptions where
  autoClose : Option Bool
  fd : Option ℕ
  start : Option ℤ

/-- A `WriteStream`, with what is known of it to `Writable`: the chunks that are buffered, whether
    one is being written, whether `end` was called, whether the events `finish` and `error` were
    emitted. Then the writes in flight, with their positions, whether an exception was thrown, the
    file, and the chunks given to the stream so far. -/
structure WriteStream where
  handle : Handle Transfer
  pos : Option ℕ
  bytesWritten : ℕ
  buffered : List Bytes
  writing : Bool
  ending : Bool
  finished : Bool
  errored : Bool
  thrown : Bool
  inFlight : List (Bytes × Option ℕ)
  file : OpenFile UInt8
  chunks : List Bytes

namespace WriteStream

/-- A stream that was just made, for a file. -/
def make (options : WriteOptions) (file : OpenFile UInt8) : Except String WriteStream :=
  if options.start.any (· < 0) then .error "\"start\" must be >= zero"
  else .ok {
    handle := .init .write (options.autoClose.getD true) options.fd
    pos := options.start.map Int.toNat
    bytesWritten := 0
    buffered := []
    writing := false
    ending := false
    finished := false
    errored := false
    thrown := false
    inFlight := []
    file
    chunks := [] }

/-- `_write`. -/
def write (s : WriteStream) (data : Bytes) : WriteStream :=
  if s.handle.fd = none then { s with handle := s.handle.transfer (.write data) false }
  else { s with
    handle := s.handle.transfer (.write data) true
    inFlight := s.inFlight ++ [(data, s.pos)]
    -- by all of the data, whatever is written of them
    pos := s.pos.map (· + data.length) }

/-- `_writev`. The function `writeBuffers` of the binding throws. -/
def writev (s : WriteStream) (chunks : List Bytes) : WriteStream :=
  if s.handle.fd = none then { s with handle := s.handle.transfer (.writev chunks) false }
  else { s with thrown := true }

/-- `Writable` is given a chunk. -/
def writeOrBuffer (s : WriteStream) (data : Bytes) : WriteStream :=
  if s.ending then { s with errored := true }
  else if s.writing then
    { s with chunks := s.chunks ++ [data], buffered := s.buffered ++ [data] }
  else write { s with chunks := s.chunks ++ [data], writing := true } data

/-- `Writable` goes on with the chunks that are buffered. -/
def clearBuffer (s : WriteStream) : WriteStream :=
  match s.buffered with
  | [] => s
  | [data] => write { s with buffered := [], writing := true } data
  | chunks =>
    -- several chunks are written together; the buffer is cleared after the call
    let s := writev { s with writing := true } chunks
    if s.thrown then s else { s with buffered := [] }

/-- The kernel replies to a write: it stored some bytes, or failed. -/
def complete (s : WriteStream) (result : Option ℕ) : WriteStream :=
  match s.inFlight, result with
  | [], _ => s
  | _ :: rest, none => { s with
      inFlight := rest
      handle := s.handle.completed false
      writing := false
      errored := true }
  | (data, position) :: rest, some bytes => clearBuffer { s with
      inFlight := rest
      handle := s.handle.completed true
      -- the rest of the data, if there is some, is not written again
      file := s.file.put 0 position (data.take bytes)
      bytesWritten := s.bytesWritten + bytes
      writing := false }

/-- The next listener of `open` is called. -/
def emit (s : WriteStream) : WriteStream :=
  match s.handle.emitting with
  | [] => s
  | .close :: _ => { s with handle := s.handle.emit false }
  | .transfer (.write data) :: ls =>
    write { s with handle := { s.handle with emitting := ls } } data
  | .transfer (.writev chunks) :: ls =>
    writev { s with handle := { s.handle with emitting := ls } } chunks

/-- What happens. The chunks, and the call of `end`, come from the user. -/
inductive Event
  | chunk (data : Bytes)
  | stop
  | openCompleted (fd : Option ℕ)
  | emit
  | complete (result : Option ℕ)
  | finish

def Event.fromUser : Event → Prop
  | chunk _ | stop => True
  | _ => False

/-- A write stores some bytes, if there are any. -/
def Enabled (s : WriteStream) : Event → Prop
  | .openCompleted fd => s.handle.Enabled (.openCompleted fd)
  | .emit => s.handle.emitting ≠ []
  | .complete result => s.handle.emitting = [] ∧ ∃ data position rest,
      s.inFlight = (data, position) :: rest ∧
        ∀ bytes, result = some bytes → bytes ≤ data.length ∧ (bytes = 0 → data = [])
  | .finish => s.ending = true ∧ s.writing = false ∧ s.buffered = [] ∧ s.finished = false
  | _ => True

def next (s : WriteStream) : Event → WriteStream
  | .chunk data => s.writeOrBuffer data
  | .stop => { s with ending := true }
  | .openCompleted fd =>
    { s with handle := s.handle.openCompleted fd, errored := s.errored || fd.isNone }
  | .emit => s.emit
  | .complete result => s.complete result
  | .finish => { s with finished := true, handle := s.handle.finished }

end WriteStream

/-- A stream that writes. -/
def writer : System WriteStream WriteStream.Event where
  Enabled := WriteStream.Enabled
  next := WriteStream.next

namespace WriteStream

/-- Nothing is left to happen, unless the user does something. -/
def Settled (s : WriteStream) : Prop := ∀ e, s.Enabled e → e.fromUser

/-- What a stream is meant to do, for a file and a position in it. -/
structure Stores (file : OpenFile UInt8) (start : Option ℕ) (s : WriteStream) : Prop where
  /-- Without an error, all the chunks are stored. -/
  stored : s.finished = true → s.errored = false →
    s.file = file.put 0 start s.chunks.flatten ∧ s.bytesWritten = s.chunks.flatten.length
  /-- It gets there, or emits an error. -/
  told : s.ending = true → s.Settled → s.finished = true ∨ s.errored = true

/-- A write stores all of its bytes, or fails; not more than one chunk waits for it. -/
def Whole (s : WriteStream) : Event → Prop
  | .complete (some bytes) => ∀ data position rest, s.inFlight = (data, position) :: rest →
      bytes = data.length ∧ s.buffered.length ≤ 1
  | _ => True

/-! ## The phases of a stream -/

/-- The bytes `done` were written to the file, which has become `file'`. -/
structure Wrote (file : OpenFile UInt8) (start : Option ℕ) (file' : OpenFile UInt8)
    (bytesWritten : ℕ) (done : Bytes) : Prop where
  file_eq : file' = file.put 0 start done
  bytesWritten_eq : bytesWritten = done.length

/-- The file is being opened, or is open, and nothing closes it. -/
structure Ready (h : Handle Transfer) : Prop where
  or : (h.opening = true ∧ h.fd = none ∧ h.emitting = []) ∨ (h.fd ≠ none ∧ h.listeners = [])
  emitting : .close ∉ h.emitting
  listeners : .close ∉ h.listeners

/-- What a stream may be about to do: nothing, to write a chunk once its file is open, to go on
    once a chunk is written; or else it has emitted an error. -/
inductive Phase (file : OpenFile UInt8) (start : Option ℕ) (s : WriteStream) : Prop
  | errored : s.errored = true → Phase file start s
  | quiet : s.writing = false → s.inFlight = [] → s.buffered = [] → s.handle.pending = [] →
      (s.finished = true ∧ s.ending = true ∨ s.finished = false ∧ Ready s.handle) →
      Wrote file start s.file s.bytesWritten s.chunks.flatten →
      s.pos = start.map (· + s.chunks.flatten.length) → Phase file start s
  | waiting {done data : Bytes} : s.writing = true → s.inFlight = [] →
      s.handle.pending = [.write data] → s.finished = false → Ready s.handle →
      Wrote file start s.file s.bytesWritten done →
      s.pos = start.map (· + done.length) →
      s.chunks.flatten = done ++ data ++ s.buffered.flatten → Phase file start s
  | flying {done data : Bytes} : s.writing = true →
      s.inFlight = [(data, start.map (· + done.length))] → s.handle.pending = [] →
      s.finished = false → Ready s.handle →
      Wrote file start s.file s.bytesWritten done →
      s.pos = start.map (· + (done ++ data).length) →
      s.chunks.flatten = done ++ data ++ s.buffered.flatten → Phase file start s

variable {file : OpenFile UInt8} {start : Option ℕ} {s : WriteStream}

theorem phase_make {options : WriteOptions} (hmake : make options file = .ok s) :
    Phase file s.pos s := by
  rw [make] at hmake
  split at hmake
  · cases hmake
  · obtain rfl := Except.ok.inj hmake
    refine .quiet rfl rfl rfl ?_ (.inr ⟨rfl, ?_, List.not_mem_nil, List.not_mem_nil⟩)
      ⟨?_, rfl⟩ ?_
    · cases options.fd <;> rfl
    · cases options.fd with
      | none => exact .inl ⟨rfl, rfl, rfl⟩
      | some fd => exact .inr ⟨Option.some_ne_none _, rfl⟩
    · exact (OpenFile.put_nil _ _ _).symm
    · cases options.start <;> rfl

/-! ## Steps -/

theorem Ready.transfer {h : Handle Transfer} (hready : Ready h) (t : Transfer) (issues : Bool) :
    Ready (h.transfer t issues) := by
  rcases hready.or with ⟨hopening, hfd, hemitting⟩ | ⟨hfd, hlisteners⟩
  · rw [Handle.transfer_of_none hfd]
    refine ⟨.inl ⟨hopening, hfd, hemitting⟩, hready.emitting, ?_⟩
    simpa using hready.listeners
  · obtain ⟨fd, hfd'⟩ := Option.ne_none_iff_exists'.1 hfd
    rcases Handle.transfer_of_some hfd' t issues with heq | heq
    · rw [heq]
      exact hready
    · rw [heq]
      exact ⟨.inr ⟨hfd, hlisteners⟩, hready.emitting, hready.listeners⟩

theorem map_add_add (start : Option ℕ) (m n : ℕ) :
    (start.map (· + m)).map (· + n) = start.map (· + (m + n)) := by
  cases start with
  | none => rfl
  | some p => exact congrArg some (Nat.add_assoc p m n)

/-- A chunk is written, or waits for the event `open`. -/
theorem phase_write {done data : Bytes} (hwriting : s.writing = true) (hinFlight : s.inFlight = [])
    (hpending : s.handle.pending = []) (hfinished : s.finished = false) (hready : Ready s.handle)
    (hwrote : Wrote file start s.file s.bytesWritten done)
    (hpos : s.pos = start.map (· + done.length))
    (hchunks : s.chunks.flatten = done ++ data ++ s.buffered.flatten) :
    Phase file start (s.write data) := by
  rw [write]
  split_ifs with hfd
  · have hwaits := Handle.pending_transfer_of_none hfd (.write data) false
    rw [hpending, List.nil_append] at hwaits
    exact .waiting hwriting hinFlight hwaits hfinished (hready.transfer _ _) hwrote hpos hchunks
  · obtain ⟨fd, hfd⟩ := Option.ne_none_iff_exists'.1 hfd
    have hmoved : s.pos.map (· + data.length) = start.map (· + (done ++ data).length) := by
      rw [hpos, map_add_add, List.length_append]
    refine .flying hwriting ?_ ?_ hfinished (hready.transfer _ _) hwrote hmoved hchunks
    · rw [hinFlight, hpos]
      rfl
    · exact (Handle.pending_transfer_of_some hfd _ _).trans hpending

theorem errored_write (s : WriteStream) (data : Bytes) : (s.write data).errored = s.errored := by
  rw [write]
  split_ifs <;> rfl

theorem errored_writev (s : WriteStream) (chunks : List Bytes) :
    (s.writev chunks).errored = s.errored := by
  rw [writev]
  split_ifs <;> rfl

theorem errored_clearBuffer (s : WriteStream) : s.clearBuffer.errored = s.errored := by
  rw [clearBuffer]
  split
  · rfl
  · exact errored_write _ _
  · simp only
    split_ifs <;> exact errored_writev _ _

/-- An error is not forgotten. -/
theorem errored_next (h : s.errored = true) (e : Event) : (s.next e).errored = true := by
  cases e with
  | chunk data =>
    simp only [next, writeOrBuffer]
    split_ifs
    · rfl
    · exact h
    · exact (errored_write _ _).trans h
  | stop => exact h
  | finish => exact h
  | openCompleted fd => simp [next, h]
  | emit =>
    simp only [next, emit]
    split
    · exact h
    · exact h
    · exact (errored_write _ _).trans h
    · exact (errored_writev _ _).trans h
  | complete result =>
    simp only [next, complete]
    split
    · exact h
    · rfl
    · exact (errored_clearBuffer _).trans h

/-- A chunk comes. -/
theorem Phase.chunk (h : Phase file start s) (data : Bytes) :
    Phase file start (s.writeOrBuffer data) := by
  have hflatten : (s.chunks ++ [data]).flatten = s.chunks.flatten ++ data := by
    rw [List.flatten_append, List.flatten_singleton]
  have hbuffer : (s.buffered ++ [data]).flatten = s.buffered.flatten ++ data := by
    rw [List.flatten_append, List.flatten_singleton]
  cases h with
  | errored herrored => exact .errored (errored_next herrored (.chunk data))
  | quiet hwriting hinFlight hbuffered hpending hready hwrote hpos =>
    -- it is written at once, unless it comes after `end`
    rw [writeOrBuffer]
    split_ifs with hending hwriting'
    · exact .errored rfl
    · simp [hwriting] at hwriting'
    · rcases hready with ⟨-, hending'⟩ | ⟨hfinished, hready⟩
      · exact absurd hending' hending
      · refine phase_write (s := { s with chunks := s.chunks ++ [data], writing := true }) rfl
          hinFlight hpending hfinished hready hwrote hpos ?_
        rw [hflatten, hbuffered, List.flatten_nil, List.append_nil]
  | waiting hwriting hinFlight hpending hfinished hready hwrote hpos hchunks =>
    -- it is buffered, after the chunk that is being written
    rw [writeOrBuffer]
    split_ifs with hending
    · exact .errored rfl
    · refine .waiting hwriting hinFlight hpending hfinished hready hwrote hpos ?_
      rw [hflatten, hbuffer, hchunks, List.append_assoc]
  | flying hwriting hinFlight hpending hfinished hready hwrote hpos hchunks =>
    rw [writeOrBuffer]
    split_ifs with hending
    · exact .errored rfl
    · refine .flying hwriting hinFlight hpending hfinished hready hwrote hpos ?_
      rw [hflatten, hbuffer, hchunks, List.append_assoc]

/-- Nothing changes for the chunks if the handle is still ready, and has the same calls waiting. -/
theorem Phase.frame (h : Phase file start s) {handle : Handle Transfer} {ending errored : Bool}
    (hpending : handle.pending = s.handle.pending) (hready : Ready s.handle → Ready handle)
    (hending : s.ending = true → ending = true) (herrored : s.errored = true → errored = true) :
    Phase file start { s with handle, ending, errored } := by
  cases h with
  | errored h => exact .errored (herrored h)
  | quiet hwriting hinFlight hbuffered hnone hor hwrote hpos =>
    exact .quiet hwriting hinFlight hbuffered (hpending.trans hnone)
      (hor.imp (fun h => ⟨h.1, hending h.2⟩) fun h => ⟨h.1, hready h.2⟩) hwrote hpos
  | waiting hwriting hinFlight hone hfinished hready' hwrote hpos hchunks =>
    exact .waiting hwriting hinFlight (hpending.trans hone) hfinished (hready hready') hwrote hpos
      hchunks
  | flying hwriting hinFlight hnone hfinished hready' hwrote hpos hchunks =>
    exact .flying hwriting hinFlight (hpending.trans hnone) hfinished (hready hready') hwrote hpos
      hchunks

/-- The file was opened, or not. -/
theorem Phase.openCompleted (h : Phase file start s) (hemitting : s.handle.emitting = [])
    (fd : Option ℕ) : Phase file start
      { s with handle := s.handle.openCompleted fd, errored := s.errored || fd.isNone } := by
  cases fd with
  | none => exact .errored (Bool.or_true _)
  | some fd =>
    refine h.frame (Handle.pending_openCompleted hemitting (some fd)) ?_ id ?_
    · intro hready
      exact ⟨.inr ⟨Option.some_ne_none _, rfl⟩, hready.listeners, List.not_mem_nil⟩
    · intro herrored
      rw [herrored]
      rfl

/-- A listener of `open` is called. -/
theorem Phase.emit (h : Phase file start s) : Phase file start s.emit := by
  rw [WriteStream.emit]
  split
  · exact h
  · -- the file is only closed once the stream has finished
    rename_i ls hemitting
    refine h.frame ?_ ?_ id id
    · rw [Handle.emit, hemitting]
      simp [Handle.pending, Handle.closeNow, hemitting]
    · intro hready
      exact absurd (hemitting ▸ List.mem_cons_self) hready.emitting
  · -- the call of `_write` that waits is the only one
    rename_i data ls hemitting
    have hcons : s.handle.pending =
        .write data :: Handle.pending { s.handle with emitting := ls } := by
      simp [Handle.pending, hemitting]
    cases h with
    | errored herrored => exact .errored ((errored_write _ _).trans herrored)
    | quiet _ _ _ hpending => simp [hcons] at hpending
    | flying _ _ hpending => simp [hcons] at hpending
    | @waiting done data' hwriting hinFlight hpending hfinished hready hwrote hpos hchunks =>
      rw [hcons] at hpending
      obtain ⟨hdata, hnone⟩ := List.cons.inj hpending
      obtain rfl := Transfer.write.inj hdata
      have hready' : Ready { s.handle with emitting := ls } := by
        refine ⟨.inr ?_, ?_, hready.listeners⟩
        · rcases hready.or with ⟨-, -, hnil⟩ | hopen
          · simp [hemitting] at hnil
          · exact hopen
        · intro hmem
          exact hready.emitting (hemitting ▸ List.mem_cons_of_mem _ hmem)
      exact phase_write (s := { s with handle := { s.handle with emitting := ls } }) hwriting
        hinFlight hnone hfinished hready' hwrote hpos hchunks
  · -- no call of `_writev` waits
    rename_i chunks ls hemitting
    have hcons : s.handle.pending =
        .writev chunks :: Handle.pending { s.handle with emitting := ls } := by
      simp [Handle.pending, hemitting]
    cases h with
    | errored herrored => exact .errored ((errored_writev _ _).trans herrored)
    | quiet _ _ _ hpending => simp [hcons] at hpending
    | flying _ _ hpending => simp [hcons] at hpending
    | waiting _ _ hpending => simp [hcons] at hpending

/-- A chunk was written, or could not be. -/
theorem Phase.complete (h : Phase file start s) {data : Bytes} {position : Option ℕ}
    {rest : List (Bytes × Option ℕ)} (hinFlight : s.inFlight = (data, position) :: rest)
    {result : Option ℕ} (hwhole : s.Whole (.complete result)) :
    Phase file start (s.complete result) := by
  cases result with
  | none =>
    simp only [WriteStream.complete, hinFlight]
    exact .errored rfl
  | some bytes =>
    simp only [WriteStream.complete, hinFlight]
    obtain ⟨rfl, hbuffered⟩ := hwhole data position rest hinFlight
    cases h with
    | errored herrored => exact .errored ((errored_clearBuffer _).trans herrored)
    | quiet _ hnil => simp [hinFlight] at hnil
    | waiting _ hnil => simp [hinFlight] at hnil
    | @flying done data' hwriting hinFlight' hpending hfinished hready hwrote hpos hchunks =>
      rw [hinFlight] at hinFlight'
      obtain ⟨hpair, rfl⟩ := List.cons.inj hinFlight'
      obtain ⟨rfl, rfl⟩ := Prod.mk.inj hpair
      have hwrote' : Wrote file start (s.file.put 0 (start.map (· + done.length))
          (data.take data.length)) (s.bytesWritten + data.length) (done ++ data) := by
        refine ⟨?_, ?_⟩
        · rw [List.take_length, hwrote.file_eq, OpenFile.put_put]
        · rw [hwrote.bytesWritten_eq, List.length_append]
      have hready' : Ready (s.handle.completed true) :=
        ⟨hready.or, hready.emitting, hready.listeners⟩
      have hpending' := (Handle.sameWork_completed s.handle true).pending.trans hpending
      rcases hb : s.buffered with _ | ⟨d, _ | ⟨d', ds⟩⟩
      · -- all was written
        have hall : s.chunks.flatten = done ++ data := by
          rw [hchunks, hb, List.flatten_nil, List.append_nil]
        simp only [clearBuffer]
        refine .quiet rfl rfl rfl hpending' (.inr ⟨hfinished, hready'⟩) ?_ ?_
        · exact hall ▸ hwrote'
        · exact hall ▸ hpos
      · -- there is one more chunk
        simp only [clearBuffer]
        refine phase_write rfl rfl hpending' hfinished hready' hwrote' hpos ?_
        rw [hchunks, hb, List.flatten_singleton]
        exact (List.append_nil _).symm
      · -- two chunks would be given to `_writev`
        simp [hb] at hbuffered

/-- The event `finish` is emitted. -/
theorem Phase.finish (h : Phase file start s) (hwriting : s.writing = false)
    (hending : s.ending = true) :
    Phase file start { s with finished := true, handle := s.handle.finished } := by
  cases h with
  | errored herrored => exact .errored herrored
  | quiet _ hinFlight hbuffered hpending hready hwrote hpos =>
    exact .quiet hwriting hinFlight hbuffered ((Handle.sameWork_finished _).pending.trans hpending)
      (.inl ⟨rfl, hending⟩) hwrote hpos
  | waiting hwriting' => simp [hwriting] at hwriting'
  | flying hwriting' => simp [hwriting] at hwriting'

theorem Phase.next (h : Phase file start s) {e : Event} (he : s.Enabled e) (hwhole : s.Whole e) :
    Phase file start (s.next e) := by
  cases e with
  | chunk data => exact h.chunk data
  | stop => exact h.frame rfl id (fun _ => rfl) id
  | openCompleted fd => exact h.openCompleted he.2 fd
  | emit => exact h.emit
  | complete result =>
    obtain ⟨-, data, position, rest, hinFlight, -⟩ := he
    exact h.complete hinFlight hwhole
  | finish => exact h.finish he.2.1 he.1

/-! ## Runs -/

theorem Phase.stored (h : Phase file start s) (hfinished : s.finished = true)
    (herrored : s.errored = false) :
    s.file = file.put 0 start s.chunks.flatten ∧ s.bytesWritten = s.chunks.flatten.length := by
  cases h with
  | errored herrored' => simp [herrored] at herrored'
  | quiet _ _ _ _ _ hwrote _ => exact ⟨hwrote.file_eq, hwrote.bytesWritten_eq⟩
  | waiting _ _ _ hnot => simp [hfinished] at hnot
  | flying _ _ _ hnot => simp [hfinished] at hnot

/-- If nothing is left to happen, the stream has finished or emitted an error. -/
theorem Phase.told (h : Phase file start s) (hending : s.ending = true) (hsettled : s.Settled) :
    s.finished = true ∨ s.errored = true := by
  cases h with
  | errored herrored => exact .inr herrored
  | quiet hwriting _ hbuffered _ _ _ _ =>
    refine .inl ?_
    by_contra hfinished
    exact hsettled .finish ⟨hending, hwriting, hbuffered, by simpa using hfinished⟩
  | waiting _ _ hpending _ hready _ _ _ =>
    -- `open` has not completed, or its listeners are being called
    rcases hready.or with ⟨hopening, -, hemitting⟩ | ⟨-, hlisteners⟩
    · exact (hsettled (.openCompleted none) ⟨hopening, hemitting⟩).elim
    · refine (hsettled .emit fun hemitting => ?_).elim
      simp [Handle.pending, hemitting, hlisteners] at hpending
  | @flying _ data _ hinFlight _ _ _ _ _ _ =>
    -- the write in flight may be replied to
    by_cases hemitting : s.handle.emitting = []
    · refine (hsettled (.complete none) ⟨hemitting, data, _, [], hinFlight, ?_⟩).elim
      intro bytes hbytes
      cases hbytes
    · exact (hsettled .emit hemitting).elim

/-- What happens without the user. -/
def internal : System WriteStream Event := writer.restrict fun _ e => ¬e.fromUser

/-- How much may be left to happen. A call that waits may become a write. -/
def rank (s : WriteStream) : ℕ :=
  s.handle.opening.toNat + 2 * s.handle.emitting.length + s.inFlight.length + (!s.finished).toNat

theorem rank_write_le (s : WriteStream) (data : Bytes) : (s.write data).rank ≤ s.rank + 1 := by
  rw [write]
  split_ifs with hfd
  · rw [Handle.transfer_of_none hfd]
    exact Nat.le_succ _
  · obtain ⟨fd, hfd⟩ := Option.ne_none_iff_exists'.1 hfd
    rcases Handle.transfer_of_some hfd (.write data) true with heq | heq
    all_goals
      simp only [rank, heq, List.length_append, List.length_singleton]
      omega

theorem rank_writev (s : WriteStream) (chunks : List Bytes) : (s.writev chunks).rank = s.rank := by
  rw [writev]
  split_ifs with hfd
  · rw [Handle.transfer_of_none hfd]
    rfl
  · rfl

theorem rank_emit_lt (hemit : s.handle.emitting ≠ []) : s.emit.rank < s.rank := by
  obtain ⟨x, ls, hls⟩ := List.exists_cons_of_ne_nil hemit
  have hlt : rank { s with handle := { s.handle with emitting := ls } } + 2 = s.rank := by
    simp only [rank, hls, List.length_cons]
    omega
  rw [emit]
  split
  · rename_i hnil
    exact absurd hnil hemit
  · rename_i ls' hemitting
    obtain rfl := (List.cons.inj (hls.symm.trans hemitting)).2
    rw [Handle.emit, hemitting]
    exact Nat.lt_of_lt_of_eq (Nat.lt_add_of_pos_right (by decide)) hlt
  · rename_i data ls' hemitting
    obtain rfl := (List.cons.inj (hls.symm.trans hemitting)).2
    have := rank_write_le { s with handle := { s.handle with emitting := ls } } data
    omega
  · rename_i chunks ls' hemitting
    obtain rfl := (List.cons.inj (hls.symm.trans hemitting)).2
    rw [rank_writev]
    omega

/-- It may always get to where nothing is left to happen. -/
theorem exists_settled (s : WriteStream) : ∃ s', internal.Reachable s s' ∧ s'.Settled := by
  have hrank : ∀ s, ¬internal.Halted s → ∃ e, internal.Enabled s e ∧
      rank (internal.next s e) < rank s := by
    intro s hs
    obtain ⟨e, he⟩ := not_forall.1 hs
    obtain ⟨he, huser⟩ := not_not.1 he
    cases e with
    | chunk data => exact absurd trivial huser
    | stop => exact absurd trivial huser
    | emit => exact ⟨.emit, ⟨he, huser⟩, rank_emit_lt he⟩
    | openCompleted fd =>
      have hsame := Handle.sameWork_openFailed s.handle
      refine ⟨.openCompleted none, ⟨he, id⟩, ?_⟩
      simp only [internal, System.restrict, writer, next, rank, hsame.opening, hsame.emitting, he.1,
        Bool.toNat_true, Bool.toNat_false]
      omega
    | complete result =>
      obtain ⟨hemitting, data, position, rest, hinFlight, -⟩ := he
      have hsame := Handle.sameWork_completed s.handle false
      refine ⟨.complete none, ⟨⟨hemitting, data, position, rest, hinFlight, ?_⟩, id⟩, ?_⟩
      · intro bytes hbytes
        cases hbytes
      · simp only [internal, System.restrict, writer, next, complete, hinFlight, rank,
          hsame.opening, hsame.emitting, List.length_cons]
        omega
    | finish =>
      have hsame := Handle.sameWork_finished s.handle
      refine ⟨.finish, ⟨he, huser⟩, ?_⟩
      simp only [internal, System.restrict, writer, next, rank, hsame.opening, hsame.emitting,
        he.2.2.2, Bool.not_true, Bool.not_false, Bool.toNat_true, Bool.toNat_false]
      omega
  obtain ⟨s', hs', hhalted⟩ := System.exists_halted rank hrank s
  refine ⟨s', hs', fun e he => ?_⟩
  by_contra huser
  exact hhalted e ⟨he, huser⟩

/-- A stream whose writes store all of their bytes or fail, and that never has more than one chunk
    waiting when a write is over, stores the chunks or emits an error. -/
theorem stores_of_whole {options : WriteOptions} (hmake : make options file = .ok s)
    {es : List Event} (hrun : writer.IsRun s es) (hwhole : writer.Along Whole s es) :
    (writer.run s es).Stores file s.pos ∧
      ∃ s', internal.Reachable (writer.run s es) s' ∧ s'.Settled := by
  have hphase : Phase file s.pos (writer.run s es) :=
    (System.reachable_run (System.isRun_restrict.2 ⟨hrun, hwhole⟩)).invariant (phase_make hmake)
      fun _ _ h he => h.next he.1 he.2
  exact ⟨⟨hphase.stored, hphase.told⟩, exists_settled _⟩

/-- A stream that has a descriptor, for a file with two bytes. -/
def smallWriter : WriteStream where
  handle := .init .write true (some 3)
  pos := some 1
  bytesWritten := 0
  buffered := []
  writing := false
  ending := false
  finished := false
  errored := false
  thrown := false
  inFlight := []
  file := ⟨[8, 9], 0, false⟩
  chunks := []

/-- Two chunks are written. The first write stores `bytes` of its bytes. -/
def twoChunks (bytes : ℕ) : List Event :=
  [.chunk [1, 2], .chunk [3], .stop, .complete (some bytes), .complete (some 1), .finish]

theorem stores_twoChunks :
    writer.IsRun smallWriter (twoChunks 2) ∧
      (writer.run smallWriter (twoChunks 2)).finished = true ∧
      (writer.run smallWriter (twoChunks 2)).file.contents = [8, 1, 2, 3] ∧
      (writer.run smallWriter (twoChunks 2)).Stores ⟨[8, 9], 0, false⟩ (some 1) := by
  have hrun : writer.IsRun smallWriter (twoChunks 2) := by
    refine ⟨trivial, trivial, trivial, ⟨rfl, _, _, _, rfl, ?_⟩, ⟨rfl, _, _, _, rfl, ?_⟩,
      ⟨rfl, rfl, rfl, rfl⟩, trivial⟩
    · rintro bytes ⟨⟩
      decide
    · rintro bytes ⟨⟩
      decide
  have hwhole : writer.Along Whole smallWriter (twoChunks 2) := by
    refine ⟨trivial, trivial, trivial, ?_, ?_, trivial, trivial⟩
    · rintro data position rest ⟨⟩
      decide
    · rintro data position rest ⟨⟩
      decide
  have hmake : make ⟨none, some 3, some 1⟩ ⟨[8, 9], 0, false⟩ = .ok smallWriter := rfl
  exact ⟨hrun, rfl, by decide, (stores_of_whole hmake hrun hwhole).1⟩

/-- Three chunks are written, the last two while the first one is. -/
def threeChunks : List Event :=
  [.chunk [1], .chunk [2], .chunk [3], .stop, .complete (some 1)]

/-- A byte that the first write does not store is lost, and so are two chunks that wait: no error
    is emitted, and nothing is left to happen. -/
theorem not_stores_twoChunks_threeChunks :
    writer.IsRun smallWriter (twoChunks 1) ∧
      ¬(writer.run smallWriter (twoChunks 1)).Stores ⟨[8, 9], 0, false⟩ (some 1) ∧
      writer.IsRun smallWriter threeChunks ∧
      ¬(writer.run smallWriter threeChunks).Stores ⟨[8, 9], 0, false⟩ (some 1) := by
  refine ⟨?_, fun h => ?_, ?_, fun h => ?_⟩
  · refine ⟨trivial, trivial, trivial, ⟨rfl, _, _, _, rfl, ?_⟩, ⟨rfl, _, _, _, rfl, ?_⟩,
      ⟨rfl, rfl, rfl, rfl⟩, trivial⟩
    · rintro bytes ⟨⟩
      decide
    · rintro bytes ⟨⟩
      decide
  · have hbytes := (h.stored rfl rfl).2
    exact absurd hbytes (by decide)
  · refine ⟨trivial, trivial, trivial, trivial, ⟨rfl, _, _, _, rfl, ?_⟩, trivial⟩
    rintro bytes ⟨⟩
    decide
  · have hsettled : (writer.run smallWriter threeChunks).Settled := by
      intro e he
      cases e with
      | chunk data => trivial
      | stop => trivial
      | openCompleted fd => cases he.1
      | emit => exact he rfl
      | complete result =>
        obtain ⟨-, data, position, rest, hinFlight, -⟩ := he
        cases hinFlight
      | finish => cases he.2.1
    rcases h.told rfl hsettled with hfinished | herrored
    · cases hfinished
    · cases herrored

/-! ## The descriptor -/

/-- The stream has done what streams do with a descriptor, and knows how many writes are in
    flight. -/
structure Tracks (h₀ : Handle Transfer) (s : WriteStream) : Prop where
  reachable : (lifecycle Transfer).Reachable h₀ s.handle
  kind : h₀.kind = .write
  count : s.inFlight.length = s.handle.inFlight

section Tracks

variable {h₀ : Handle Transfer}

/-- What `_write` does with the descriptor. -/
theorem exists_handle_write (s : WriteStream) (data : Bytes) :
    ∃ issues, (s.write data).handle = s.handle.transfer (.write data) issues := by
  rw [write]
  split_ifs
  · exact ⟨false, rfl⟩
  · exact ⟨true, rfl⟩

/-- And `_writev`. -/
theorem exists_handle_writev (s : WriteStream) (chunks : List Bytes) :
    ∃ issues, (s.writev chunks).handle = s.handle.transfer (.writev chunks) issues := by
  rw [writev]
  split_ifs with hfd
  · exact ⟨false, rfl⟩
  · obtain ⟨fd, hfd⟩ := Option.ne_none_iff_exists'.1 hfd
    refine ⟨false, ?_⟩
    simp [Handle.transfer, hfd]

theorem Tracks.kind_eq (h : Tracks h₀ s) : s.handle.kind = .write :=
  h.reachable.invariant (P := fun handle => handle.kind = .write) h.kind
    fun handle e hkind _ => (Handle.kind_next handle e).trans hkind

theorem count_write (hkind : s.handle.kind = .write)
    (hcount : s.inFlight.length = s.handle.inFlight) (data : Bytes) :
    (s.write data).inFlight.length = (s.write data).handle.inFlight := by
  rw [write]
  split_ifs with hfd
  · exact hcount.trans (Handle.inFlight_transfer_false _ _).symm
  · have hread : ¬(s.handle.kind = .read ∧ s.handle.destroyed = true) := by simp [hkind]
    simp only [List.length_append, List.length_singleton, hcount]
    exact (Handle.inFlight_transfer_true hfd hread _).symm

theorem count_writev (hcount : s.inFlight.length = s.handle.inFlight) (chunks : List Bytes) :
    (s.writev chunks).inFlight.length = (s.writev chunks).handle.inFlight := by
  rw [writev]
  split_ifs
  · exact hcount.trans (Handle.inFlight_transfer_false _ _).symm
  · exact hcount

theorem Tracks.step (h : Tracks h₀ s) {s' : WriteStream} {e : Handle.Event Transfer}
    (he : s.handle.Enabled e) (hs' : s'.handle = s.handle.next e)
    (hcount : s'.inFlight.length = s'.handle.inFlight) : Tracks h₀ s' :=
  ⟨hs' ▸ h.reachable.step he, h.kind, hcount⟩

theorem Tracks.write (h : Tracks h₀ s) (data : Bytes) : Tracks h₀ (s.write data) := by
  obtain ⟨issues, hissues⟩ := exists_handle_write s data
  exact h.step (e := .transfer (.write data) issues) trivial hissues
    (count_write h.kind_eq h.count data)

theorem Tracks.writev (h : Tracks h₀ s) (chunks : List Bytes) : Tracks h₀ (s.writev chunks) := by
  obtain ⟨issues, hissues⟩ := exists_handle_writev s chunks
  exact h.step (e := .transfer (.writev chunks) issues) trivial hissues
    (count_writev h.count chunks)

theorem Tracks.clearBuffer (h : Tracks h₀ s) : Tracks h₀ s.clearBuffer := by
  rw [WriteStream.clearBuffer]
  split
  · exact h
  · exact Tracks.write (s := { s with buffered := [], writing := true })
      ⟨h.reachable, h.kind, h.count⟩ _
  · have hwritev := Tracks.writev (s := { s with writing := true })
      ⟨h.reachable, h.kind, h.count⟩ s.buffered
    simp only
    split_ifs
    · exact hwritev
    · exact ⟨hwritev.reachable, hwritev.kind, hwritev.count⟩

theorem Tracks.emit (h : Tracks h₀ s) (hemit : s.handle.emitting ≠ []) : Tracks h₀ s.emit := by
  rw [WriteStream.emit]
  split
  · exact h
  · rename_i ls hemitting
    refine h.step (e := .emit false) hemit rfl (h.count.trans ?_)
    rw [Handle.emit, hemitting]
    rfl
  · rename_i data ls hemitting
    obtain ⟨issues, hissues⟩ := exists_handle_write
      { s with handle := { s.handle with emitting := ls } } data
    refine h.step (e := .emit issues) hemit ?_ ?_
    · rw [hissues, Handle.next, Handle.emit, hemitting]
    · exact count_write (s := { s with handle := { s.handle with emitting := ls } }) h.kind_eq
        h.count data
  · rename_i chunks ls hemitting
    obtain ⟨issues, hissues⟩ := exists_handle_writev
      { s with handle := { s.handle with emitting := ls } } chunks
    refine h.step (e := .emit issues) hemit ?_ ?_
    · rw [hissues, Handle.next, Handle.emit, hemitting]
    · exact count_writev (s := { s with handle := { s.handle with emitting := ls } }) h.count chunks

theorem Tracks.next (h : Tracks h₀ s) {e : Event} (he : s.Enabled e) : Tracks h₀ (s.next e) := by
  cases e with
  | chunk data =>
    simp only [WriteStream.next, writeOrBuffer]
    split_ifs
    · exact ⟨h.reachable, h.kind, h.count⟩
    · exact ⟨h.reachable, h.kind, h.count⟩
    · exact Tracks.write (s := { s with chunks := s.chunks ++ [data], writing := true })
        ⟨h.reachable, h.kind, h.count⟩ data
  | stop => exact ⟨h.reachable, h.kind, h.count⟩
  | openCompleted fd =>
    exact h.step (e := .openCompleted fd) he rfl
      (h.count.trans (Handle.inFlight_openCompleted _ _).symm)
  | emit => exact h.emit he
  | finish =>
    exact h.step (e := .finished) trivial rfl
      (h.count.trans (Handle.sameWork_finished _).inFlight.symm)
  | complete result =>
    obtain ⟨hemitting, data, position, rest, hinFlight, -⟩ := he
    have hlength : s.handle.inFlight = rest.length + 1 := by
      rw [← h.count, hinFlight, List.length_cons]
    have hcount : ∀ ok, rest.length = (s.handle.completed ok).inFlight := by
      intro ok
      rw [(Handle.sameWork_completed s.handle ok).inFlight, hlength, Nat.add_sub_cancel]
    have hone : s.handle.inFlight ≠ 0 := by omega
    cases result with
    | none =>
      simp only [WriteStream.next, WriteStream.complete, hinFlight]
      exact h.step (e := .completed false) ⟨hone, hemitting⟩ rfl (hcount false)
    | some bytes =>
      simp only [WriteStream.next, WriteStream.complete, hinFlight]
      refine Tracks.clearBuffer ?_
      exact h.step (e := .completed true) ⟨hone, hemitting⟩ rfl (hcount true)

end Tracks

/-- The stream deals with its descriptor as streams do. -/
theorem reachable_handle_writer {options : WriteOptions} (hmake : make options file = .ok s)
    {s' : WriteStream} (hs' : writer.Reachable s s') :
    (lifecycle Transfer).Reachable (.init .write (options.autoClose.getD true) options.fd)
      s'.handle := by
  rw [make] at hmake
  split at hmake
  · cases hmake
  · obtain rfl := Except.ok.inj hmake
    refine (hs'.invariant (P := Tracks _) ⟨.refl, rfl, ?_⟩ fun _ _ h he => h.next he).reachable
    rfl

end WriteStream

end Stream

end NodeLkl
