import NodeLkl.Fs.Simple

/-!
# Reading files

`readFile` opens a file, unless it is given a file descriptor, asks for its size,
reads it, closes it if it opened it, and answers with what was read. Its callbacks
share a context, in which what was read is a buffer of the size of the file, or, if
the size is not known, the parts of several buffers (`Loaded`).

It answers once, and takes care of file descriptors, unless the size cannot be had:
`binding.fstat` then calls its callback twice, once with the error and once without,
and the file is both closed and read (`readFile_complete`).
-/

namespace NodeLkl

namespace Fs

open EventLoop (issue defer answer exec idle settle Chain)

variable {host : Host} {path : Path} {arg : OptionsArg} {l : Loop} {s : Mem} {is : List Syscall}
  {rs : Log} {fd : ℤ}

@[simp]
theorem bytesRead_concat (log : Log) (x : Syscall × Reply) :
    bytesRead (log ++ [x]) = bytesRead log ++ bytesRead [x] := by
  simp [bytesRead]

/-! ## What the methods of the context do -/

/-- The file is read to a new buffer. -/
theorem exec_read_unknown (h : l.state.context.size = some 0) :
    exec ReadFileContext.read l = (.ok (), { l with
      state :=
        { heap := l.state.heap ++ [.bytes (List.replicate kReadFileBufferLength none)]
          context := { l.state.context with buffer := some l.state.heap.length } }
      queue := l.queue ++ [(.read l.state.context.fd
        ⟨l.state.heap.length, 0, kReadFileBufferLength⟩, .readFileAfterRead)]
      issued := l.issued ++ [.read l.state.context.fd
        ⟨l.state.heap.length, 0, kReadFileBufferLength⟩] }) := by
  simp [ReadFileContext.read, h, Binding.read, Binding.transfer, Binding.transferCall, Mem.buf]

/-- The file is read to the rest of the buffer. -/
theorem exec_read_known {n : ℕ} {a : Addr} {b : Buf} (hsize : l.state.context.size = some n)
    (hn : n ≠ 0) (ha : l.state.context.buffer = some a) (hb : l.state.heap[a]? = some (.bytes b))
    (hlen : b.length = n) (hpos : l.state.context.pos ≤ n) :
    exec ReadFileContext.read l = (.ok (), { l with
      queue := l.queue ++ [(.read l.state.context.fd
        ⟨a, l.state.context.pos, n - l.state.context.pos⟩, .readFileAfterRead)]
      issued := l.issued ++ [.read l.state.context.fd
        ⟨a, l.state.context.pos, n - l.state.context.pos⟩] }) := by
  simp [ReadFileContext.read, hsize, hn, ha, Binding.read, Binding.transfer, Binding.transferCall,
    Mem.buf_of_heap hb, hlen, hpos]

/-- The file of the user is not closed. -/
theorem exec_close_user (err : Option Err) (h : l.state.context.isUserFd = true) :
    exec (ReadFileContext.close err) l = (.ok (), { l with
      state := { l.state with context := { l.state.context with err } }
      ticks := l.ticks ++ [(.readFileAfterClose, ⟨none, []⟩)] }) := by
  simp [ReadFileContext.close, h]

theorem exec_close_own (err : Option Err) (h : l.state.context.isUserFd = false) :
    exec (ReadFileContext.close err) l = (.ok (), { l with
      state := { l.state with context := { l.state.context with err } }
      queue := l.queue ++ [(.close l.state.context.fd, .readFileAfterClose)]
      issued := l.issued ++ [.close l.state.context.fd] }) := by
  simp [ReadFileContext.close, h, Binding.close]

/-- The size of the file is known, or is not, or is too large. -/
theorem exec_afterStat (st : Stats) (vs : List Value) :
    exec (readFileAfterStat host ⟨none, .stats st :: vs⟩) l =
      if knownSize st = 0 then
        exec ReadFileContext.read { l with state := { l.state with
          context := { l.state.context with size := some 0, buffers := [] } } }
      else if knownSize st > host.kMaxLength then
        exec (ReadFileContext.close (some (fileTooLargeError host.kMaxLength)))
          { l with state := { l.state with
            context := { l.state.context with size := some (knownSize st) } } }
      else
        exec ReadFileContext.read { l with state :=
          { heap := l.state.heap ++ [.bytes (List.replicate (knownSize st) none)]
            context := { l.state.context with
              size := some (knownSize st)
              buffer := some l.state.heap.length } } } := by
  simp only [readFileAfterStat, EventLoop.exec_bind, exec_modifyContext]
  split
  · simp [*]
  · split
    · rfl
    · simp

theorem exec_afterRead_error (err : Err) (vs : List Value) :
    exec (readFileAfterRead ⟨some err, vs⟩) l = exec (ReadFileContext.close (some err)) l := rfl

theorem exec_afterRead_zero {n : ℕ} (vs : List Value) (hn : n = 0) :
    exec (readFileAfterRead ⟨none, .number n :: vs⟩) l = exec (ReadFileContext.close none) l := by
  rw [hn]
  rfl

/-- Bytes were read to a new buffer. -/
theorem exec_afterRead_unknown {n : ℕ} (vs : List Value) (hn : n ≠ 0)
    (hsize : l.state.context.size = some 0) {a : Addr} (ha : l.state.context.buffer = some a)
    (hle : n ≤ (l.state.buf a).length) :
    exec (readFileAfterRead ⟨none, .number n :: vs⟩) l = exec ReadFileContext.read { l with
      state := { l.state with
        context := { l.state.context with
          pos := l.state.context.pos + n
          buffers := l.state.context.buffers ++ [⟨a, 0, n⟩] } } } := by
  have hbuf : ∀ context, Mem.buf { l.state with context } a = l.state.buf a := fun _ => rfl
  simp [readFileAfterRead, Args.num, hn, hsize, ha, hbuf, hle]

/-- Bytes were read to the buffer. -/
theorem exec_afterRead_known {n m : ℕ} (vs : List Value) (hn : n ≠ 0)
    (hsize : l.state.context.size = some m) (hm : m ≠ 0) :
    exec (readFileAfterRead ⟨none, .number n :: vs⟩) l =
      exec
        (if l.state.context.pos + n = m then ReadFileContext.close none else ReadFileContext.read)
        { l with state := { l.state with
          context := { l.state.context with pos := l.state.context.pos + n } } } := by
  simp only [readFileAfterRead, Args.num, hn, if_false, EventLoop.exec_bind, exec_modifyContext,
    exec_getContext, hsize]
  by_cases hpos : l.state.context.pos + n = m <;> simp [hm, hpos]

/-- What `readFileAfterClose` answers. -/
def closeAnswer (host : Host) (m : Mem) (a : Args) : Args :=
  match m.context.err with
  | some err => ⟨some err, []⟩
  | none => match a.err with
    | some err => ⟨some err, [.buffer (readFileBuffer m)]⟩
    | none => match m.context.encoding with
      | none => ⟨none, [.buffer (readFileBuffer m)]⟩
      | some encoding => match host.bufferToString (some encoding) (readFileBuffer m) with
        | .ok str => ⟨none, [.string str]⟩
        | .error err => ⟨some err, [.buffer (readFileBuffer m)]⟩

theorem exec_afterClose (a : Args) : exec (readFileAfterClose host a) l =
    exec (callback host (closeAnswer host l.state a)) l := by
  simp only [readFileAfterClose, closeAnswer, EventLoop.exec_bind, exec_getContext]
  cases l.state.context.err with
  | some err => rfl
  | none =>
    simp only [EventLoop.exec_bind, EventLoop.exec_get]
    cases a.err with
    | some err => rfl
    | none => cases l.state.context.encoding with
      | none => rfl
      | some encoding =>
        simp only [tryToString]
        cases host.bufferToString (some encoding) (readFileBuffer l.state) <;> rfl

/-! ## What has been read -/

/-- What was read, `data`, is in the buffers of the context, none of which is at `a`. -/
structure LoadedParts (s : Mem) (data : Bytes) (a : Addr) : Prop where
  size : s.context.size = some 0
  pos : s.context.pos = data.length
  parts : (s.context.buffers.map s.contents).flatten = ofBytes data
  addr : ∀ part ∈ s.context.buffers, part.addr < a

/-- What was read is in the buffer of the context, `a`, which has the size of the file. -/
structure LoadedBuffer (s : Mem) (data : Bytes) (n : ℕ) (a : Addr) (b : Buf) : Prop where
  size : s.context.size = some n
  ne_zero : n ≠ 0
  buffer : s.context.buffer = some a
  heap : s.heap[a]? = some (.bytes b)
  length : b.length = n
  pos : s.context.pos = data.length
  le : data.length ≤ n
  take : b.take data.length = ofBytes data

/-- What was read. -/
def Loaded (s : Mem) (data : Bytes) : Prop :=
  LoadedParts s data s.heap.length ∨ ∃ n a b, LoadedBuffer s data n a b

/-- What was read, while more is being read to a part of a buffer. -/
def Loading (s : Mem) (data : Bytes) (part : Slice) : Prop :=
  (∃ a b, LoadedParts s data a ∧ s.context.buffer = some a ∧ s.heap[a]? = some (.bytes b) ∧
    b.length = kReadFileBufferLength ∧ part = ⟨a, 0, kReadFileBufferLength⟩) ∨
  ∃ n a b, LoadedBuffer s data n a b ∧ part = ⟨a, data.length, n - data.length⟩

/-- It is what the file is found to hold. -/
theorem readFileBuffer_eq {data : Bytes} (h : Loaded s data) :
    readFileBuffer s = ofBytes data := by
  have hlength : (ofBytes data).length = data.length := by simp [ofBytes]
  rcases h with h | ⟨n, a, b, h⟩
  · simp [readFileBuffer, h.size, concat, h.parts, h.pos, List.take_left' hlength]
  · have hn : ¬n = 0 := h.ne_zero
    simp only [readFileBuffer, h.size, Option.some.injEq, hn, if_false, h.buffer, h.pos,
      Option.getD_some, Mem.buf_of_heap h.heap]
    split
    · exact h.take
    · have hfull : data.length = b.length := by
        have := h.le
        have := h.length
        omega
      rw [← h.take, hfull, List.take_length]

/-- The bytes read come after those read before. -/
theorem take_fill {b : Buf} {data : Bytes} (more : Bytes)
    (htake : b.take data.length = ofBytes data) :
    (b.take data.length ++ ofBytes more ++ b.drop (data.length + more.length)).take
        (data ++ more).length = ofBytes (data ++ more) := by
  have happend : ofBytes data ++ ofBytes more = ofBytes (data ++ more) := by simp [ofBytes]
  rw [htake, happend, List.take_left' (by simp [ofBytes])]

theorem length_filled {b : Buf} {i : ℕ} {more : Bytes} (hlen : i + more.length ≤ b.length) :
    (b.take i ++ ofBytes more ++ b.drop (i + more.length)).length = b.length := by
  simp [ofBytes]
  omega

/-- The buffers of the context are as they were. -/
theorem contents_fill_of_lt {part : Slice} {a : Addr} (i n : ℕ) (more : Bytes)
    (h : part.addr < a) : (s.fill ⟨a, i, n⟩ more).contents part = s.contents part := by
  simp only [Mem.contents, Mem.buf, Mem.heap_fill_of_ne i n more (Nat.ne_of_lt h)]

/-- More was read to the buffer. -/
theorem LoadedBuffer.fill {data : Bytes} {n : ℕ} {a : Addr} {b : Buf}
    (h : LoadedBuffer s data n a b) (more : Bytes) (hmore : more.length ≤ n - data.length) :
    LoadedBuffer
      { (s.fill ⟨a, data.length, n - data.length⟩ more) with
        context := { s.context with pos := s.context.pos + more.length } }
      (data ++ more) n a
      (b.take data.length ++ ofBytes more ++ b.drop (data.length + more.length)) := by
  have hle : data.length + more.length ≤ b.length := by
    have := h.le
    have := h.length
    omega
  refine ⟨h.size, h.ne_zero, h.buffer, ?_, ?_, ?_, ?_, take_fill more h.take⟩
  · exact Mem.heap_fill_self _ _ _ h.heap
  · rw [length_filled hle, h.length]
  · simp [h.pos]
  · rw [List.length_append, ← h.length]
    exact hle

/-- More was read to another buffer. -/
theorem LoadedParts.fill {data : Bytes} {a : Addr} {b : Buf} (h : LoadedParts s data a)
    (hb : s.heap[a]? = some (.bytes b)) (n : ℕ) (more : Bytes) :
    LoadedParts
      { (s.fill ⟨a, 0, n⟩ more) with
        context := { s.context with
          pos := s.context.pos + more.length
          buffers := s.context.buffers ++ [⟨a, 0, more.length⟩] } }
      (data ++ more) (a + 1) := by
  refine ⟨h.size, by simp [h.pos], ?_, ?_⟩
  · have hold : s.context.buffers.map (s.fill ⟨a, 0, n⟩ more).contents =
        s.context.buffers.map s.contents :=
      List.map_congr_left fun part hpart => contents_fill_of_lt 0 n more (h.addr part hpart)
    have hnew : (s.fill ⟨a, 0, n⟩ more).contents ⟨a, 0, more.length⟩ = ofBytes more := by
      rw [Mem.contents, Mem.buf_of_heap (Mem.heap_fill_self 0 n more hb), List.take_zero,
        List.nil_append, List.drop_zero, List.take_left' (by simp [ofBytes])]
    calc ((s.context.buffers ++ [(⟨a, 0, more.length⟩ : Slice)]).map
          (s.fill ⟨a, 0, n⟩ more).contents).flatten
        = (s.context.buffers.map s.contents).flatten ++ ofBytes more := by
          rw [List.map_append, hold, List.flatten_append, List.map_singleton, hnew,
            List.flatten_singleton]
      _ = ofBytes (data ++ more) := by rw [h.parts]; simp [ofBytes]
  · intro part hpart
    rcases List.mem_append.1 hpart with hpart | hpart
    · exact Nat.lt_succ_of_lt (h.addr part hpart)
    · obtain rfl := List.mem_singleton.1 hpart
      exact Nat.lt_succ_self a

theorem LoadedParts.mono {data : Bytes} {a a' : Addr} (h : LoadedParts s data a) (ha : a ≤ a') :
    LoadedParts s data a' :=
  ⟨h.size, h.pos, h.parts, fun part hpart => Nat.lt_of_lt_of_le (h.addr part hpart) ha⟩

/-- The buffers of the context are as they were. -/
theorem LoadedParts.append {data : Bytes} (h : LoadedParts s data s.heap.length) (c : Cell)
    {buffer : Option Addr} :
    LoadedParts { heap := s.heap ++ [c], context := { s.context with buffer } } data
      s.heap.length := by
  refine ⟨h.size, h.pos, ?_, h.addr⟩
  rw [← h.parts]
  refine congrArg List.flatten (List.map_congr_left fun part hpart => ?_)
  simp only [Mem.contents, Mem.buf, List.getElem?_append_left (h.addr part hpart)]

/-- The end of the file was reached. -/
theorem Loading.loaded {data : Bytes} {part : Slice} (h : Loading s data part) :
    Loaded (s.fill part []) data := by
  rcases h with ⟨a, b, h, ha, hb, hlen, rfl⟩ | ⟨n, a, b, h, rfl⟩
  · refine .inl ⟨h.size, h.pos, ?_, fun part hpart => ?_⟩
    · rw [← h.parts]
      exact congrArg List.flatten (List.map_congr_left fun part hpart =>
        contents_fill_of_lt _ _ _ (h.addr part hpart))
    · have hlt : a < (s.fill ⟨a, 0, kReadFileBufferLength⟩ []).heap.length :=
        (List.getElem?_eq_some_iff.1 (Mem.heap_fill_self 0 kReadFileBufferLength [] hb)).1
      exact Nat.lt_trans (h.addr part hpart) hlt
  · have hfill := h.fill [] (Nat.zero_le _)
    rw [List.append_nil] at hfill
    exact .inr ⟨n, a, _, hfill⟩

/-- Two contexts are about the same file. -/
structure SameFile (s s' : Mem) : Prop where
  fd : s'.context.fd = s.context.fd
  user : s'.context.isUserFd = s.context.isUserFd
  encoding : s'.context.encoding = s.context.encoding
  size : s'.context.size = s.context.size

/-- More is read, after what was read. -/
theorem exec_read_loaded {data : Bytes} (h : Loaded s data) (is : List Syscall) (rs : Log) :
    ∃ s' part, exec ReadFileContext.read (idle [] s is rs) =
        (.ok (), ⟨s', [(.read s.context.fd part, .readFileAfterRead)], [], false,
          is ++ [.read s.context.fd part], rs, []⟩) ∧
      Loading s' data part ∧ SameFile s s' := by
  rcases h with h | ⟨n, a, b, h⟩
  · refine ⟨_, _, exec_read_unknown h.size, .inl ⟨_, List.replicate kReadFileBufferLength none,
      h.append _, rfl, ?_, by simp, rfl⟩, ⟨rfl, rfl, rfl, rfl⟩⟩
    simp [idle]
  · refine ⟨s, _, exec_read_known h.size h.ne_zero h.buffer h.heap h.length (h.pos ▸ h.le),
      .inr ⟨n, a, b, h, ?_⟩, ⟨rfl, rfl, rfl, rfl⟩⟩
    simp [idle, h.pos]

/-- What is done with bytes that were read: the buffer is full, or more is read. -/
theorem Loading.afterRead {data more : Bytes} {part : Slice} (h : Loading s data part)
    (hmore : more.length ≠ 0) (hle : more.length ≤ part.length) (is : List Syscall) (rs : Log) :
    ∃ s', Loaded s' (data ++ more) ∧ SameFile s s' ∧
      exec (readFileAfterRead ⟨none, [.number more.length]⟩) (idle [] (s.fill part more) is rs) =
        exec (if s.context.size ≠ some 0 ∧ s.context.size = some (data ++ more).length then
            ReadFileContext.close none
          else ReadFileContext.read) (idle [] s' is rs) := by
  rcases h with ⟨a, b, h, ha, hb, hlen, rfl⟩ | ⟨n, a, b, h, rfl⟩
  · have hheap := Mem.heap_fill_self 0 kReadFileBufferLength more hb
    have hlen' : more.length ≤ ((s.fill ⟨a, 0, kReadFileBufferLength⟩ more).buf a).length := by
      rw [Mem.buf_of_heap hheap, length_filled (by simpa [hlen] using hle), hlen]
      exact hle
    refine ⟨_, .inl ((h.fill hb kReadFileBufferLength more).mono
      (List.getElem?_eq_some_iff.1 hheap).1), ⟨rfl, rfl, rfl, rfl⟩, ?_⟩
    rw [if_neg fun hand => hand.1 h.size]
    exact exec_afterRead_unknown [] hmore h.size ha hlen'
  · have hn : n ≠ 0 := h.ne_zero
    refine ⟨_, .inr ⟨n, a, _, h.fill more hle⟩, ⟨rfl, rfl, rfl, rfl⟩, ?_⟩
    rw [exec_afterRead_known [] hmore h.size hn]
    have hfull : (s.context.pos + more.length = n) ↔
        s.context.size ≠ some 0 ∧ s.context.size = some (data ++ more).length := by
      rw [h.size, h.pos, List.length_append, Option.some_inj, ne_eq, Option.some_inj, eq_comm]
      exact (and_iff_right hn).symm
    simp only [idle, Mem.fill, hfull]

/-! ## The chain of `readFile` -/

/-- The file is being used. -/
structure Using (path : Path) (arg : OptionsArg) (fd : ℤ) (s : Mem) (issued : List Syscall)
    (log : Log) : Prop where
  null : path.nullError = none
  context : s.context.fd = fd
  user : s.context.isUserFd = (isFd path).isSome
  encoding : s.context.encoding = arg.encoding none
  opened : opened log = if (isFd path).isSome then [] else [fd]
  noClose : NoClose issued

/-- The file is being closed, if it was opened. -/
structure Leaving (host : Host) (path : Path) (arg : OptionsArg) (s : Mem)
    (issued : List Syscall) (log : Log) : Prop where
  null : path.nullError = none
  encoding : s.context.encoding = arg.encoding none
  failure : failure host (.readFile path arg) log = s.context.err
  fstat : ¬FstatFailed log
  loaded : s.context.err = none → Loaded s (bytesRead log)
  kept : Kept (.readFile path arg) issued log

/-- The system calls of `readFile` and their callbacks. -/
inductive ReadPending (host : Host) (path : Path) (arg : OptionsArg) :
    Syscall → Cb → Mem → List Syscall → Log → Prop
  | opening {p flags mode s} : path.nullError = none → isFd path = none →
      s.context = newContext false (arg.encoding none) →
      ReadPending host path arg (.openat p flags mode) .readFileAfterOpen s
        [.openat p flags mode] []
  | stating {fd buf s is rs} : Using path arg fd s is rs →
      failure host (.readFile path arg) rs = none → bytesRead rs = [] → s.context.pos = 0 →
      s.heap[buf]? = some (.stat .zero) →
      ReadPending host path arg (.fstat fd buf) (.fstat .readFileAfterStat buf) s is rs
  | reading {fd part s is rs} : Using path arg fd s is rs →
      failure host (.readFile path arg) rs = none → Loading s (bytesRead rs) part →
      ReadPending host path arg (.read fd part) .readFileAfterRead s is rs
  | closing {fd : ℤ} {s : Mem} {is : List Syscall} {rs : Log} : Leaving host path arg s is rs →
      ReadPending host path arg (.close fd) .readFileAfterClose s is rs

/-- The callbacks that `readFile` defers. -/
inductive ReadDeferred (host : Host) (path : Path) (arg : OptionsArg) :
    Cb → Args → Mem → List Syscall → Log → Prop
  | null {s : Mem} : path.nullError = some nullBytesError →
      ReadDeferred host path arg .user ⟨some nullBytesError, []⟩ s [] []
  | opening {fd : ℕ} {s : Mem} : isFd path = some fd →
      s.context = newContext true (arg.encoding none) →
      ReadDeferred host path arg .readFileAfterOpen ⟨none, [.number fd]⟩ s [] []
  | closing {s : Mem} {is : List Syscall} {rs : Log} : Leaving host path arg s is rs →
      ReadDeferred host path arg .readFileAfterClose ⟨none, []⟩ s is rs

/-- No file could not be asked for its status, if nothing failed. -/
theorem not_fstatFailed {c : Call} {log : Log} (h : failure host c log = none) :
    ¬FstatFailed log := by
  rintro ⟨fd, buf, n, hmem⟩
  have := List.findSome?_eq_none_iff.1 h _ hmem
  simp at this

theorem fstatFailed_concat {log : Log} {call : Syscall} {r : Reply}
    (hcall : ∀ fd buf n, (call, r) ≠ (.fstat fd buf, .error n)) :
    FstatFailed (log ++ [(call, r)]) ↔ FstatFailed log := by
  constructor
  · rintro ⟨fd, buf, n, hmem⟩
    rcases List.mem_append.1 hmem with hmem | hmem
    · exact ⟨fd, buf, n, hmem⟩
    · exact absurd (List.mem_singleton.1 hmem).symm (hcall fd buf n)
  · rintro ⟨fd, buf, n, hmem⟩
    exact ⟨fd, buf, n, List.mem_append_left _ hmem⟩

/-- The file is closed, if it was opened. -/
theorem Using.kept_close (h : Using path arg fd s is rs) :
    Kept (.readFile path arg) (if (isFd path).isSome then is else is ++ [.close fd]) rs := by
  have hopened := h.opened
  cases huser : (isFd path).isSome with
  | true =>
    rw [huser, if_pos rfl] at hopened
    exact h.noClose.kept hopened
  | false =>
    rw [huser, if_neg Bool.false_ne_true] at hopened
    have hpath : isFd path = none := by simpa using huser
    exact kept_of_close h.noClose hopened hpath

/-- The file is still being used after a system call that does not open one. -/
theorem Using.reply (h : Using path arg fd s is rs) {s' : Mem} {x : Syscall × Reply}
    (hfd : s'.context.fd = s.context.fd) (huser : s'.context.isUserFd = s.context.isUserFd)
    (hencoding : s'.context.encoding = s.context.encoding) (hx : Fs.opened [x] = []) :
    Using path arg fd s' is (rs ++ [x]) := by
  refine ⟨h.null, hfd.trans h.context, huser.trans h.user, hencoding.trans h.encoding, ?_,
    h.noClose⟩
  rw [opened_concat, hx, List.append_nil, h.opened]

/-! ## After an error of `fstat` -/

/-- A file was used after it was closed. -/
def UsedAfterClose (fd : ℤ) (issued : List Syscall) : Prop :=
  ∃ before call after, issued = before ++ .close fd :: call :: after ∧ call.fd = some fd

theorem UsedAfterClose.not_released {issued : List Syscall} (h : UsedAfterClose fd issued) :
    ¬Released fd issued := by
  rintro ⟨before, after, rfl, hbefore, hafter⟩
  obtain ⟨before', call, after', heq, hcall⟩ := h
  refine hafter call ?_ hcall
  -- the file is first closed after `before`
  rcases List.append_eq_append_iff.1 heq with ⟨t, rfl, ht⟩ | ⟨t, rfl, ht⟩
  · cases t with
    | nil =>
      obtain ⟨-, rfl⟩ := List.cons.inj ht
      exact List.mem_cons_self
    | cons x t =>
      obtain ⟨-, rfl⟩ := List.cons.inj ht
      simp
  · cases t with
    | nil =>
      obtain ⟨-, rfl⟩ := List.cons.inj ht
      exact List.mem_cons_self
    | cons x t =>
      obtain ⟨rfl, -⟩ := List.cons.inj ht
      exact absurd (by simp) hbefore

/-- The status of the file could not be had; a file that was opened was used after it was
    closed. -/
structure Spoilt (path : Path) (issued : List Syscall) (log : Log) : Prop where
  fstat : FstatFailed log
  user : isFd path ≠ none → NoClose issued ∧ opened log = []
  own : isFd path = none → ∃ fd, opened log = [fd] ∧ UsedAfterClose fd issued

theorem Spoilt.kept_iff (h : Spoilt path is rs) :
    Kept (.readFile path arg) is rs ↔ isFd path ≠ none := by
  constructor
  · intro hkept hpath
    obtain ⟨fd, hopened, hused⟩ := h.own hpath
    exact hused.not_released (hkept.released fd (by simp [hopened]))
  · intro hpath
    exact (h.user hpath).1.kept (h.user hpath).2

/-- It stays so. -/
theorem Spoilt.issue (h : Spoilt path is rs) {call : Syscall}
    (hcall : isFd path ≠ none → ∀ fd, call ≠ .close fd) : Spoilt path (is ++ [call]) rs := by
  refine ⟨h.fstat, fun hpath => ⟨(h.user hpath).1.concat (hcall hpath), (h.user hpath).2⟩,
    fun hpath => ?_⟩
  obtain ⟨fd, hopened, before, call', after, rfl, hcall'⟩ := h.own hpath
  exact ⟨fd, hopened, before, call', after ++ [call], by simp, hcall'⟩

theorem Spoilt.reply (h : Spoilt path is rs) {x : Syscall × Reply} (hx : opened [x] = []) :
    Spoilt path is (rs ++ [x]) := by
  have hopened : opened (rs ++ [x]) = opened rs := by rw [opened_concat, hx, List.append_nil]
  obtain ⟨fd, buf, n, hmem⟩ := h.fstat
  refine ⟨⟨fd, buf, n, List.mem_append_left _ hmem⟩, ?_, ?_⟩
  · rw [hopened]
    exact h.user
  · rw [hopened]
    exact h.own

/-- The file, taken for one of unknown size, is read to a new buffer. -/
def SecondRead (s : Mem) (part : Slice) : Prop :=
  s.context.size = some 0 ∧ ∃ a b, s.context.buffer = some a ∧ s.heap[a]? = some (.bytes b) ∧
    part = ⟨a, 0, b.length⟩

/-- The system calls left after an error of `fstat`, once the first answer was given: the
    file is read, and closed again. -/
def secondChain (path : Path) : Chain Mem Syscall Reply Cb Args where
  Pending call k s is rs := s.context.isUserFd = (isFd path).isSome ∧ Spoilt path is rs ∧
    ((∃ fd part, call = .read fd part ∧ k = .readFileAfterRead ∧ SecondRead s part) ∨
      ∃ fd, call = .close fd ∧ k = .readFileAfterClose)
  Deferred k a _ is rs := k = .readFileAfterClose ∧ a = ⟨none, []⟩ ∧ Spoilt path is rs
  Answered _ _ is rs := Spoilt path is rs
  Broken _ := False

section Second

variable {prior : List Args}

/-- The file is read again. -/
theorem does_read_second (huser : s.context.isUserFd = (isFd path).isSome)
    (hsize : s.context.size = some 0) (h : Spoilt path is rs) :
    (secondChain path).Does prior (exec ReadFileContext.read (idle prior s is rs)) := by
  rw [exec_read_unknown hsize]
  refine Chain.Does.issue ⟨huser, h.issue fun _ => by simp, .inl ⟨_, _, rfl, rfl, hsize, _,
    List.replicate kReadFileBufferLength none, rfl, ?_, ?_⟩⟩
  · simp [idle]
  · simp [idle]

/-- The file is closed again. -/
theorem does_close_second (huser : s.context.isUserFd = (isFd path).isSome)
    (h : Spoilt path is rs) (err : Option Err) :
    (secondChain path).Does prior (exec (ReadFileContext.close err) (idle prior s is rs)) := by
  cases hfd : (isFd path).isSome with
  | true =>
    rw [exec_close_user err (huser.trans hfd)]
    exact Chain.Does.defer ⟨rfl, rfl, h⟩
  | false =>
    rw [exec_close_own err (huser.trans hfd)]
    refine Chain.Does.issue ⟨huser, h.issue fun hne => ?_, .inr ⟨_, rfl, rfl⟩⟩
    exact absurd (by simpa using hfd) hne

theorem steps_second : (secondChain path).Steps prior (program host) where
  complete := by
    rintro call k s is rs r ⟨huser, hspoilt, ⟨fd, part, rfl, rfl, hsize, a, b, ha, hb, rfl⟩ |
      ⟨fd, rfl, rfl⟩⟩ hfits
    · left
      have hspoilt' : Spoilt path is (rs ++ [(.read fd ⟨a, 0, b.length⟩, r)]) := hspoilt.reply rfl
      simp only [program, apply]
      cases r with
      | error n =>
        exact does_close_second huser hspoilt' _
      | ok n data st =>
        obtain ⟨rfl, hle⟩ : data.length = n ∧ n ≤ b.length := hfits
        by_cases hdata : data.length = 0
        · rw [Reply.args, exec_afterRead_zero [] hdata]
          exact does_close_second (s := s.fill _ data) huser hspoilt' _
        · have hheap := Mem.heap_fill_self 0 b.length data hb
          have hlen : data.length ≤ ((s.fill ⟨a, 0, b.length⟩ data).buf a).length := by
            rw [Mem.buf_of_heap hheap, length_filled (by simpa using hle)]
            exact hle
          rw [Reply.args, exec_afterRead_unknown [] hdata hsize ha hlen]
          exact does_read_second huser hsize hspoilt'
    · left
      simp only [program, apply]
      rw [exec_afterClose]
      exact Chain.does_answer (hspoilt.reply rfl)
  tick := by
    rintro k a s is rs ⟨rfl, rfl, hspoilt⟩
    simp only [program, apply]
    rw [exec_afterClose]
    exact Chain.does_answer hspoilt
  broken hb _ := hb.elim

end Second

/-! ## The steps of `readFile` -/

/-- What happens after an error of `fstat`. First, the file is both closed and read. If the
    callback throws when it is given the error, this is the end, unless the user gave
    the file descriptor. -/
inductive ReadBroken (host : Host) (path : Path) (arg : OptionsArg) : Loop → Prop
  | both {fd fd' : ℤ} {part e s is rs} : isFd path = none → Spoilt path is rs →
      s.context.isUserFd = false → s.context.err = some e → SecondRead s part →
      path.nullError = none → failure host (.readFile path arg) rs = some e →
      ReadBroken host path arg ⟨s, [(.close fd, .readFileAfterClose),
        (.read fd' part, .readFileAfterRead)], [], false, is, rs, []⟩
  | userFd {fd : ℤ} {part s is rs} : isFd path ≠ none → Spoilt path is rs →
      s.context.isUserFd = true → SecondRead s part →
      ReadBroken host path arg ⟨s, [(.read fd part, .readFileAfterRead)],
        [(.readFileAfterClose, ⟨none, []⟩)], false, is, rs, []⟩
  | wedged {a queue s is rs} : isFd path = none → Spoilt path is rs → host.throws 0 ≠ none →
      Right host (.readFile path arg) rs a →
      ReadBroken host path arg ⟨s, queue, [], true, is, rs, [a]⟩
  | second {a l} : (isFd path = none → host.throws 0 = none) → (secondChain path).Holds [a] l →
      ReadBroken host path arg l

theorem receive_close (m : Mem) (r : Reply) : m.receive (.close fd) r = m := by
  cases r <;> rfl

theorem closeAnswer_of_err {e : Err} (h : s.context.err = some e) (a : Args) :
    closeAnswer host s a = ⟨some e, []⟩ := by
  simp [closeAnswer, h]

theorem ReadBroken.next (h : ReadBroken host path arg l) {e : Event}
    (he : (system host).Enabled l e) : ReadBroken host path arg ((system host).next l e) := by
  cases h with
  | @both fd fd' part err s is rs hpath hspoilt huser herr hread hnull hfail =>
    cases e with
    | tick => exact absurd rfl he
    | complete r =>
      have hspoilt' : Spoilt path is (rs ++ [(.close fd, r)]) := hspoilt.reply rfl
      have hnext : (system host).next ⟨s, [(.close fd, .readFileAfterClose),
          (.read fd' part, .readFileAfterRead)], [], false, is, rs, []⟩ (.complete r) =
          settle (exec (callback host ⟨some err, []⟩) ⟨s,
            [(.read fd' part, .readFileAfterRead)], [], false, is, rs ++ [(.close fd, r)],
            []⟩) := by
        simp only [EventLoop.system, program, receive_close, apply]
        rw [exec_afterClose, closeAnswer_of_err herr]
      rw [hnext, callback, EventLoop.exec_answer]
      -- the callback is given the error
      cases hthrows : host.throws 0 with
      | none =>
        refine .second (fun _ => hthrows) (.pending ⟨?_, hspoilt', .inl ⟨_, _, rfl, rfl, hread⟩⟩)
        rw [huser, hpath]
        rfl
      | some thrown =>
        refine .wedged hpath hspoilt' (by simp [hthrows]) (right_of_failure hnull ?_)
        simp [hfail]
  | @userFd fd part s is rs hpath hspoilt huser hread => cases e with
    | tick =>
      have hnext : (system host).next ⟨s, [(.read fd part, .readFileAfterRead)],
          [(.readFileAfterClose, ⟨none, []⟩)], false, is, rs, []⟩ .tick =
          (exec (callback host (closeAnswer host s ⟨none, []⟩)) ⟨s,
            [(.read fd part, .readFileAfterRead)], [], false, is, rs, []⟩).2 := by
        simp only [EventLoop.system, program, apply]
        rw [exec_afterClose]
      rw [hnext, callback, EventLoop.exec_answer]
      refine .second (fun h => absurd h hpath)
        (.pending ⟨?_, hspoilt, .inl ⟨_, _, rfl, rfl, hread⟩⟩)
      rw [huser]
      exact (Option.isSome_iff_ne_none.2 hpath).symm
    | complete r => exact absurd he.1 (by simp)
  | wedged hpath hspoilt hthrows hright => cases e with
    | tick => exact absurd rfl he
    | complete r => exact absurd he.2.1 (by simp)
  | second hthrows hholds => exact .second hthrows (hholds.next steps_second he)

/-- The chain of `readFile`. It breaks if the status of the file cannot be had. -/
def readChain (host : Host) (path : Path) (arg : OptionsArg) : Chain Mem Syscall Reply Cb Args where
  Pending := ReadPending host path arg
  Deferred := ReadDeferred host path arg
  Answered a _ is rs := Right host (.readFile path arg) rs a ∧ Kept (.readFile path arg) is rs ∧
    ¬FstatFailed rs
  Broken := ReadBroken host path arg

/-- What is answered is right. -/
theorem right_closeAnswer {a : Args} (hnull : path.nullError = none)
    (hfail : failure host (.readFile path arg) rs = s.context.err.or a.err)
    (hloaded : s.context.err = none → Loaded s (bytesRead rs))
    (hencoding : s.context.encoding = arg.encoding none) :
    Right host (.readFile path arg) rs (closeAnswer host s a) := by
  cases herr : s.context.err with
  | some e =>
    rw [herr] at hfail
    rw [closeAnswer_of_err herr]
    exact right_of_failure hnull hfail
  | none =>
    rw [herr] at hfail
    have hbuffer := readFileBuffer_eq (hloaded herr)
    simp only [closeAnswer, herr, hbuffer, hencoding]
    cases hclose : a.err with
    | some e =>
      rw [hclose] at hfail
      exact right_of_failure hnull hfail
    | none =>
      rw [hclose] at hfail
      cases henc : arg.encoding none with
      | none => exact right_of_result hnull hfail (by simp [Call.result, henc])
      | some encoding =>
        simp only
        cases hstr : host.bufferToString (some encoding) (ofBytes (bytesRead rs)) with
        | ok str =>
          exact right_of_result hnull hfail (by simp [Call.result, henc, hstr, Except.map])
        | error e =>
          exact right_of_result_error hnull hfail (by simp [Call.result, henc, hstr, Except.map])

theorem Loaded.withErr {data : Bytes} (h : Loaded s data) (err : Option Err) :
    Loaded { s with context := { s.context with err } } data := by
  rcases h with h | ⟨n, a, b, h⟩
  · exact .inl ⟨h.size, h.pos, h.parts, h.addr⟩
  · exact .inr ⟨n, a, b, h.size, h.ne_zero, h.buffer, h.heap, h.length, h.pos, h.le, h.take⟩

/-- The file is closed, if it was opened. -/
theorem Using.does_close (h : Using path arg fd s is rs) {err : Option Err}
    (hfail : failure host (.readFile path arg) rs = err) (hfstat : ¬FstatFailed rs)
    (hloaded : err = none → Loaded s (bytesRead rs)) :
    (readChain host path arg).Does [] (exec (ReadFileContext.close err) (idle [] s is rs)) := by
  have hkept := h.kept_close
  have hleaving : ∀ issued, Kept (.readFile path arg) issued rs →
      Leaving host path arg { s with context := { s.context with err } } issued rs :=
    fun issued hkept => ⟨h.null, h.encoding, hfail, hfstat, fun herr => (hloaded herr).withErr err,
      hkept⟩
  cases hfd : (isFd path).isSome with
  | true =>
    rw [exec_close_user err (h.user.trans hfd)]
    rw [hfd, if_pos rfl] at hkept
    exact Chain.Does.defer (.closing (hleaving is hkept))
  | false =>
    rw [exec_close_own err (h.user.trans hfd)]
    rw [hfd, if_neg Bool.false_ne_true] at hkept
    refine Chain.Does.issue (.closing (hleaving _ ?_))
    rw [show (idle [] s is rs : Loop).state.context.fd = fd from h.context]
    exact hkept

/-- The file is read. -/
theorem Using.does_read (h : Using path arg fd s is rs)
    (hfail : failure host (.readFile path arg) rs = none) (hloaded : Loaded s (bytesRead rs)) :
    (readChain host path arg).Does [] (exec ReadFileContext.read (idle [] s is rs)) := by
  obtain ⟨s', part, hexec, hloading, hsame⟩ := exec_read_loaded hloaded is rs
  rw [hexec, h.context]
  exact .issue (.reading ⟨h.null, hsame.fd.trans h.context, hsame.user.trans h.user,
    hsame.encoding.trans h.encoding, h.opened, h.noClose.concat (by simp)⟩ hfail hloading)

/-- Its status is asked for. -/
theorem does_fstat (hnull : path.nullError = none) {fd : ℕ}
    (hcontext : s.context = newContext (isFd path).isSome (arg.encoding none))
    (hfail : failure host (.readFile path arg) rs = none) (hread : bytesRead rs = [])
    (hopened : opened rs = if (isFd path).isSome then [] else [(fd : ℤ)]) (hnc : NoClose is) :
    (readChain host path arg).Does []
      (exec (readFileAfterOpen host ⟨none, [.number fd]⟩) (idle [] s is rs)) := by
  refine Chain.Does.issue
    (.stating ⟨hnull, rfl, ?_, ?_, hopened, hnc.concat (by simp)⟩ hfail hread ?_ ?_)
  · exact congrArg ReadFileContext.isUserFd hcontext
  · exact congrArg ReadFileContext.encoding hcontext
  · exact congrArg ReadFileContext.pos hcontext
  · simp [idle]

/-- The file was opened, or not. -/
theorem step_opening_readFile {p : Path} {flags : ℕ} {mode : ℤ} (r : Reply)
    (hnull : path.nullError = none) (hpath : isFd path = none)
    (hcontext : s.context = newContext false (arg.encoding none)) :
    (readChain host path arg).Does []
      (exec (apply host .readFileAfterOpen r.args)
        (idle [] s [.openat p flags mode] [(.openat p flags mode, r)])) := by
  have hnc : NoClose [.openat p flags mode] := noClose_nil.concat (by simp)
  rw [apply]
  cases r with
  | error n =>
    refine Chain.does_answer ⟨right_of_failure hnull rfl, hnc.kept rfl, ?_⟩
    rintro ⟨fd, buf, n, hmem⟩
    simp at hmem
  | ok fd d st =>
    refine does_fstat hnull ?_ rfl rfl ?_ hnc
    · rw [hcontext, hpath]
      rfl
    · rw [hpath]
      rfl

/-- The size of the file was had. -/
theorem step_stating {buf : Addr} {ret : ℕ} {data : Bytes} {st : LklStat}
    (h : Using path arg fd s is rs) (hfail : failure host (.readFile path arg) rs = none)
    (hread : bytesRead rs = []) (hpos : s.context.pos = 0)
    (hbuf : s.heap[buf]? = some (.stat .zero)) :
    (readChain host path arg).Does []
      (exec (apply host (.fstat .readFileAfterStat buf) (Reply.ok ret data st).args)
        (idle [] (s.receive (.fstat fd buf) (.ok ret data st)) is
          (rs ++ [(.fstat fd buf, .ok ret data st)]))) := by
  have hread' : bytesRead (rs ++ [(.fstat fd buf, .ok ret data st)]) = [] := by
    rw [bytesRead_concat, hread]
    rfl
  have hfail' : failure host (.readFile path arg) (rs ++ [(.fstat fd buf, .ok ret data st)]) =
      if knownSize (parseLklStat st) > host.kMaxLength then
        some (fileTooLargeError host.kMaxLength)
      else none := by
    rw [failure_concat, hfail]
    rfl
  have hstat : (s.receive (.fstat fd buf) (.ok ret data st)).stat buf = st := by
    have hlt : buf < s.heap.length := (List.getElem?_eq_some_iff.1 hbuf).1
    simp [Mem.receive, Mem.stat, hlt]
  rw [exec_fstat_ok]
  simp only [idle]
  rw [hstat, apply, exec_afterStat]
  by_cases hzero : knownSize (parseLklStat st) = 0
  · rw [if_pos hzero]
    refine (h.reply (by rfl) (by rfl) (by rfl) rfl).does_read ?_ (.inl ?_)
    · rw [hfail', hzero]
      rfl
    · rw [hread']
      exact ⟨rfl, hpos, rfl, by simp⟩
  · rw [if_neg hzero]
    by_cases hlarge : knownSize (parseLklStat st) > host.kMaxLength
    · rw [if_pos hlarge]
      rw [if_pos hlarge] at hfail'
      refine (h.reply (by rfl) (by rfl) (by rfl) rfl).does_close hfail' ?_ (by simp)
      rw [fstatFailed_concat (by simp)]
      exact not_fstatFailed hfail
    · rw [if_neg hlarge]
      rw [if_neg hlarge] at hfail'
      refine (h.reply (by rfl) (by rfl) (by rfl) rfl).does_read hfail' (.inr ?_)
      rw [hread']
      exact ⟨_, _, List.replicate (knownSize (parseLklStat st)) none, rfl, hzero, rfl, by simp,
        by simp, hpos, Nat.zero_le _, rfl⟩

/-- The size of the file could not be had: it is closed, and read. -/
theorem step_stating_error {buf : Addr} {n : ℕ} (h : Using path arg fd s is rs)
    (hfail : failure host (.readFile path arg) rs = none)
    (hbuf : s.heap[buf]? = some (.stat .zero)) :
    ReadBroken host path arg
      (settle (exec (apply host (.fstat .readFileAfterStat buf) (Reply.error n).args)
        (idle [] s is (rs ++ [(.fstat fd buf, .error n)])))) := by
  have hopened : opened (rs ++ [(.fstat fd buf, .error n)]) =
      if (isFd path).isSome then [] else [fd] := by
    rw [opened_concat, h.opened]
    exact List.append_nil _
  have hfail' : failure host (.readFile path arg) (rs ++ [(.fstat fd buf, .error n)]) =
      some (.errno n) := by
    rw [failure_concat, hfail]
    rfl
  have hfstat : FstatFailed (rs ++ [(.fstat fd buf, .error n)]) :=
    ⟨fd, buf, n, by simp⟩
  have hstat : ∀ context, Mem.stat ⟨s.heap, context⟩ buf = .zero := fun context => by
    simp [Mem.stat, hbuf]
  have hzero : knownSize (parseLklStat .zero) = 0 := by decide
  have hclose : apply host .readFileAfterStat ⟨some (.errno n), []⟩ =
      ReadFileContext.close (some (.errno n)) := by
    rw [apply]
    rfl
  rw [exec_fstat_error, hclose]
  cases hfd : (isFd path).isSome with
  | true =>
    have hpath : isFd path ≠ none := Option.isSome_iff_ne_none.1 hfd
    rw [hfd, if_pos rfl] at hopened
    rw [exec_close_user _ (h.user.trans hfd)]
    simp only [idle]
    rw [hstat, apply, exec_afterStat, if_pos hzero, exec_read_unknown rfl]
    refine .userFd hpath ⟨hfstat, fun _ => ⟨h.noClose.concat (by simp), hopened⟩,
      fun hnone => absurd hnone hpath⟩ (h.user.trans hfd) ⟨rfl, _,
        List.replicate kReadFileBufferLength none, rfl, ?_, ?_⟩
    · simp
    · simp
  | false =>
    have hpath : isFd path = none := by simpa using hfd
    rw [hfd, if_neg Bool.false_ne_true] at hopened
    rw [exec_close_own _ (h.user.trans hfd)]
    simp only [idle]
    rw [hstat, apply, exec_afterStat, if_pos hzero, exec_read_unknown rfl]
    refine .both hpath ⟨hfstat, fun hne => absurd hpath hne, fun _ => ⟨fd, hopened, ?_⟩⟩
      (h.user.trans hfd) rfl ⟨rfl, _, List.replicate kReadFileBufferLength none, rfl, ?_, ?_⟩ h.null
      hfail'
    · rw [h.context]
      exact ⟨is, .read fd _, [], List.append_assoc _ _ _, rfl⟩
    · simp
    · simp

/-- Some of the file was read, or none, or none could be. -/
theorem step_reading {part : Slice} {r : Reply} (h : Using path arg fd s is rs)
    (hfail : failure host (.readFile path arg) rs = none) (hloading : Loading s (bytesRead rs) part)
    (hr : Fits (.read fd part) r) :
    (readChain host path arg).Does []
      (exec (apply host .readFileAfterRead r.args)
        (idle [] (s.receive (.read fd part) r) is (rs ++ [(.read fd part, r)]))) := by
  have hfstat : ¬FstatFailed (rs ++ [(.read fd part, r)]) := by
    rw [fstatFailed_concat (by simp)]
    exact not_fstatFailed hfail
  rw [apply]
  cases r with
  | error n =>
    rw [receive_error, Reply.args, exec_afterRead_error]
    refine (h.reply rfl rfl rfl rfl).does_close ?_ hfstat (by simp)
    rw [failure_concat, hfail]
    rfl
  | ok n data st =>
    obtain ⟨rfl, hle⟩ : data.length = n ∧ n ≤ part.length := hr
    have hfail' : failure host (.readFile path arg)
        (rs ++ [(.read fd part, .ok data.length data st)]) = none := by
      rw [failure_concat, hfail]
      rfl
    have hread : bytesRead (rs ++ [(.read fd part, .ok data.length data st)]) =
        bytesRead rs ++ data := by
      rw [bytesRead_concat]
      simp [bytesRead, Reply.data]
    rw [Reply.args]
    by_cases hdata : data.length = 0
    · obtain rfl : data = [] := List.length_eq_zero_iff.1 hdata
      rw [exec_afterRead_zero [] hdata]
      refine (h.reply (by rfl) (by rfl) (by rfl) rfl).does_close hfail' hfstat fun _ => ?_
      rw [hread, List.append_nil]
      exact hloading.loaded
    · obtain ⟨s', hloaded, hsame, hexec⟩ := hloading.afterRead hdata hle is
        (rs ++ [(.read fd part, .ok data.length data st)])
      have husing : Using path arg fd s' is (rs ++ [(.read fd part, .ok data.length data st)]) :=
        h.reply hsame.fd hsame.user hsame.encoding rfl
      rw [← hread] at hloaded
      refine (congrArg ((readChain host path arg).Does []) hexec).mpr ?_
      split
      · exact husing.does_close hfail' hfstat fun _ => hloaded
      · exact husing.does_read hfail' hloaded

/-- The file was closed. -/
theorem step_closing_readFile {r : Reply} (h : Leaving host path arg s is rs) :
    (readChain host path arg).Does []
      (exec (apply host .readFileAfterClose r.args)
        (idle [] (s.receive (.close fd) r) is (rs ++ [(.close fd, r)]))) := by
  have hread : bytesRead (rs ++ [(.close fd, r)]) = bytesRead rs := by
    rw [bytesRead_concat]
    exact List.append_nil _
  have hopened : opened (rs ++ [(.close fd, r)]) = opened rs := by
    rw [opened_concat]
    exact List.append_nil _
  rw [receive_close, apply, exec_afterClose]
  refine Chain.does_answer ⟨right_closeAnswer h.null ?_ ?_ h.encoding, ⟨?_, h.kept.user⟩, ?_⟩
  · rw [failure_concat, h.failure]
    cases r <;> rfl
  · rw [hread]
    exact h.loaded
  · rw [hopened]
    exact h.kept.released
  · rw [fstatFailed_concat (by simp)]
    exact h.fstat

theorem steps_readFile : (readChain host path arg).Steps [] (program host) where
  complete := by
    intro call k s is rs r hpending hfits
    cases hpending with
    | opening hnull hpath hcontext => exact .inl (step_opening_readFile r hnull hpath hcontext)
    | stating h hfail hread hpos hbuf => cases r with
      | error n => exact .inr (step_stating_error h hfail hbuf)
      | ok ret data st => exact .inl (step_stating h hfail hread hpos hbuf)
    | reading h hfail hloading => exact .inl (step_reading h hfail hloading hfits)
    | closing h => exact .inl (step_closing_readFile h)
  tick := by
    intro k a s is rs hdeferred
    cases hdeferred with
    | null hnull =>
      exact Chain.does_answer
        ⟨right_of_pathError hnull, noClose_nil.kept rfl, by simp [FstatFailed]⟩
    | @opening fd s hpath hcontext =>
      have hsome : (isFd path).isSome := by simp [hpath]
      refine does_fstat (nullError_of_isFd hpath) ?_ rfl rfl ?_ noClose_nil
      · rw [hcontext, hsome]
      · rw [if_pos hsome]
        rfl
    | closing h =>
      simp only [program, apply]
      rw [exec_afterClose]
      refine Chain.does_answer ⟨right_closeAnswer h.null ?_ h.loaded h.encoding, h.kept, h.fstat⟩
      rw [h.failure]
      exact Option.or_none.symm
  broken hb he := hb.next he

/-- What a call of `readFile` that is accepted does before it returns: it leaves the error
    of its path, or the opening of the file descriptor, to be dealt with later, or issues a
    system call. -/
inductive ReadStarts (host : Host) (path : Path) (arg : OptionsArg) : Loop → Prop
  | null : path.hasNull = true → ReadStarts host path arg ⟨⟨[], newContext false none⟩, [],
      [(.user, ⟨some nullBytesError, []⟩)], false, [], [], []⟩
  | userFd {fd : ℕ} : isFd path = some fd → ReadStarts host path arg
      ⟨⟨[], newContext true (arg.encoding none)⟩, [],
        [(.readFileAfterOpen, ⟨none, [.number fd]⟩)], false, [], [], []⟩
  | opening {o : Options} {flags : ℕ} : path.hasNull = false → isFd path = none →
      getOptions host arg ⟨none, .other, some (.string ['r'])⟩ = .ok o →
      stringToFlags (o.flag.getD (.string ['r'])) = .ok flags →
      ReadStarts host path arg ⟨⟨[], newContext false (arg.encoding none)⟩,
        [(.openat (Binding.addNullTerminationIfNeeded path) flags 0o666, .readFileAfterOpen)], [],
        false, [.openat (Binding.addNullTerminationIfNeeded path) flags 0o666], [], []⟩

theorem readStarts (hc : (Call.readFile path arg).Accepted host) :
    ReadStarts host path arg ((Call.readFile path arg).start host).2 := by
  obtain ⟨o, ho, hstart⟩ := hc.exists_ok rfl rfl
  rw [encoding_of_getOptions ho, nullCheck] at hstart
  cases hnull : path.hasNull with
  | true =>
    rw [hnull, if_pos rfl] at hstart
    rw [hstart]
    exact .null hnull
  | false =>
    rw [hnull, if_neg Bool.false_ne_true] at hstart
    simp only [EventLoop.exec_bind, exec_modifyContext] at hstart
    cases hpath : isFd path with
    | some fd =>
      simp only [hpath] at hstart
      rw [hstart]
      exact .userFd hpath
    | none =>
      simp only [hpath] at hstart
      obtain ⟨flags, hflags, hstart⟩ := hc.exists_ok hstart rfl
      rw [hstart]
      exact .opening hnull hpath ho hflags

theorem holds_start_readFile (hc : (Call.readFile path arg).Accepted host) :
    (readChain host path arg).Holds [] ((Call.readFile path arg).start host).2 := by
  generalize hl : ((Call.readFile path arg).start host).2 = l
  cases hl ▸ readStarts hc with
  | null hnull => exact .deferred (.null (by simp [Path.nullError, hnull]))
  | userFd hpath => exact .deferred (.opening hpath rfl)
  | opening hnull hpath _ _ => exact .pending (.opening (by simp [Path.nullError, hnull]) hpath rfl)

/-- After an error of `fstat`, a run that is over answered once if the callback threw when
    it was given the error. -/
theorem ReadBroken.complete (h : ReadBroken host path arg l) (hover : (system host).Halted l) :
    (AnsweredOnce host (.readFile path arg) l ↔
      (Call.readFile path arg).Answers host l.replies) ∧
    (Kept (.readFile path arg) l.issued l.replies ↔
      (Call.readFile path arg).Keeps host l.replies) := by
  -- the file descriptors only depend on what was issued
  have hkeeps : Spoilt path l.issued l.replies → (Kept (.readFile path arg) l.issued l.replies ↔
      (Call.readFile path arg).Keeps host l.replies) := fun hspoilt =>
    hspoilt.kept_iff.trans ⟨fun hne hnone => absurd hnone hne,
      fun hkeeps hnone => hkeeps hnone hspoilt.fstat⟩
  cases h with
  | @both fd fd' part e s is rs =>
    exact absurd ⟨rfl, rfl, _, _, _, rfl, trivial⟩ (hover (.complete (.error 0)))
  | userFd => exact absurd (List.cons_ne_nil _ _) (hover .tick)
  | @wedged a queue s is rs hpath hspoilt hthrows hright =>
    refine ⟨iff_of_true ⟨a, rfl, hright⟩ fun _ => ⟨hpath, ?_⟩, hkeeps hspoilt⟩
    exact Option.isSome_iff_ne_none.2 hthrows
  | @second a _ hthrows hholds =>
    rcases hholds.exists_answer exists_fits hover with ⟨a', hanswers, hspoilt⟩ | hbroken
    · refine ⟨iff_of_false ?_ fun hall => ?_, hkeeps hspoilt⟩
      · rintro ⟨a, ha, -⟩
        simp [ha] at hanswers
      · obtain ⟨hpath, hsome⟩ := hall hspoilt.fstat
        simp [hthrows hpath] at hsome
    · exact hbroken.elim

/-- A call of `readFile` answers once, and takes care of file descriptors, unless the size
    of the file cannot be had. -/
theorem readFile_complete (hl : (Call.readFile path arg).Completes host l) :
    (AnsweredOnce host (.readFile path arg) l ↔
      (Call.readFile path arg).Answers host l.replies) ∧
    (Kept (.readFile path arg) l.issued l.replies ↔
      (Call.readFile path arg).Keeps host l.replies) := by
  have hholds := (holds_start_readFile hl.accepted).reachable steps_readFile hl.reachable
  rcases hholds.exists_answer exists_fits hl.halted with ⟨a, ha, hright, hkept, hfstat⟩ | hbroken
  · exact ⟨iff_of_true ⟨a, ha, hright⟩ fun h => absurd h hfstat, iff_of_true hkept fun _ => hfstat⟩
  · exact hbroken.complete hl.halted

end Fs

end NodeLkl
