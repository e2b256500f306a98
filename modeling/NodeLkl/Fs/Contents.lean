import NodeLkl.Fs.Answers
import NodeLkl.Fs.Files

/-!
# What is read from files

`readFile` reads a file by as many system calls as it takes, each of which may give only some
of the bytes it is asked for, and the size it was told may be wrong. It answers with what is
there to read: the bytes from the position of the descriptor on, up to the size if there is
one (`readFile_retrieves`).
-/

namespace NodeLkl

namespace Fs

open EventLoop (exec idle Chain StepsWithin)

/-! ## What is there to read -/

/-- The size of the file, as its status tells. -/
def reportedSize (log : Log) : Option ℕ :=
  log.findSome? fun
    | (.fstat _ _, .ok _ _ st) => some (knownSize (parseLklStat st))
    | _ => none

def Syscall.isRead : Syscall → Bool
  | read _ _ => true
  | _ => false

def Syscall.isClose : Syscall → Bool
  | close _ => true
  | _ => false

/-- The error of a read. -/
abbrev readError : Log → Option ℕ := errorOf Syscall.isRead

/-- The error of closing the file. -/
abbrev closeError : Log → Option ℕ := errorOf Syscall.isClose

/-- What is there to read from `p` on, up to the size, `0` if it is not known. -/
def wanted (c : Bytes) (p size : ℕ) : Bytes := if size = 0 then c.drop p else (c.drop p).take size

/-- What is answered with the bytes read. -/
def readResult (host : Host) (encoding : Option Encoding) (b : Bytes) : Option ℕ → Args
  | some n => ⟨some (.errno n), [.buffer (ofBytes b)]⟩
  | none => match encoding with
    | none => ⟨none, [.buffer (ofBytes b)]⟩
    | some e => match host.bufferToString (some e) (ofBytes b) with
      | .ok str => ⟨none, [.string str]⟩
      | .error err => ⟨some err, [.buffer (ofBytes b)]⟩

@[simp]
theorem reportedSize_concat (log : Log) (x : Syscall × Reply) :
    reportedSize (log ++ [x]) = (reportedSize log).or (reportedSize [x]) := by
  simp [reportedSize, List.findSome?_append]

/-! ## The chain of reads -/

section Chain

variable (host : Host) (path : Path) (arg : OptionsArg) (c : Bytes) (p : ℕ)

/-- The context is that of the call. -/
structure Ours (fd : ℤ) (s : Mem) : Prop where
  fd : s.context.fd = fd
  user : s.context.isUserFd = (isFd path).isSome
  encoding : s.context.encoding = arg.encoding none

/-- What was read is the start of what is there to read. -/
structure Progress (k : Kernel) (rs : Log) : Prop where
  contents : k.file.contents = c
  offset : k.file.offset = p + (bytesRead rs).length
  bytes : bytesRead rs = (c.drop p).take (bytesRead rs).length
  readError : readError rs = none
  closeError : closeError rs = none

/-- Why reading stops. -/
inductive Stopped (s : Mem) (rs : Log) : Prop
  | failed {n : ℕ} : s.context.err = some (.errno n) → readError rs = some n → Stopped s rs
  | tooLarge {err : Err} {size : ℕ} : s.context.err = some err → reportedSize rs = some size →
      host.kMaxLength < size → readError rs = none → Stopped s rs
  | done {size : ℕ} : s.context.err = none → reportedSize rs = some size → readError rs = none →
      Loaded s (wanted c p size) → Stopped s rs

/-- The file is being closed, if it was opened. -/
structure Ending (k : Kernel) (s : Mem) (rs : Log) : Prop where
  contents : k.file.contents = c
  encoding : s.context.encoding = arg.encoding none
  closeError : closeError rs = none
  stopped : Stopped host c p s rs

/-- The system calls that read, and their callbacks, with `n` things left to do. -/
inductive RetrievePending (n : ℕ) (k : Kernel) : Syscall → Cb → Mem → List Syscall → Log → Prop
  | opening {q flags mode s is} : isFd path = none →
      s.context = newContext false (arg.encoding none) → k.kept flags = c → p = 0 →
      c.length + 4 ≤ n →
      RetrievePending n k (.openat q flags mode) .readFileAfterOpen s is []
  | stating {fd buf s is rs} : Ours path arg fd s → k.fd = some fd → Progress c p k rs →
      bytesRead rs = [] → reportedSize rs = none → s.context.pos = 0 →
      s.heap[buf]? = some (.stat .zero) → c.length - p + 3 ≤ n →
      RetrievePending n k (.fstat fd buf) (.fstat .readFileAfterStat buf) s is rs
  | reading {fd part size s is rs} : Ours path arg fd s → k.fd = some fd → Progress c p k rs →
      s.context.size = some size → reportedSize rs = some size →
      (size ≠ 0 → (bytesRead rs).length < size) → Loading s (bytesRead rs) part →
      c.length - k.file.offset + 2 ≤ n →
      RetrievePending n k (.read fd part) .readFileAfterRead s is rs
  | closing {fd s is rs} : Ending host arg c p k s rs → 1 ≤ n →
      RetrievePending n k (.close fd) .readFileAfterClose s is rs

/-- The callbacks deferred. -/
inductive RetrieveDeferred (n : ℕ) (k : Kernel) : Cb → Args → Mem → List Syscall → Log → Prop
  | null {s is} : path.nullError ≠ none → 1 ≤ n →
      RetrieveDeferred n k .user ⟨some nullBytesError, []⟩ s is []
  | opening {fd : ℕ} {s is} : isFd path = some fd → k.fd = some (fd : ℤ) →
      s.context = newContext true (arg.encoding none) → k.file.contents = c → k.file.offset = p →
      c.length - p + 4 ≤ n →
      RetrieveDeferred n k .readFileAfterOpen ⟨none, [.number fd]⟩ s is []
  | closing {s is rs} : Ending host arg c p k s rs → 1 ≤ n →
      RetrieveDeferred n k .readFileAfterClose ⟨none, []⟩ s is rs

/-- What is answered, once reading is over. -/
structure ReadOutcome (k : Kernel) (rs : Log) (a : Args) : Prop where
  contents : reportedSize rs ≠ none → k.file.contents = c
  result : ∀ size, reportedSize rs = some size → size ≤ host.kMaxLength → readError rs = none →
    a = readResult host (arg.encoding none) (wanted c p size) (closeError rs)
  error : ∀ n, readError rs = some n → a = ⟨some (.errno n), []⟩

def retrieveChain (n : ℕ) (k : Kernel) : Chain Mem Syscall Reply Cb Args where
  Pending := RetrievePending host path arg c p n k
  Deferred := RetrieveDeferred host path arg c p n k
  Answered a _ _ rs := ReadOutcome host arg c p k rs a
  Broken _ := False

end Chain

section Steps

variable {host : Host} {path : Path} {arg : OptionsArg} {c : Bytes} {p n : ℕ} {k : Kernel} {fd : ℤ}
  {s : Mem} {is : List Syscall} {rs : Log}

/-! ## Bytes read -/

/-- More bytes of the file were read. -/
theorem Progress.read (h : Progress c p k rs) (hk : k.fd = some fd) (part : Slice) {ret : ℕ}
    {data : Bytes} (st : LklStat) (hlength : data.length = ret)
    (hdata : data = k.file.get k.file.offset ret) :
    Progress c p (k.effect s (.read fd part) (.ok ret data st))
        (rs ++ [(.read fd part, .ok ret data st)]) ∧
      bytesRead (rs ++ [(.read fd part, .ok ret data st)]) = bytesRead rs ++ data ∧
      k.file.offset + ret ≤ max c.length k.file.offset := by
  have hread : bytesRead (rs ++ [(.read fd part, .ok ret data st)]) = bytesRead rs ++ data := by
    rw [bytesRead_concat]
    simp [bytesRead, Reply.data]
  have heffect : k.effect s (.read fd part) (.ok ret data st) =
      { k with file := { k.file with offset := k.file.offset + ret } } := by
    simp [Kernel.effect, hk]
  refine ⟨⟨?_, ?_, ?_, ?_, ?_⟩, hread, ?_⟩
  · rw [heffect]
    exact h.contents
  · rw [heffect, hread, List.length_append, hlength, ← Nat.add_assoc, ← h.offset]
  · rw [hread, List.length_append, List.take_add, ← h.bytes, List.drop_drop, ← h.offset, hlength,
      ← h.contents]
    exact congrArg _ hdata
  · simp [h.readError, Reply.errno]
  · simp [h.closeError, Syscall.isClose]
  · have hle : data.length ≤ k.file.contents.length - k.file.offset := by
      rw [hdata, OpenFile.get, List.length_take, List.length_drop]
      exact Nat.min_le_right _ _
    rw [h.contents] at hle
    omega

/-- At the end of the file, all there is to read was read. -/
theorem Progress.wanted_of_end (h : Progress c p k rs) {size : ℕ} (hend : c.length ≤ k.file.offset)
    (hsize : size ≠ 0 → (bytesRead rs).length ≤ size) : bytesRead rs = wanted c p size := by
  have hall : bytesRead rs = c.drop p := by
    refine h.bytes.trans (List.take_of_length_le ?_)
    rw [List.length_drop]
    have := h.offset
    omega
  rw [wanted]
  split
  · exact hall
  · rename_i hne
    rw [← hall, List.take_of_length_le (hsize hne)]

/-- It was if as many bytes as the size were read. -/
theorem Progress.wanted_of_full (h : Progress c p k rs) (hne : (bytesRead rs).length ≠ 0) :
    bytesRead rs = wanted c p (bytesRead rs).length := by
  rw [wanted, if_neg hne]
  exact h.bytes

/-! ## Reads -/

theorem Loading.inBounds {data : Bytes} {part : Slice} (h : Loading s data part) :
    part.start + part.length ≤ (s.buf part.addr).length := by
  rcases h with ⟨a, b, -, -, hb, hlen, rfl⟩ | ⟨n, a, b, h, rfl⟩
  · simp only [Mem.buf_of_heap hb, hlen, Nat.zero_add, Nat.le_refl]
  · have hle := h.le
    simp only [Mem.buf_of_heap h.heap, h.length]
    omega

theorem Loading.length_pos {data : Bytes} {part : Slice} {size : ℕ} (h : Loading s data part)
    (hsize : s.context.size = some size) (hlt : size ≠ 0 → data.length < size) :
    part.length ≠ 0 := by
  rcases h with ⟨a, b, -, -, -, -, rfl⟩ | ⟨n, a, b, h, rfl⟩
  · simp [kReadFileBufferLength]
  · obtain rfl : size = n := Option.some.inj (hsize.symm.trans h.size)
    have := hlt h.ne_zero
    simp only
    omega

/-- No more is read than the size. -/
theorem Loaded.length_le {data : Bytes} {size : ℕ} (h : Loaded s data)
    (hsize : s.context.size = some size) (hne : size ≠ 0) : data.length ≤ size := by
  rcases h with h | ⟨n, a, b, h⟩
  · exact absurd (Option.some.inj (hsize.symm.trans h.size)) hne
  · obtain rfl : size = n := Option.some.inj (hsize.symm.trans h.size)
    exact h.le

/-- Unless the size is reached, there is more to read. -/
theorem Loaded.length_lt {data : Bytes} {size : ℕ} (h : Loaded s data)
    (hsize : s.context.size = some size) (hne : size ≠ 0)
    (hmore : ¬(some size ≠ some 0 ∧ some size = some data.length)) : data.length < size := by
  refine Nat.lt_of_le_of_ne (h.length_le hsize hne) fun heq => hmore ⟨?_, ?_⟩
  · rwa [ne_eq, Option.some_inj]
  · rw [heq]

theorem Ours.same {s' : Mem} (h : Ours path arg fd s) (hsame : SameFile s s') :
    Ours path arg fd s' :=
  ⟨hsame.fd.trans h.fd, hsame.user.trans h.user, hsame.encoding.trans h.encoding⟩

/-- More is read. -/
theorem does_read_retrieve (size : ℕ) (h : Ours path arg fd s) (hk : k.fd = some fd)
    (hprogress : Progress c p k rs) (hsize : s.context.size = some size)
    (hreported : reportedSize rs = some size) (hlt : size ≠ 0 → (bytesRead rs).length < size)
    (hloaded : Loaded s (bytesRead rs)) (hn : c.length - k.file.offset + 2 ≤ n) :
    (retrieveChain host path arg c p n k).Does []
      (exec ReadFileContext.read (idle [] s is rs)) := by
  obtain ⟨s', part, hexec, hloading, hsame⟩ := exec_read_loaded hloaded is rs
  rw [hexec, h.fd]
  exact .issue (.reading (h.same hsame) hk hprogress (hsame.size.trans hsize) hreported hlt hloading
    hn)

/-- Reading stops. -/
theorem does_close_retrieve {err : Option Err} (h : Ours path arg fd s)
    (hcontents : k.file.contents = c) (hclose : closeError rs = none)
    (hstopped : Stopped host c p { s with context := { s.context with err } } rs) (hn : 1 ≤ n) :
    (retrieveChain host path arg c p n k).Does []
      (exec (ReadFileContext.close err) (idle [] s is rs)) := by
  have hending : Ending host arg c p k { s with context := { s.context with err } } rs :=
    ⟨hcontents, h.encoding, hclose, hstopped⟩
  cases huser : (isFd path).isSome with
  | true =>
    rw [exec_close_user err (h.user.trans huser)]
    exact .defer (.closing hending hn)
  | false =>
    rw [exec_close_own err (h.user.trans huser)]
    exact .issue (.closing hending hn)

/-- The status of the file is asked for. -/
theorem does_fstat_retrieve {fd : ℕ}
    (hcontext : s.context = newContext (isFd path).isSome (arg.encoding none))
    (hk : k.fd = some (fd : ℤ)) (hprogress : Progress c p k rs) (hread : bytesRead rs = [])
    (hreported : reportedSize rs = none) (hn : c.length - p + 3 ≤ n) :
    (retrieveChain host path arg c p n k).Does []
      (exec (readFileAfterOpen host ⟨none, [.number fd]⟩) (idle [] s is rs)) := by
  refine Chain.Does.issue (.stating ⟨rfl, ?_, ?_⟩ hk hprogress hread hreported ?_ ?_ hn)
  · exact congrArg ReadFileContext.isUserFd hcontext
  · exact congrArg ReadFileContext.encoding hcontext
  · exact congrArg ReadFileContext.pos hcontext
  · simp [idle]

/-- The file was opened, or not. -/
theorem step_opening_retrieve {q : Path} {flags : ℕ} {mode : ℤ} (r : Reply)
    (hpath : isFd path = none) (hcontext : s.context = newContext false (arg.encoding none))
    (hkept : k.kept flags = c) (hp : p = 0) (hn : c.length + 4 ≤ n) :
    ∃ m < n, (retrieveChain host path arg c p m (k.effect s (.openat q flags mode) r)).Does []
      (exec (apply host .readFileAfterOpen r.args)
        (idle [] s is [(.openat q flags mode, r)])) := by
  refine ⟨c.length - p + 3, by omega, ?_⟩
  rw [apply]
  cases r with
  | error e =>
    refine Chain.does_answer ⟨fun h => absurd rfl h, ?_, ?_⟩
    · intro size hsize
      cases hsize
    · intro e' he'
      cases he'
  | ok fd data st =>
    have hprogress : Progress c p (k.opened flags fd) [(.openat q flags mode, .ok fd data st)] :=
      ⟨hkept, hp.symm, rfl, rfl, rfl⟩
    refine does_fstat_retrieve ?_ rfl hprogress rfl rfl (Nat.le_refl _)
    rw [hcontext, hpath]
    rfl

/-- The size of the file was had. -/
theorem step_stating_retrieve {buf : Addr} {ret : ℕ} {data : Bytes} {st : LklStat}
    (h : Ours path arg fd s) (hk : k.fd = some fd) (hprogress : Progress c p k rs)
    (hread : bytesRead rs = []) (hreported : reportedSize rs = none) (hpos : s.context.pos = 0)
    (hbuf : s.heap[buf]? = some (.stat .zero)) (hn : c.length - p + 3 ≤ n) :
    ∃ m < n, (retrieveChain host path arg c p m k).Does []
      (exec (apply host (.fstat .readFileAfterStat buf) (Reply.ok ret data st).args)
        (idle [] (s.receive (.fstat fd buf) (.ok ret data st)) is
          (rs ++ [(.fstat fd buf, .ok ret data st)]))) := by
  have hread' : bytesRead (rs ++ [(.fstat fd buf, .ok ret data st)]) = [] := by
    rw [bytesRead_concat, hread]
    rfl
  have hreported' : reportedSize (rs ++ [(.fstat fd buf, .ok ret data st)]) =
      some (knownSize (parseLklStat st)) := by
    rw [reportedSize_concat, hreported]
    rfl
  have hoffset : k.file.offset = p := by
    have := hprogress.offset
    rwa [hread] at this
  have hprogress' : Progress c p k (rs ++ [(.fstat fd buf, .ok ret data st)]) := by
    refine ⟨hprogress.contents, ?_, ?_, ?_, ?_⟩
    · rw [hread']
      exact hoffset
    · rw [hread']
      rfl
    · simp [hprogress.readError, Syscall.isRead]
    · simp [hprogress.closeError, Syscall.isClose]
  have hstat : (s.receive (.fstat fd buf) (.ok ret data st)).stat buf = st := by
    have hlt : buf < s.heap.length := (List.getElem?_eq_some_iff.1 hbuf).1
    simp [Mem.receive, Mem.stat, hlt]
  refine ⟨c.length - p + 2, by omega, ?_⟩
  rw [exec_fstat_ok]
  simp only [idle]
  rw [hstat, apply, exec_afterStat]
  by_cases hzero : knownSize (parseLklStat st) = 0
  · -- the file is read to several buffers
    rw [if_pos hzero]
    rw [hzero] at hreported'
    refine does_read_retrieve 0 (by exact ⟨h.fd, h.user, h.encoding⟩) hk hprogress' rfl
      hreported' (fun hne => absurd rfl hne) ?_ (by omega)
    rw [hread']
    exact .inl ⟨rfl, hpos, rfl, by simp⟩
  · rw [if_neg hzero]
    by_cases hlarge : knownSize (parseLklStat st) > host.kMaxLength
    · rw [if_pos hlarge]
      exact does_close_retrieve (by exact ⟨h.fd, h.user, h.encoding⟩) hprogress'.contents
        hprogress'.closeError (.tooLarge rfl hreported' hlarge hprogress'.readError) (by omega)
    · -- it is read to one buffer
      rw [if_neg hlarge]
      refine does_read_retrieve (knownSize (parseLklStat st))
        (by exact ⟨h.fd, h.user, h.encoding⟩) hk hprogress' rfl hreported' ?_ (.inr ?_) (by omega)
      · rw [hread']
        exact Nat.pos_of_ne_zero
      · rw [hread']
        exact ⟨_, _, List.replicate (knownSize (parseLklStat st)) none, rfl, hzero, rfl, by simp,
          by simp, hpos, Nat.zero_le _, rfl⟩

/-- Some of the file was read, or none, or none could be. -/
theorem step_reading_retrieve {part : Slice} {size : ℕ} (r : Reply) (h : Ours path arg fd s)
    (hk : k.fd = some fd) (hprogress : Progress c p k rs) (hsize : s.context.size = some size)
    (hreported : reportedSize rs = some size) (hlt : size ≠ 0 → (bytesRead rs).length < size)
    (hloading : Loading s (bytesRead rs) part) (hn : c.length - k.file.offset + 2 ≤ n)
    (hfits : Fits (.read fd part) r) (hallows : k.Allows (.read fd part) r) :
    ∃ m < n, (retrieveChain host path arg c p m (k.effect s (.read fd part) r)).Does []
      (exec (apply host .readFileAfterRead r.args)
        (idle [] (s.receive (.read fd part) r) is (rs ++ [(.read fd part, r)]))) := by
  rw [apply]
  cases r with
  | error e =>
    refine ⟨1, by omega, ?_⟩
    rw [receive_error, Reply.args, exec_afterRead_error]
    refine does_close_retrieve h hprogress.contents ?_ (.failed rfl ?_) (Nat.le_refl _)
    · simp [hprogress.closeError, Syscall.isClose]
    · simp [hprogress.readError, Syscall.isRead, Reply.errno]
  | ok ret data st =>
    obtain ⟨hlength, hle⟩ : data.length = ret ∧ ret ≤ part.length := hfits
    obtain ⟨hdata, hend⟩ := hallows hk
    obtain ⟨hprogress', hread, hmax⟩ := hprogress.read (s := s) hk part st hlength hdata
    have hk' : (k.effect s (.read fd part) (.ok ret data st)).fd = some fd := by
      simp [Kernel.effect, hk]
    have hoffset : (k.effect s (.read fd part) (.ok ret data st)).file.offset =
        k.file.offset + ret := by
      simp [Kernel.effect, hk]
    have hreported' : reportedSize (rs ++ [(.read fd part, .ok ret data st)]) = some size := by
      rw [reportedSize_concat, hreported]
      rfl
    rw [Reply.args]
    by_cases hzero : ret = 0
    · -- the end of the file was reached
      obtain rfl : data = [] := List.length_eq_zero_iff.1 (hlength.trans hzero)
      rw [List.append_nil] at hread
      have hend' : c.length ≤ k.file.offset := by
        rcases hend hzero with hnone | hend
        · exact absurd hnone (hloading.length_pos hsize hlt)
        · rwa [hprogress.contents] at hend
      have hwanted : bytesRead rs = wanted c p size :=
        hprogress.wanted_of_end hend' fun hne => Nat.le_of_lt (hlt hne)
      refine ⟨1, by omega, ?_⟩
      rw [exec_afterRead_zero [] hzero]
      refine does_close_retrieve (s := s.fill part []) (by exact ⟨h.fd, h.user, h.encoding⟩)
        hprogress'.contents hprogress'.closeError (.done rfl hreported' hprogress'.readError ?_)
        (Nat.le_refl _)
      rw [← hwanted]
      exact hloading.loaded.withErr none
    · subst hlength
      obtain ⟨s', hloaded, hsame, hexec⟩ := hloading.afterRead hzero hle is
        (rs ++ [(.read fd part, .ok data.length data st)])
      rw [← hread] at hloaded
      refine ⟨c.length - k.file.offset + 1, by omega, ?_⟩
      refine (congrArg (Chain.Does _ []) hexec).mpr ?_
      rw [← hread]
      split
      · rename_i hfull
        obtain ⟨hne, heq⟩ := hfull
        rw [hsize, Option.some_inj] at heq
        rw [hsize, ne_eq, Option.some_inj] at hne
        refine does_close_retrieve (h.same hsame) hprogress'.contents hprogress'.closeError
          (.done rfl hreported' hprogress'.readError ?_) (by omega)
        rw [heq, ← hprogress'.wanted_of_full (heq ▸ hne)]
        exact hloaded.withErr none
      · rename_i hmore
        rw [hsize] at hmore
        have hsize' := hsame.size.trans hsize
        exact does_read_retrieve size (h.same hsame) hk' hprogress' hsize' hreported'
          (fun hne => hloaded.length_lt hsize' hne hmore) hloaded (by omega)

/-- What is answered, once the file is closed. -/
theorem closeAnswer_of_loaded {b : Bytes} (herr : s.context.err = none) (h : Loaded s b)
    (hencoding : s.context.encoding = arg.encoding none) (closed : Option ℕ) (vs : List Value) :
    closeAnswer host s ⟨closed.map .errno, vs⟩ =
      readResult host (arg.encoding none) b closed := by
  have hbuffer := readFileBuffer_eq h
  simp only [closeAnswer, herr, hbuffer, hencoding]
  cases closed with
  | some n => rfl
  | none => rfl

/-- The answer is what was read, or the error. -/
theorem Ending.outcome {k' : Kernel} {rs' : Log} (closed : Option ℕ)
    (h : Ending host arg c p k s rs)
    (hcontents : k'.file.contents = k.file.contents) (hread : readError rs' = readError rs)
    (hreported : reportedSize rs' = reportedSize rs) (hclosed : Fs.closeError rs' = closed)
    (vs : List Value) :
    ReadOutcome host arg c p k' rs' (closeAnswer host s ⟨closed.map .errno, vs⟩) := by
  refine ⟨fun _ => hcontents.trans h.contents, ?_, ?_⟩
  · intro size hsize hle hnone
    rw [hreported] at hsize
    rw [hread] at hnone
    cases h.stopped with
    | failed herr hfailed => simp [hfailed] at hnone
    | tooLarge herr hsize' hlarge _ =>
      obtain rfl := Option.some.inj (hsize.symm.trans hsize')
      omega
    | done herr hsize' _ hloaded =>
      obtain rfl := Option.some.inj (hsize.symm.trans hsize')
      rw [hclosed]
      exact closeAnswer_of_loaded herr hloaded h.encoding closed vs
  · intro n hn
    rw [hread] at hn
    cases h.stopped with
    | failed herr hfailed =>
      rw [closeAnswer_of_err herr, Option.some.inj (hfailed.symm.trans hn)]
    | tooLarge _ _ _ hnone => simp [hnone] at hn
    | done _ _ hnone _ => simp [hnone] at hn

/-- The file was closed. -/
theorem step_closing_retrieve (r : Reply) (h : Ending host arg c p k s rs) :
    (retrieveChain host path arg c p 0 (k.effect s (.close fd) r)).Does []
      (exec (apply host .readFileAfterClose r.args) (idle [] s is (rs ++ [(.close fd, r)]))) := by
  have hargs : ∃ vs, r.args = ⟨r.errno.map .errno, vs⟩ := by
    cases r with
    | error n => exact ⟨[], rfl⟩
    | ok ret data st => exact ⟨[.number ret], rfl⟩
  obtain ⟨vs, hargs⟩ := hargs
  rw [apply, exec_afterClose, hargs]
  refine Chain.does_answer (h.outcome _ ?_ ?_ ?_ ?_ vs)
  · rw [Kernel.effect]
    split <;> rfl
  · simp [Syscall.isRead]
  · rw [reportedSize_concat]
    exact Option.or_none
  · simp [h.closeError, Syscall.isClose]

theorem stepsWithin_retrieve :
    StepsWithin (retrieveChain host path arg c p) [] (program host) kernel where
  complete := by
    intro n k call cb s is rs r hpending hfits hallows
    cases hpending with
    | opening hpath hcontext hkept hp hn =>
      rw [show (program host).receive s (.openat _ _ _) r = s by cases r <;> rfl]
      exact step_opening_retrieve r hpath hcontext hkept hp hn
    | stating h hk hprogress hread hreported hpos hbuf hn => cases r with
      | error e => exact hallows.elim
      | ok ret data st =>
        exact step_stating_retrieve h hk hprogress hread hreported hpos hbuf hn
    | reading h hk hprogress hsize hreported hlt hloading hn =>
      exact step_reading_retrieve r h hk hprogress hsize hreported hlt hloading hn hfits hallows
    | closing h hn =>
      rw [show (program host).receive s (.close _) r = s by cases r <;> rfl]
      exact ⟨0, hn, step_closing_retrieve r h⟩
  tick := by
    intro n k cb a s is rs hdeferred
    cases hdeferred with
    | null hnull hn =>
      refine ⟨0, hn, ?_⟩
      simp only [program, apply]
      refine Chain.does_answer ⟨fun h => absurd rfl h, ?_, ?_⟩
      · intro size hsize
        cases hsize
      · intro e he
        cases he
    | @opening fd s is hpath hk hcontext hcontents hoffset hn =>
      refine ⟨c.length - p + 3, by omega, ?_⟩
      have hsome : (isFd path).isSome := by simp [hpath]
      simp only [program, apply]
      refine does_fstat_retrieve ?_ hk ⟨hcontents, hoffset, rfl, rfl, rfl⟩ rfl rfl (Nat.le_refl _)
      rw [hcontext, hsome]
    | closing h hn =>
      refine ⟨0, hn, ?_⟩
      simp only [program, apply]
      rw [exec_afterClose]
      exact Chain.does_answer (h.outcome none rfl rfl rfl h.closeError [])
  broken h := h

end Steps

/-! ## Files -/

/-- What `readFile` reads: the contents of the file once it is open, and where it starts. -/
def Kernel.source (k : Kernel) (path : Path) (flag : Flag) : Bytes × ℕ :=
  if (isFd path).isSome then (k.file.contents, k.file.offset)
  else (k.kept ((stringToFlags flag).toOption.getD 0), 0)

section Retrieved

variable {host : Host} {path : Path} {arg : OptionsArg} {k₀ : Kernel}

/-- What a call does before it returns. -/
theorem holds_start_retrieve (hc : (Call.readFile path arg).Accepted host)
    (hfd : k₀.fd = (isFd path).map Nat.cast) {c : Bytes} {p : ℕ}
    (hsource : k₀.source path (arg.flag (.string ['r'])) = (c, p)) :
    (retrieveChain host path arg c p (c.length - p + 4) k₀).Holds []
      ((Call.readFile path arg).start host).2 := by
  generalize hl : ((Call.readFile path arg).start host).2 = l
  cases hl ▸ readStarts hc with
  | null hnull => exact .deferred (.null (by simp [Path.nullError, hnull]) (by omega))
  | userFd hpath =>
    rw [Kernel.source, hpath, Option.isSome_some, if_pos rfl, Prod.mk.injEq] at hsource
    exact .deferred (.opening hpath (by rw [hfd, hpath]; rfl) rfl hsource.1 hsource.2
      (Nat.le_refl _))
  | opening _ hpath ho hflags =>
    rw [flag_of_getOptions rfl ho] at hflags
    rw [Kernel.source, hpath, Option.isSome_none, if_neg Bool.false_ne_true, hflags,
      Prod.mk.injEq] at hsource
    obtain ⟨hkept, hp⟩ := hsource
    exact .pending (.opening hpath rfl hkept hp.symm (by omega))

/-- What is answered by a call of `readFile` that is over, of the contents `c` of the file from
    `p` on. -/
structure Retrieved (host : Host) (arg : OptionsArg) (c : Bytes) (p : ℕ) (l : Loop) (k : Kernel) :
    Prop where
  contents : reportedSize l.replies ≠ none → k.file.contents = c
  /-- The bytes there are to read, up to the size reported. -/
  result : ∀ size, reportedSize l.replies = some size → size ≤ host.kMaxLength →
    readError l.replies = none →
    l.answers = [readResult host (arg.encoding none) (wanted c p size) (closeError l.replies)]
  /-- The error of a read, and no data. -/
  error : ∀ n, readError l.replies = some n → l.answers = [⟨some (.errno n), []⟩]

/-- A call of `readFile` is over after a number of system calls, all of which read to its
    buffers; whatever their results, it then answers with what is there to read. -/
theorem readFile_retrieves {es : List Event} (hc : (Call.readFile path arg).Accepted host)
    (hfd : k₀.fd = (isFd path).map Nat.cast) {c : Bytes} {p : ℕ}
    (hsource : k₀.source path (arg.flag (.string ['r'])) = (c, p)) {l : Loop} {k : Kernel}
    (hrun : (world host).IsRun (((Call.readFile path arg).start host).2, k₀) es)
    (hend : (world host).run (((Call.readFile path arg).start host).2, k₀) es = (l, k)) :
    es.length ≤ c.length - p + 4 ∧
      (∀ fd part cb, (Syscall.read fd part, cb) ∈ l.queue →
        part.start + part.length ≤ (l.state.buf part.addr).length) ∧
      ((world host).Halted (l, k) → Retrieved host arg c p l k) := by
  have hsteps : StepsWithin (retrieveChain host path arg c p) [] (program host) kernel :=
    stepsWithin_retrieve
  obtain ⟨m, hm, hholds⟩ := hsteps.run (holds_start_retrieve hc hfd hsource) hrun
  rw [hend] at hholds
  refine ⟨by omega, ?_, fun hover => ?_⟩
  · intro fd part cb hmem
    cases hholds with
    | pending h =>
      obtain ⟨rfl, rfl⟩ := Prod.mk.inj (List.mem_singleton.1 hmem)
      cases h with
      | reading _ _ _ _ _ _ hloading _ => exact hloading.inBounds
    | deferred h => simp at hmem
    | answered h => simp at hmem
    | broken h => exact h.elim
  · obtain ⟨a, ha, houtcome⟩ := hsteps.exists_answer hholds (exists_reply_kernel k) hover
    rw [List.nil_append] at ha
    refine ⟨houtcome.contents, ?_, ?_⟩
    · intro size hsize hle hnone
      rw [ha, houtcome.result size hsize hle hnone]
    · intro n hn
      rw [ha, houtcome.error n hn]

/-- The file that `readSmall` reads has 3 bytes, but is said to have one. -/
def readSmallWorld : Loop × Kernel := ((readSmall.start plainHost).2, .unopened [120, 121, 122])

theorem readFile_retrieves_readSmall :
    (world plainHost).IsRun readSmallWorld readSmallRun ∧
      ((world plainHost).run readSmallWorld readSmallRun).1.answers =
        [⟨none, [.buffer [some 120]]⟩] := by
  have hc : readSmall.Accepted plainHost := completes_readSmall.accepted
  have hrun : (world plainHost).IsRun readSmallWorld readSmallRun := by
    refine ⟨EventLoop.enabled_complete rfl rfl rfl trivial trivial,
      EventLoop.enabled_complete rfl rfl rfl trivial trivial,
      EventLoop.enabled_complete rfl rfl rfl ⟨rfl, Nat.le_refl 1⟩ ?_,
      EventLoop.enabled_complete rfl rfl rfl trivial trivial, trivial⟩
    exact fun _ => ⟨rfl, fun h => absurd h (by decide)⟩
  have hsource : (Kernel.unopened [120, 121, 122]).source (.string ['a'])
      (OptionsArg.missing.flag (.string ['r'])) = ([120, 121, 122], 0) := by decide
  obtain ⟨-, -, hretrieved⟩ := readFile_retrieves hc rfl hsource hrun rfl
  exact ⟨hrun, (hretrieved (EventLoop.Inert.halted_within ⟨rfl, rfl⟩)).result 1 rfl (by decide) rfl⟩

end Retrieved

end Fs

end NodeLkl
