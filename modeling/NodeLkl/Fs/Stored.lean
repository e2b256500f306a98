import NodeLkl.Fs.Answers
import NodeLkl.Fs.Files

/-!
# What is written to files

`writeFile` and `appendFile` write their data by as many system calls as it takes, each of
which may store only some of the bytes it is given (`writeAll`). However many they store, the
bytes acknowledged are those of the file, at the place that the flag and the descriptor tell,
and nothing else is changed; without an error, all of the data is there (`writeFile_stores`).
-/

namespace NodeLkl

namespace Fs

open EventLoop (exec idle Chain StepsWithin)

/-! ## What calls write -/

/-- What a call writes: the data, where, and the flag it opens the file with. -/
structure Job where
  path : Path
  data : Data
  encoding : Option Encoding
  flag : Flag

/-- What a call of `writeFile` or `appendFile` writes. -/
def Call.job : Call → Option Job
  | writeFile path data options => some
    { path, data
      encoding := options.encoding (some "utf8".toList)
      flag := options.flag (.string ['w']) }
  | appendFile path data options => some
    { path, data
      encoding := options.encoding (some "utf8".toList)
      flag := if (isFd path).isSome then .string ['a'] else options.flag (.string ['a']) }
  | _ => none

namespace Job

variable (job : Job)

/-- Whether the user gave a descriptor. -/
def isUserFd : Bool := (isFd job.path).isSome

/-- The position of the first write, if it has one. -/
def position : Option ℕ := if job.flag.hasA then none else some 0

end Job

def Syscall.isWrite : Syscall → Bool
  | write _ _ | pwrite64 _ _ _ => true
  | _ => false

/-- The number of bytes that writes have stored. -/
def acknowledged (log : Log) : ℕ :=
  EventLoop.Budget.total (fun x => if x.1.isWrite then x.2.ret else 0) log

/-- The error of a write. -/
abbrev writeError : Log → Option ℕ := errorOf Syscall.isWrite

@[simp]
theorem acknowledged_concat (log : Log) (call : Syscall) (r : Reply) :
    acknowledged (log ++ [(call, r)]) = acknowledged log + if call.isWrite then r.ret else 0 :=
  EventLoop.Budget.total_concat _ _ _

/-- What a call answers: the first error, or its result. -/
def Job.answer (job : Job) (log : Log) : Args :=
  match job.path.nullError with
  | some e => ⟨some e, []⟩
  | none => match firstError log with
    | some n => ⟨some (.errno n), []⟩
    | none => ⟨none, if job.isUserFd then [] else [.number (lastReply log).ret]⟩

/-! ## Writes -/

/-- The write of the bytes of a buffer from `j` on. -/
def Job.write (job : Job) (d : Bytes) (fd : ℤ) (buffer : Addr) (j : ℕ) : Syscall :=
  match job.position with
  | none => .write fd ⟨buffer, j, d.length - j⟩
  | some p => .pwrite64 fd ⟨buffer, j, d.length - j⟩ (p + j : ℕ)

/-- Its callback. -/
def Job.afterWrite (job : Job) (d : Bytes) (fd : ℤ) (buffer : Addr) (j : ℕ) : Cb :=
  .writeWrapper (.writeAll fd job.isUserFd buffer j (d.length - j)
    (job.position.map fun p => ((p + j : ℕ) : ℤ))) buffer

section Write

variable {host : Host} {job : Job} {d : Bytes} {fd : ℤ} {buffer : Addr} {j ret : ℕ} {s : Mem}

theorem transferCall_position (part : Slice) : Binding.transferCall (.pwrite64 fd) (.write fd) part
    (job.position.map fun p => ((p + j : ℕ) : ℤ)) =
      match job.position with
      | none => .write fd part
      | some p => .pwrite64 fd part (p + j : ℕ) := by
  cases job.position with
  | none => rfl
  | some p =>
    have hp : ((p + j : ℕ) : ℤ) ≠ -1 := by omega
    simp only [Option.map_some, Binding.transferCall, if_pos hp]

theorem exec_writeAll (job : Job) (fd : ℤ) (hbuffer : s.heap[buffer]? = some (.bytes (ofBytes d)))
    (hj : j ≤ d.length) (prior : List Args) (is : List Syscall) (rs : Log) :
    exec (writeAll fd job.isUserFd buffer j (d.length - j)
        (job.position.map fun p => ((p + j : ℕ) : ℤ))) (idle prior s is rs) =
      (.ok (), ⟨s, [(job.write d fd buffer j, job.afterWrite d fd buffer j)], [], false,
        is ++ [job.write d fd buffer j], rs, prior⟩) := by
  have hlength : (ofBytes d).length = d.length := by simp [ofBytes]
  have hsum : (j : ℤ) + ((d.length : ℤ) - j) = d.length := by omega
  simp only [writeAll, Fs.write, Binding.writeBuffer, Binding.transfer, EventLoop.exec_bind,
    exec_getBuf, exec_slice, Option.getD_some, idle, Mem.buf_of_heap hbuffer, hlength, hsum,
    adjustOffset_natCast, Nat.min_self, Nat.min_eq_left hj, transferCall_position,
    EventLoop.exec_issue, List.nil_append]
  rfl

/-- A write stores bytes of the data, after those stored before. -/
theorem effect_write (k : Kernel) (hk : k.fd = some fd)
    (hbuffer : s.heap[buffer]? = some (.bytes (ofBytes d))) (hret : ret ≤ d.length - j)
    (data : Bytes) (st : LklStat) :
    k.effect s (job.write d fd buffer j) (.ok ret data st) =
      { k with file := k.file.put 0 (job.position.map (· + j)) ((d.drop j).take ret) } := by
  have hcontents : Kernel.bytesOf ((s.contents ⟨buffer, j, d.length - j⟩).take ret) =
      (d.drop j).take ret := by
    rw [Mem.contents, Mem.buf_of_heap hbuffer, List.take_take, Nat.min_eq_left hret, ofBytes,
      ← List.map_drop, ← List.map_take, ← ofBytes, Kernel.bytesOf_ofBytes]
  rw [Job.write]
  cases job.position with
  | none => simp only [Kernel.effect, Kernel.store, hk, if_true, hcontents, Option.map_none]
  | some p =>
    simp only [Kernel.effect, Kernel.store, hk, if_true, hcontents, Option.map_some,
      Int.toNat_natCast]

theorem effect_write_error (k : Kernel) (n : ℕ) :
    k.effect s (job.write d fd buffer j) (.error n) = k := by
  rw [Job.write]
  cases job.position <;> rfl

theorem receive_jobWrite (r : Reply) : s.receive (job.write d fd buffer j) r = s := by
  rw [Job.write]
  cases job.position <;> cases r <;> rfl

theorem opened_jobWrite (r : Reply) : opened [(job.write d fd buffer j, r)] = [] := by
  rw [Job.write]
  cases job.position <;> rfl

@[simp]
theorem isWrite_jobWrite : (job.write d fd buffer j).isWrite := by
  rw [Job.write]
  cases job.position <;> rfl

theorem ret_of_fits {data : Bytes} {st : LklStat} {k : Kernel}
    (hfits : Fits (job.write d fd buffer j) (.ok ret data st))
    (hallows : k.Allows (job.write d fd buffer j) (.ok ret data st)) :
    ret ≤ d.length - j ∧ (ret = 0 → d.length - j = 0) := by
  rw [Job.write] at hfits hallows
  cases hposition : job.position with
  | none =>
    rw [hposition] at hfits hallows
    exact ⟨hfits, hallows⟩
  | some p =>
    rw [hposition] at hfits hallows
    exact ⟨hfits, hallows⟩

end Write

/-! ## The chain of writes -/

section Chain

variable (job : Job) (d : Bytes) (k₀ : Kernel)

/-- The file, once it is open with the descriptor `fd`. -/
inductive Base : ℤ → Kernel → Log → Prop
  | user {fd : ℕ} {rs : Log} : isFd job.path = some fd → k₀.fd = some (fd : ℤ) →
      Base fd k₀ rs
  | path {fd : ℤ} {flags : ℕ} {rs : Log} : isFd job.path = none → job.path.nullError = none →
      stringToFlags job.flag = .ok flags → opened rs = [fd] → Base fd (k₀.opened flags fd) rs

/-- The bytes acknowledged are in the file. -/
def Written (k : Kernel) (rs : Log) : Prop :=
  ∃ fd base, Base job k₀ fd base rs ∧
    k.file = base.file.put 0 job.position (d.take (acknowledged rs))

/-- The system calls that write, and their callbacks, with `n` things left to do. -/
inductive StorePending (n : ℕ) (k : Kernel) : Syscall → Cb → Mem → List Syscall → Log → Prop
  | opening {p flags mode s is} : isFd job.path = none → job.path.nullError = none →
      stringToFlags job.flag = .ok flags → k = k₀ → d.length + 3 ≤ n →
      StorePending n k (.openat p flags mode)
        (.writeFileAfterOpen job.data job.encoding job.flag) s is []
  | writing {fd base buffer j s is rs} : Base job k₀ fd base rs → base.fd = some fd →
      k = { base with file := base.file.put 0 job.position (d.take j) } →
      acknowledged rs = j → firstError rs = none → writeError rs = none →
      s.heap[buffer]? = some (.bytes (ofBytes d)) → j ≤ d.length → d.length - j + 2 ≤ n →
      StorePending n k (job.write d fd buffer j) (job.afterWrite d fd buffer j) s is rs
  | closing {fd s is rs} : isFd job.path = none → job.path.nullError = none →
      Written job d k₀ k rs → acknowledged rs = d.length → firstError rs = none →
      writeError rs = none → 1 ≤ n →
      StorePending n k (.close fd) .user s is rs
  | closingAfter {fd e s is rs} : job.path.nullError = none → Written job d k₀ k rs →
      firstError rs = some e → writeError rs = some e → 1 ≤ n →
      StorePending n k (.close fd) (.writeAllAfterClose (.errno e)) s is rs

/-- What a call has done, and answered, once it is over. -/
structure Outcome (k : Kernel) (rs : Log) (a : Args) : Prop where
  answer : a = job.answer rs
  written : Written job d k₀ k rs ∨
    (isFd job.path = none ∧ opened rs = [] ∧ k = k₀ ∧ a.err ≠ none)
  all : a.err = none → acknowledged rs = d.length
  error : ∀ e, writeError rs = some e → a = ⟨some (.errno e), []⟩

def storeChain (n : ℕ) (k : Kernel) : Chain Mem Syscall Reply Cb Args where
  Pending := StorePending job d k₀ n k
  Deferred cb a _ is rs := (∃ flag, cb = .writeFileAfterOpen job.data job.encoding flag) ∧
    a = ⟨some nullBytesError, []⟩ ∧ isFd job.path = none ∧ job.path.hasNull ∧ is = [] ∧
    rs = [] ∧ k = k₀ ∧ 1 ≤ n
  Answered a _ _ rs := Outcome job d k₀ k rs a
  Broken _ := False

end Chain

section Steps

variable {host : Host} {job : Job} {d : Bytes} {k₀ k base : Kernel} {n : ℕ} {fd : ℤ}
  {buffer : Addr} {j : ℕ} {s : Mem} {is : List Syscall} {rs : Log}

theorem answer_of_firstError {e : ℕ} (hnull : job.path.nullError = none)
    (h : firstError rs = some e) : job.answer rs = ⟨some (.errno e), []⟩ := by
  simp [Job.answer, hnull, h]

theorem answer_of_not_firstError (hnull : job.path.nullError = none) (h : firstError rs = none) :
    job.answer rs = ⟨none, if job.isUserFd then [] else [.number (lastReply rs).ret]⟩ := by
  simp [Job.answer, hnull, h]

theorem Base.nullError (h : Base job k₀ fd base rs) : job.path.nullError = none := by
  cases h with
  | user hfd _ => exact nullError_of_isFd hfd
  | path _ hnull _ _ => exact hnull

/-- A system call that opens no file leaves it so. -/
theorem Base.concat (h : Base job k₀ fd base rs) {x : Syscall × Reply} (hx : opened [x] = []) :
    Base job k₀ fd base (rs ++ [x]) := by
  cases h with
  | user hfd hk => exact .user hfd hk
  | path hpath hnull hflags hopened =>
    refine .path hpath hnull hflags ?_
    rw [opened_concat, hopened, hx, List.append_nil]

theorem Written.close (h : Written job d k₀ k rs) (r : Reply) :
    Written job d k₀ (k.effect s (.close fd) r) (rs ++ [(.close fd, r)]) := by
  obtain ⟨fd', base, hbase, hfile⟩ := h
  refine ⟨fd', base, hbase.concat rfl, ?_⟩
  have heffect : (k.effect s (.close fd) r).file = k.file := by
    rw [Kernel.effect]
    split <;> rfl
  have hacked : acknowledged (rs ++ [(.close fd, r)]) = acknowledged rs := by
    simp [Syscall.isWrite]
  rw [heffect, hfile, hacked]

/-- The first write. -/
theorem does_writeFd_store (s : Mem) (is : List Syscall)
    (hd : job.data.toBuffer host job.encoding = .ok d)
    (hbase : Base job k₀ fd base rs) (hfd : base.fd = some fd) (hacked : acknowledged rs = 0)
    (herror : firstError rs = none) (hwrite : writeError rs = none) (hn : d.length + 2 ≤ n) :
    (storeChain job d k₀ n base).Does []
      (exec (writeFd host job.data job.encoding job.flag fd job.isUserFd) (idle [] s is rs)) := by
  have hposition : (if job.flag.hasA then none else some (0 : ℤ)) =
      job.position.map fun p => ((p + 0 : ℕ) : ℤ) := by
    rw [Job.position]
    split <;> rfl
  have hlength : (d.length : ℤ) = d.length - (0 : ℕ) := by simp
  have hbuffer : (s.heap ++ [Cell.bytes (ofBytes d)])[s.heap.length]? =
      some (.bytes (ofBytes d)) := by simp
  have hexec := exec_writeAll job fd
    (s := { s with heap := s.heap ++ [.bytes (ofBytes d)] }) hbuffer (Nat.zero_le _) [] is rs
  simp only [writeFd, hd, EventLoop.exec_bind, exec_ofExcept, exec_alloc, hposition]
  rw [hlength]
  refine (congrArg _ hexec).mpr (.issue (.writing hbase hfd ?_ hacked herror hwrite hbuffer
    (Nat.zero_le _) (by simpa using hn)))
  rw [List.take_zero, OpenFile.put_nil]

/-- The file was opened, or not. -/
theorem step_opening_store {p : Path} {flags : ℕ} {mode : ℤ} (r : Reply)
    (hd : job.data.toBuffer host job.encoding = .ok d) (hpath : isFd job.path = none)
    (hnull : job.path.nullError = none) (hflags : stringToFlags job.flag = .ok flags)
    (hn : d.length + 3 ≤ n) :
    ∃ m < n, (storeChain job d k₀ m (k₀.effect s (.openat p flags mode) r)).Does []
      (exec (apply host (.writeFileAfterOpen job.data job.encoding job.flag) r.args)
        (idle [] (s.receive (.openat p flags mode) r) is [(.openat p flags mode, r)])) := by
  refine ⟨d.length + 2, by omega, ?_⟩
  rw [apply]
  cases r with
  | error e =>
    refine Chain.does_answer ⟨(answer_of_firstError hnull rfl).symm,
      .inr ⟨hpath, rfl, rfl, Option.some_ne_none _⟩, ?_, ?_⟩
    · intro h
      cases h
    · intro e' he'
      cases he'
  | ok fd data st =>
    have hbase : Base job k₀ fd (k₀.opened flags fd) [(.openat p flags mode, .ok fd data st)] :=
      .path hpath hnull hflags rfl
    have huser : job.isUserFd = false := by simp [Job.isUserFd, hpath]
    have hdoes := does_writeFd_store s is hd hbase rfl rfl rfl rfl (Nat.le_refl _)
    rw [huser] at hdoes
    exact hdoes

/-- A write failed: nothing more is written. -/
theorem does_failed_store {e : ℕ} (hnull : job.path.nullError = none)
    (hwritten : Written job d k₀ k rs) (herror : firstError rs = some e)
    (hwrite : writeError rs = some e) :
    (storeChain job d k₀ 1 k).Does []
      (exec (if job.isUserFd then callback host ⟨some (.errno e), []⟩
        else close fd (.writeAllAfterClose (.errno e))) (idle [] s is rs)) := by
  cases huser : job.isUserFd with
  | true =>
    refine Chain.does_answer ⟨(answer_of_firstError hnull herror).symm, .inl hwritten, ?_, ?_⟩
    · intro h
      cases h
    · intro e' he'
      rw [Option.some.inj (hwrite.symm.trans he')]
  | false => exact Chain.does_issue (.closingAfter hnull hwritten herror hwrite (Nat.le_refl _))

/-- All is written. -/
theorem does_written_store (hnull : job.path.nullError = none)
    (hwritten : Written job d k₀ k rs) (hall : acknowledged rs = d.length)
    (herror : firstError rs = none) (hwrite : writeError rs = none) :
    (storeChain job d k₀ 1 k).Does []
      (exec (if job.isUserFd then callback host ⟨none, []⟩ else close fd .user)
        (idle [] s is rs)) := by
  cases huser : job.isUserFd with
  | true =>
    refine Chain.does_answer ⟨?_, .inl hwritten, fun _ => hall, ?_⟩
    · rw [answer_of_not_firstError hnull herror, huser, if_pos rfl]
    · intro e' he'
      rw [hwrite] at he'
      cases he'
  | false =>
    have hpath : isFd job.path = none := by simpa [Job.isUserFd] using huser
    exact Chain.does_issue (.closing hpath hnull hwritten hall herror hwrite (Nat.le_refl _))

/-- Some bytes are stored after those that were. -/
theorem effect_jobWrite {ret : ℕ} (data : Bytes) (st : LklStat) (hfd : base.fd = some fd)
    (hk : k = { base with file := base.file.put 0 job.position (d.take j) })
    (hbuffer : s.heap[buffer]? = some (.bytes (ofBytes d))) (hj : j ≤ d.length)
    (hret : ret ≤ d.length - j) :
    k.effect s (job.write d fd buffer j) (.ok ret data st) =
      { base with file := base.file.put 0 job.position (d.take (j + ret)) } := by
  have hlength : (d.take j).length = j := List.length_take_of_le hj
  have hput := OpenFile.put_put 0 base.file job.position (d.take j) ((d.drop j).take ret)
  rw [hlength, ← List.take_add] at hput
  rw [effect_write k (by rw [hk]; exact hfd) hbuffer hret, hk, ← hput]

/-- The rest is written where the bytes written end. -/
theorem map_position_add (job : Job) (j ret : ℕ) :
    (job.position.map fun p => ((p + j : ℕ) : ℤ)).map (· + (ret : ℤ)) =
      job.position.map fun p => ((p + (j + ret) : ℕ) : ℤ) := by
  cases job.position with
  | none => rfl
  | some p =>
    simp only [Option.map_some, Option.some.injEq]
    omega

/-- Some bytes were written, or none could be. -/
theorem step_writing_store (r : Reply) (hbase : Base job k₀ fd base rs) (hfd : base.fd = some fd)
    (hk : k = { base with file := base.file.put 0 job.position (d.take j) })
    (hacked : acknowledged rs = j) (herror : firstError rs = none) (hwrite : writeError rs = none)
    (hbuffer : s.heap[buffer]? = some (.bytes (ofBytes d))) (hj : j ≤ d.length)
    (hn : d.length - j + 2 ≤ n) (hfits : Fits (job.write d fd buffer j) r)
    (hallows : k.Allows (job.write d fd buffer j) r) :
    ∃ m < n, (storeChain job d k₀ m (k.effect s (job.write d fd buffer j) r)).Does []
      (exec (apply host (job.afterWrite d fd buffer j) r.args)
        (idle [] s is (rs ++ [(job.write d fd buffer j, r)]))) := by
  have hnull := hbase.nullError
  have hbase' : Base job k₀ fd base (rs ++ [(job.write d fd buffer j, r)]) :=
    hbase.concat (opened_jobWrite r)
  rw [Job.afterWrite, apply]
  simp only [EventLoop.exec_bind, exec_getBuf]
  cases r with
  | error e =>
    -- nothing is stored, and nothing more is written
    have hwritten : Written job d k₀ k (rs ++ [(job.write d fd buffer j, .error e)]) := by
      refine ⟨fd, base, hbase', ?_⟩
      simp [hk, hacked, Reply.ret]
    rw [effect_write_error, Reply.args, apply_writeAll_error]
    refine ⟨1, by omega, does_failed_store hnull hwritten ?_ ?_⟩
    · simp [herror, Reply.errno]
    · simp [hwrite, Reply.errno]
  | ok ret data st =>
    obtain ⟨hret, hzero⟩ := ret_of_fits hfits hallows
    have herror' : firstError (rs ++ [(job.write d fd buffer j, .ok ret data st)]) = none := by
      simp [herror, Reply.errno]
    have hwrite' : writeError (rs ++ [(job.write d fd buffer j, .ok ret data st)]) = none := by
      simp [hwrite, Reply.errno]
    have hacked' : acknowledged (rs ++ [(job.write d fd buffer j, .ok ret data st)]) = j + ret := by
      simp [hacked, Reply.ret]
    rw [effect_jobWrite data st hfd hk hbuffer hj hret, Reply.args, Args.num, apply_writeAll]
    by_cases hlast : (ret : ℤ) = d.length - j
    · -- all is stored
      have hall : j + ret = d.length := by omega
      rw [if_pos hlast]
      refine ⟨1, by omega, does_written_store hnull ?_ (hacked'.trans hall) herror' hwrite'⟩
      exact ⟨fd, base, hbase', by rw [hacked']⟩
    · -- the rest is written: what is left is less, as some bytes were written
      have hlt : j + ret < d.length := by omega
      have hpos : 0 < ret := by
        rcases Nat.eq_zero_or_pos ret with h | h
        · have := hzero h
          omega
        · exact h
      have hoffset : (j : ℤ) + ret = (j + ret : ℕ) := by simp
      have hlength : (d.length : ℤ) - j - ret = d.length - (j + ret : ℕ) := by omega
      rw [if_neg hlast, hoffset, hlength, map_position_add,
        exec_writeAll job fd hbuffer (Nat.le_of_lt hlt)]
      exact ⟨d.length - (j + ret) + 2, by omega, .issue (.writing hbase' hfd rfl hacked' herror'
        hwrite' hbuffer (Nat.le_of_lt hlt) (Nat.le_refl _))⟩

/-- The file was closed, after all was written. -/
theorem step_closing_store (r : Reply) (hpath : isFd job.path = none)
    (hnull : job.path.nullError = none) (hwritten : Written job d k₀ k rs)
    (hall : acknowledged rs = d.length) (herror : firstError rs = none)
    (hwrite : writeError rs = none) :
    (storeChain job d k₀ 0 (k.effect s (.close fd) r)).Does []
      (exec (apply host .user r.args) (idle [] s is (rs ++ [(.close fd, r)]))) := by
  have huser : job.isUserFd = false := by simp [Job.isUserFd, hpath]
  have hacked : acknowledged (rs ++ [(.close fd, r)]) = d.length := by
    simp [hall, Syscall.isWrite]
  have hnone : writeError (rs ++ [(.close fd, r)]) = none := by simp [hwrite, Syscall.isWrite]
  rw [apply]
  refine Chain.does_answer ⟨?_, .inl (hwritten.close r), fun _ => hacked, ?_⟩
  · cases r with
    | error e =>
      have herror' : firstError (rs ++ [(.close fd, .error e)]) = some e := by
        simp [herror, Reply.errno]
      exact (answer_of_firstError hnull herror').symm
    | ok ret data st =>
      have herror' : firstError (rs ++ [(.close fd, .ok ret data st)]) = none := by
        simp [herror, Reply.errno]
      rw [answer_of_not_firstError hnull herror', huser, if_neg Bool.false_ne_true]
      simp [Reply.args, lastReply, Reply.ret]
  · intro e he
    rw [hnone] at he
    cases he

/-- The file was closed, after an error. -/
theorem step_closingAfter_store (r : Reply) {e : ℕ} (hnull : job.path.nullError = none)
    (hwritten : Written job d k₀ k rs) (herror : firstError rs = some e)
    (hwrite : writeError rs = some e) :
    (storeChain job d k₀ 0 (k.effect s (.close fd) r)).Does []
      (exec (apply host (.writeAllAfterClose (.errno e)) r.args)
        (idle [] s is (rs ++ [(.close fd, r)]))) := by
  have herror' : firstError (rs ++ [(.close fd, r)]) = some e := by simp [herror]
  have hwrite' : writeError (rs ++ [(.close fd, r)]) = some e := by simp [hwrite]
  rw [apply]
  refine Chain.does_answer ⟨(answer_of_firstError hnull herror').symm, .inl (hwritten.close r),
    ?_, ?_⟩
  · intro h
    cases h
  · intro e' he'
    rw [Option.some.inj (hwrite'.symm.trans he')]

theorem stepsWithin_store (hd : job.data.toBuffer host job.encoding = .ok d) :
    StepsWithin (storeChain job d k₀) [] (program host) kernel where
  complete := by
    intro n k call cb s is rs r hpending hfits hallows
    cases hpending with
    | opening hpath hnull hflags hk hn =>
      rw [hk]
      exact step_opening_store r hd hpath hnull hflags hn
    | writing hbase hfd hk hacked herror hwrite hbuffer hj hn =>
      rw [show (program host).receive s _ r = s from receive_jobWrite r]
      exact step_writing_store r hbase hfd hk hacked herror hwrite hbuffer hj hn hfits hallows
    | closing hpath hnull hwritten hall herror hwrite hn =>
      refine ⟨0, hn, ?_⟩
      rw [show (program host).receive s (.close _) r = s by cases r <;> rfl]
      exact step_closing_store r hpath hnull hwritten hall herror hwrite
    | closingAfter hnull hwritten herror hwrite hn =>
      refine ⟨0, hn, ?_⟩
      rw [show (program host).receive s (.close _) r = s by cases r <;> rfl]
      exact step_closingAfter_store r hnull hwritten herror hwrite
  tick := by
    rintro n k cb a s is rs ⟨⟨flag, rfl⟩, rfl, hpath, hnull, rfl, rfl, rfl, hn⟩
    have hanswer : job.answer [] = ⟨some nullBytesError, []⟩ := by
      simp [Job.answer, Path.nullError, hnull]
    refine ⟨0, hn, ?_⟩
    simp only [program, apply]
    refine Chain.does_answer ⟨hanswer.symm, .inr ⟨hpath, rfl, rfl, Option.some_ne_none _⟩, ?_, ?_⟩
    · intro h
      cases h
    · intro e he
      cases he
  broken h := h

/-- What a call does before it returns. -/
theorem holds_start_store {c : Call} (hjob : c.job = some job)
    (hd : job.data.toBuffer host job.encoding = .ok d) (hc : c.Accepted host)
    (hfd : k₀.fd = (isFd job.path).map Nat.cast) :
    (storeChain job d k₀ (d.length + 3) k₀).Holds [] (c.start host).2 := by
  obtain ⟨o, hstart, hencoding, hflag⟩ : ∃ o, c.start host =
      exec (writeFileWith host job.path job.data o) (idle [] ⟨[], newContext false none⟩ [] []) ∧
      o.encoding = job.encoding ∧ o.flag.getD (.string ['w']) = job.flag := by
    cases c with
    | writeFile path data arg =>
      obtain rfl := Option.some.inj hjob
      exact start_writeFile hc
    | appendFile path data arg =>
      obtain rfl := Option.some.inj hjob
      exact start_appendFile hc
    | _ => cases hjob
  rw [writeFileWith, hencoding, hflag] at hstart
  cases hpath : isFd job.path with
  | some fd =>
    have huser : job.isUserFd = true := by simp [Job.isUserFd, hpath]
    have hk : k₀.fd = some (fd : ℤ) := by rw [hfd, hpath]; rfl
    have hbase : Base job k₀ fd k₀ [] := .user hpath hk
    have hdoes := does_writeFd_store (n := d.length + 3) ⟨[], newContext false none⟩ [] hd hbase hk
      rfl rfl rfl (by omega)
    rw [huser] at hdoes
    simp only [hpath] at hstart
    rw [hstart]
    exact hdoes.holds
  | none =>
    simp only [hpath, openPath, nullCheck] at hstart
    cases hnull : job.path.hasNull with
    | true =>
      rw [hnull, if_pos rfl] at hstart
      rw [hstart]
      exact .deferred ⟨⟨_, rfl⟩, rfl, hpath, hnull, rfl, rfl, rfl, by omega⟩
    | false =>
      rw [hnull, if_neg Bool.false_ne_true] at hstart
      have hnullError : job.path.nullError = none := by simp [Path.nullError, hnull]
      obtain ⟨flags, hflags, hstart⟩ := hc.exists_ok hstart rfl
      rw [hstart]
      exact .pending (.opening hpath hnullError hflags rfl (Nat.le_refl _))

end Steps

/-! ## Files -/

/-- A flag with an `a` appends, and does not truncate. -/
theorem flags_of_hasA {flag : Flag} {flags : ℕ} (h : stringToFlags flag = .ok flags)
    (ha : flag.hasA) : flags &&& oAppend ≠ 0 ∧ flags &&& oTrunc = 0 := by
  have htable : ∀ x ∈ flagTable, x.1.toList.contains 'a' →
      x.2 &&& oAppend ≠ 0 ∧ x.2 &&& oTrunc = 0 := by decide
  cases flag with
  | number n => cases ha
  | string s =>
    rw [stringToFlags] at h
    cases hfind : flagTable.find? fun p => p.1.toList = s with
    | none =>
      rw [hfind] at h
      cases h
    | some x =>
      rw [hfind] at h
      have hname : x.1.toList = s := by simpa using List.find?_some hfind
      obtain rfl := Except.ok.inj h
      refine htable x (List.mem_of_find?_eq_some hfind) ?_
      rw [hname]
      exact ha

/-- What is in the file, and what is answered, once a call that writes `d` is over: the bytes
    acknowledged, `d.take (acknowledged l.replies)`, are in the file. -/
structure Stored (job : Job) (d : Bytes) (k₀ : Kernel) (l : Loop) (k : Kernel) : Prop where
  answered : l.answers = [job.answer l.replies]
  /-- Without an error, all of the bytes are. -/
  all : (job.answer l.replies).err = none → acknowledged l.replies = d.length
  /-- The error of a write is what is answered. -/
  error : ∀ e, writeError l.replies = some e → l.answers = [⟨some (.errno e), []⟩]
  /-- If the file was opened, the flag tells what is kept of it, and whether to append. -/
  path : ∀ flags, isFd job.path = none → opened l.replies ≠ [] →
    stringToFlags job.flag = .ok flags →
    k.file.contents = if flags &&& oAppend = 0 then
        d.take (acknowledged l.replies) ++
          (k₀.kept flags).drop (d.take (acknowledged l.replies)).length
      else k₀.kept flags ++ d.take (acknowledged l.replies)
  /-- So `w` truncates the file. -/
  truncated : isFd job.path = none → opened l.replies ≠ [] → job.flag = .string ['w'] →
    k.file.contents = d.take (acknowledged l.replies)
  /-- Flags with an `a` append to it. -/
  appended : isFd job.path = none → opened l.replies ≠ [] → job.flag.hasA →
    k.file.contents = k₀.file.contents ++ d.take (acknowledged l.replies)
  unopened : isFd job.path = none → opened l.replies = [] → k = k₀
  /-- Through the descriptor of the user, they replace the first ones. -/
  inPlace : (isFd job.path).isSome → k₀.file.append = false → job.flag.hasA = false →
    k.file.contents = d.take (acknowledged l.replies) ++
        k₀.file.contents.drop (d.take (acknowledged l.replies)).length ∧
      k.file.offset = k₀.file.offset
  /-- Or they are at its position, if the flag is to append. -/
  sequential : (isFd job.path).isSome → k₀.file.append = false → job.flag.hasA →
    k.file.contents = overwrite 0 k₀.file.contents k₀.file.offset
        (d.take (acknowledged l.replies)) ∧
      k.file.offset = k₀.file.offset + (d.take (acknowledged l.replies)).length

section Stored

variable {host : Host} {job : Job} {d : Bytes} {k₀ k : Kernel} {l : Loop} {a : Args} {rs : Log}

theorem contents_of_path {flags : ℕ} (hpath : isFd job.path = none) (hw : Written job d k₀ k rs)
    (hflags : stringToFlags job.flag = .ok flags) :
    k.file.contents = if flags &&& oAppend = 0 then
        d.take (acknowledged rs) ++ (k₀.kept flags).drop (d.take (acknowledged rs)).length
      else k₀.kept flags ++ d.take (acknowledged rs) := by
  obtain ⟨fd, base, hbase, hfile⟩ := hw
  cases hbase with
  | user huser _ =>
    rw [hpath] at huser
    cases huser
  | @path _ flags' _ _ _ hflags' _ =>
    obtain rfl : flags' = flags := Except.ok.inj (hflags'.symm.trans hflags)
    have hkept : (k₀.opened flags' fd).file.contents = k₀.kept flags' := rfl
    rw [hfile]
    by_cases happend : flags' &&& oAppend = 0
    · have hplace : (k₀.opened flags' fd).file.place job.position = 0 := by
        rw [Job.position]
        split <;> simp [OpenFile.place, Kernel.opened, happend]
      rw [if_pos happend, OpenFile.put, hplace, overwrite_zero, hkept]
    · have hplace : (k₀.opened flags' fd).file.place job.position =
          (k₀.opened flags' fd).file.contents.length := by
        simp [OpenFile.place, Kernel.opened, happend]
      rw [if_neg happend, OpenFile.put, hplace, overwrite_length, hkept]

/-- The flag of a file that was opened is one. -/
theorem Written.flags (hpath : isFd job.path = none) (hw : Written job d k₀ k rs) :
    ∃ flags, stringToFlags job.flag = .ok flags := by
  obtain ⟨fd, base, hbase, -⟩ := hw
  cases hbase with
  | user huser _ => simp [hpath] at huser
  | path _ _ hflags _ => exact ⟨_, hflags⟩

theorem file_of_user (huser : (isFd job.path).isSome) (hw : Written job d k₀ k rs) :
    k.file = k₀.file.put 0 job.position (d.take (acknowledged rs)) := by
  obtain ⟨fd, base, hbase, hfile⟩ := hw
  cases hbase with
  | user _ _ => exact hfile
  | path hpath _ _ _ => simp [hpath] at huser

theorem Outcome.stored (h : Outcome job d k₀ k l.replies a) (ha : l.answers = [a]) :
    Stored job d k₀ l k := by
  have hwritten : opened l.replies ≠ [] ∨ (isFd job.path).isSome →
      Written job d k₀ k l.replies := by
    intro hor
    rcases h.written with hw | ⟨hpath, hopened, -, -⟩
    · exact hw
    · simp [hpath, hopened] at hor
  refine ⟨h.answer ▸ ha, fun herr => h.all (h.answer ▸ herr), ?_, ?_, ?_, ?_, ?_, ?_, ?_⟩
  · intro e he
    rw [ha, h.error e he]
  · intro flags hpath hopened hflags
    exact contents_of_path hpath (hwritten (.inl hopened)) hflags
  · intro hpath hopened hflag
    have hflags : stringToFlags job.flag = .ok (oTrunc ||| oCreat ||| oWronly) := by
      rw [hflag]
      decide
    have hcontents := contents_of_path hpath (hwritten (.inl hopened)) hflags
    rw [if_pos (by decide), Kernel.kept, if_neg (by decide), List.drop_nil, List.append_nil]
      at hcontents
    exact hcontents
  · intro hpath hopened hflag
    obtain ⟨flags, hflags⟩ := (hwritten (.inl hopened)).flags hpath
    obtain ⟨happend, htrunc⟩ := flags_of_hasA hflags hflag
    have hcontents := contents_of_path hpath (hwritten (.inl hopened)) hflags
    rw [if_neg happend, Kernel.kept, if_pos htrunc] at hcontents
    exact hcontents
  · intro hpath hopened
    rcases h.written with ⟨fd, base, hbase, -⟩ | ⟨-, -, hk, -⟩
    · cases hbase with
      | user huser _ => simp [hpath] at huser
      | path _ _ _ hfd => simp [hopened] at hfd
    · exact hk
  · intro huser happend ha
    have hplace : k₀.file.place (some 0) = 0 := by simp [OpenFile.place, happend]
    have hposition : job.position = some 0 := by simp [Job.position, ha]
    rw [file_of_user huser (hwritten (.inr huser)), hposition]
    refine ⟨?_, rfl⟩
    rw [OpenFile.put, hplace, overwrite_zero]
  · intro huser happend ha
    have hplace : k₀.file.place none = k₀.file.offset := by simp [OpenFile.place, happend]
    have hposition : job.position = none := by simp [Job.position, ha]
    rw [file_of_user huser (hwritten (.inr huser)), hposition, OpenFile.put, hplace]
    refine ⟨rfl, ?_⟩
    by_cases hnil : d.take (acknowledged l.replies) = []
    · simp [hnil]
    · simp [hnil]

/-- A call of `writeFile` or `appendFile` is over after a number of system calls; whatever
    their results, the bytes acknowledged are then in the file. -/
theorem writeFile_stores {c : Call} {es : List Event} (hjob : c.job = some job)
    (hd : job.data.toBuffer host job.encoding = .ok d) (hc : c.Accepted host)
    (hfd : k₀.fd = (isFd job.path).map Nat.cast)
    (hrun : (world host).IsRun ((c.start host).2, k₀) es) :
    es.length ≤ d.length + 3 ∧
      ((world host).Halted ((world host).run ((c.start host).2, k₀) es) →
        Stored job d k₀ ((world host).run ((c.start host).2, k₀) es).1
          ((world host).run ((c.start host).2, k₀) es).2) := by
  have hsteps : StepsWithin (storeChain job d k₀) [] (program host) kernel := stepsWithin_store hd
  obtain ⟨m, hm, hholds⟩ := hsteps.run (holds_start_store hjob hd hc hfd) hrun
  refine ⟨by omega, fun hover => ?_⟩
  obtain ⟨a, ha, houtcome⟩ := hsteps.exists_answer hholds (exists_reply_kernel _) hover
  exact houtcome.stored ha

/-- Writing three bytes to a file. -/
def writeThree : Call := .writeFile (.string ['f']) (.buffer [1, 2, 3]) .missing

/-- The file is opened, written in two parts, and closed. -/
def writeThreeRun : List Event :=
  [.complete (.ok 3 [] .zero), .complete (.ok 1 [] .zero), .complete (.ok 2 [] .zero),
    .complete (.ok 0 [] .zero)]

/-- The state it ends in. -/
def writeThreeEnd : Loop × Kernel :=
  (world plainHost).run ((writeThree.start plainHost).2, .unopened [9, 9, 9, 9]) writeThreeRun

theorem writeFile_stores_writeThree :
    (world plainHost).IsRun ((writeThree.start plainHost).2, .unopened [9, 9, 9, 9])
        writeThreeRun ∧
      writeThreeEnd.2.file.contents = [1, 2, 3] ∧
      writeThreeEnd.1.answers = [⟨none, [.number 0]⟩] := by
  have hc : writeThree.Accepted plainHost := by
    intro e he
    cases he
  have hrun : (world plainHost).IsRun ((writeThree.start plainHost).2, .unopened [9, 9, 9, 9])
      writeThreeRun := by
    refine ⟨EventLoop.enabled_complete rfl rfl rfl trivial trivial,
      EventLoop.enabled_complete rfl rfl rfl ?_ ?_, EventLoop.enabled_complete rfl rfl rfl ?_ ?_,
      EventLoop.enabled_complete rfl rfl rfl trivial trivial, trivial⟩
    · exact (by decide : 1 ≤ 3)
    · exact fun h => absurd h (by decide)
    · exact (by decide : 2 ≤ 2)
    · exact fun h => absurd h (by decide)
  have hjob : writeThree.job =
      some ⟨.string ['f'], .buffer [1, 2, 3], some "utf8".toList, .string ['w']⟩ := rfl
  have hstored := (writeFile_stores hjob rfl hc rfl hrun).2
    (EventLoop.Inert.halted_within ⟨rfl, rfl⟩)
  exact ⟨hrun, hstored.truncated rfl (List.cons_ne_nil _ _) rfl, hstored.answered⟩

end Stored

end Fs

end NodeLkl
