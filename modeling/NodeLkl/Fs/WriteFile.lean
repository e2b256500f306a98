import NodeLkl.Fs.Simple

/-!
# Writing files

`writeFile` and `appendFile` open a file, unless they are given a file descriptor,
write to it until all is written, and close it if they opened it. A file that was
opened is closed once, and they answer once, except that data which cannot be
converted to a buffer makes the callback of `open` throw: the file is then left
open, and there is no answer (`WritesFile.complete`).

`truncate` is like the latter: `binding.ftruncate` throws (`truncate_complete`).
-/

namespace NodeLkl

namespace Fs

open EventLoop (issue defer answer exec idle settle Chain)

variable {host : Host} {c : Call} {l : Loop}

/-! ## The chain of `writeFile` -/

/-- The call `c` is one of `writeFile`, or of `appendFile`. -/
structure WritesFile (host : Host) (c : Call) (path : Path) (data : Data) (options : Options) :
    Prop where
  start : c.start host = exec (writeFileWith host path data options)
    (idle [] ⟨[], newContext false none⟩ [] [])
  pathError : c.pathError = path.nullError
  stepError : ∀ call ret d st, stepError host c (call, .ok ret d st) = none
  result : ∀ log, c.result host log =
    .ok (if (isFd path).isSome then [] else [.number (lastReply log).ret])
  userFd : c.userFd = isFd path

/-- What is being written. -/
structure Writing (host : Host) (c : Call) (path : Path) (fd : ℤ) (issued : List Syscall)
    (log : Log) : Prop where
  failure : failure host c log = none
  opened : opened log = if (isFd path).isSome then [] else [fd]
  noClose : NoClose issued

/-- What is being closed. -/
structure Closing (host : Host) (c : Call) (path : Path) (err : Option Err) (fd : ℤ)
    (issued : List Syscall) (log : Log) : Prop where
  path : isFd path = none
  failure : failure host c log = err
  opened : opened log = [fd]
  issued : ∃ before, issued = before ++ [.close fd] ∧ NoClose before

/-- The path has no null bytes, and the data was converted. -/
def Ready (host : Host) (path : Path) (data : Data) (options : Options) : Prop :=
  path.nullError = none ∧ (data.toBuffer host options.encoding).isOk

/-- The system calls of `writeFile` and their callbacks. -/
inductive WritePending (host : Host) (c : Call) (path : Path) (data : Data) (options : Options) :
    Syscall → Cb → Mem → List Syscall → Log → Prop
  | opening {p flags mode flag s} : isFd path = none → path.nullError = none →
      WritePending host c path data options (.openat p flags mode)
        (.writeFileAfterOpen data options.encoding flag) s [.openat p flags mode] []
  | writing {fd slice buffer offset length position s is rs} : Ready host path data options →
      Writing host c path fd is rs →
      WritePending host c path data options
        (Binding.transferCall (.pwrite64 fd) (.write fd) slice position)
        (.writeWrapper (.writeAll fd (isFd path).isSome buffer offset length position) buffer)
        s is rs
  | closing {fd s is rs} : Ready host path data options → Closing host c path none fd is rs →
      WritePending host c path data options (.close fd) .user s is rs
  | closingAfter {fd err s is rs} : Ready host path data options →
      Closing host c path (some err) fd is rs →
      WritePending host c path data options (.close fd) (.writeAllAfterClose err) s is rs

/-- The chain of `writeFile`. It breaks if the data cannot be converted. -/
def writeChain (host : Host) (c : Call) (path : Path) (data : Data) (options : Options) :
    Chain Mem Syscall Reply Cb Args where
  Pending := WritePending host c path data options
  Deferred k a _ is rs := (∃ flag, k = .writeFileAfterOpen data options.encoding flag) ∧
    a = ⟨some nullBytesError, []⟩ ∧ path.hasNull ∧ is = [] ∧ rs = []
  Answered a _ is rs := Right host c rs a ∧ Kept c is rs ∧
    (opened rs ≠ [] → (data.toBuffer host options.encoding).isOk)
  Broken l := l.Inert ∧ l.answers = [] ∧ NoClose l.issued ∧ opened l.replies ≠ [] ∧
    ¬(data.toBuffer host options.encoding).isOk

variable {path : Path} {data : Data} {options : Options} {s : Mem} {is : List Syscall} {rs : Log}
  {fd : ℤ}

/-- A write is not `close`. -/
theorem noClose_transferCall {slice : Slice} {position : Option ℤ} (h : NoClose is) :
    NoClose (is ++ [Binding.transferCall (.pwrite64 fd) (.write fd) slice position]) := by
  refine h.concat fun fd' => ?_
  rcases transferCall_eq_or (.pwrite64 fd) (.write fd) slice position with heq | ⟨p, heq⟩ <;>
    rw [heq] <;> simp

/-- The reply to a write opens no file. -/
theorem opened_transferCall {slice : Slice} {position : Option ℤ} {r : Reply} :
    opened [(Binding.transferCall (.pwrite64 fd) (.write fd) slice position, r)] = [] := by
  rcases transferCall_eq_or (.pwrite64 fd) (.write fd) slice position with heq | ⟨p, heq⟩ <;>
    rw [heq] <;> rfl

/-- Writing goes on. -/
theorem does_writeAll (hr : Ready host path data options) (hw : Writing host c path fd is rs)
    (buffer : Addr) (offset length : ℤ) (position : Option ℤ) :
    (writeChain host c path data options).Does []
      (exec (writeAll fd (isFd path).isSome buffer offset length position) (idle [] s is rs)) := by
  refine Chain.Does.issue (.writing hr ?_)
  exact ⟨hw.failure, hw.opened, noClose_transferCall hw.noClose⟩

theorem does_writeFd (hr : path.nullError = none) (hw : Writing host c path fd is rs) {b : Bytes}
    (hb : data.toBuffer host options.encoding = .ok b) (flag : Flag) :
    (writeChain host c path data options).Does []
      (exec (writeFd host data options.encoding flag fd (isFd path).isSome) (idle [] s is rs)) := by
  simp only [writeFd, hb, EventLoop.exec_bind, exec_ofExcept, exec_alloc]
  exact does_writeAll ⟨hr, by rw [hb]; rfl⟩ hw _ _ _ _

/-- What `writeAll` does with the number of bytes written. -/
theorem apply_writeAll (isUserFd : Bool) (buffer : Addr) (offset length : ℤ) (position : Option ℤ)
    (n : ℕ) (vs : List Value) :
    apply host (.writeAll fd isUserFd buffer offset length position) ⟨none, .number n :: vs⟩ =
      if (n : ℤ) = length then
        if isUserFd then callback host ⟨none, []⟩ else close fd .user
      else writeAll fd isUserFd buffer (offset + n) (length - n) (position.map (· + n)) := by
  rw [apply]
  rfl

/-- What `writeAll` does with an error. -/
theorem apply_writeAll_error (isUserFd : Bool) (buffer : Addr) (offset length : ℤ)
    (position : Option ℤ) (err : Err) (vs : List Value) :
    apply host (.writeAll fd isUserFd buffer offset length position) ⟨some err, vs⟩ =
      if isUserFd then callback host ⟨some err, []⟩ else close fd (.writeAllAfterClose err) := by
  rw [apply]

section Steps

variable (h : WritesFile host c path data options)
include h

/-- The file was opened, or not. -/
theorem WritesFile.step_opening {p : Path} {flags : ℕ} {mode : ℤ} {flag : Flag} {r : Reply}
    (hfd : isFd path = none) (hnull : path.nullError = none) :
    (writeChain host c path data options).Does []
      (exec (apply host (.writeFileAfterOpen data options.encoding flag) r.args)
        (idle [] s [.openat p flags mode] [(.openat p flags mode, r)])) ∨
    (writeChain host c path data options).Broken
      (settle (exec (apply host (.writeFileAfterOpen data options.encoding flag) r.args)
        (idle [] s [.openat p flags mode] [(.openat p flags mode, r)]))) := by
  have hnc : NoClose [.openat p flags mode] := noClose_nil.concat (by simp)
  cases r with
  | error n =>
    left
    rw [apply]
    refine Chain.does_answer ⟨right_of_failure (h.pathError.trans hnull) rfl, hnc.kept rfl, ?_⟩
    exact fun hopen => absurd rfl hopen
  | ok fd d st =>
    rw [apply]
    simp only [Reply.args, Args.num]
    cases hb : data.toBuffer host options.encoding with
    | ok b =>
      left
      have hw : Writing host c path fd [.openat p flags mode]
          [(.openat p flags mode, .ok fd d st)] :=
        ⟨by simp [failure, h.stepError], by simp [opened, hfd], hnc⟩
      simpa only [hfd, Option.isSome_none] using does_writeFd hnull hw hb flag
    | error e =>
      right
      simp only [writeFd, hb, EventLoop.exec_bind, exec_ofExcept]
      exact ⟨⟨rfl, rfl⟩, rfl, hnc, List.cons_ne_nil _ _, by simp [hb, Except.isOk, Except.toBool]⟩

/-- Some bytes were written, or none could be. -/
theorem WritesFile.step_writing {slice : Slice} {buffer : Addr} {offset length : ℤ}
    {position : Option ℤ} {r : Reply} (hr : Ready host path data options)
    (hw : Writing host c path fd is rs) :
    (writeChain host c path data options).Does []
      (exec (apply host
        (.writeWrapper (.writeAll fd (isFd path).isSome buffer offset length position) buffer)
        r.args)
        (idle [] s is
          (rs ++ [(Binding.transferCall (.pwrite64 fd) (.write fd) slice position, r)]))) := by
  rw [apply]
  simp only [EventLoop.exec_bind, exec_getBuf]
  have hopened :
      opened (rs ++ [(Binding.transferCall (.pwrite64 fd) (.write fd) slice position, r)]) =
        if (isFd path).isSome then [] else [fd] := by
    simp [opened_transferCall, hw.opened]
  have hp : c.pathError = none := h.pathError.trans hr.1
  cases r with
  | error n =>
    have hfail : failure host c (rs ++ [(Binding.transferCall (.pwrite64 fd) (.write fd) slice
        position, .error n)]) = some (.errno n) := by simp [hw.failure]
    rw [Reply.args, apply_writeAll_error]
    cases huser : (isFd path).isSome with
    | true =>
      rw [huser, if_pos rfl] at hopened
      exact Chain.does_answer ⟨right_of_failure hp hfail, hw.noClose.kept hopened, fun _ => hr.2⟩
    | false =>
      rw [huser, if_neg Bool.false_ne_true] at hopened
      refine Chain.does_issue (.closingAfter hr ⟨?_, hfail, hopened, is, rfl, hw.noClose⟩)
      simpa using huser
  | ok ret d st =>
    have hfail : failure host c (rs ++ [(Binding.transferCall (.pwrite64 fd) (.write fd) slice
        position, .ok ret d st)]) = none := by simp [hw.failure, h.stepError]
    rw [Reply.args, Args.num, apply_writeAll]
    by_cases hlast : (ret : ℤ) = length
    · rw [if_pos hlast]
      cases huser : (isFd path).isSome with
      | true =>
        rw [huser, if_pos rfl] at hopened
        refine Chain.does_answer ⟨right_of_result hp hfail ?_, hw.noClose.kept hopened,
          fun _ => hr.2⟩
        rw [h.result, huser, if_pos rfl]
      | false =>
        rw [huser, if_neg Bool.false_ne_true] at hopened
        refine Chain.does_issue (.closing hr ⟨?_, hfail, hopened, is, rfl, hw.noClose⟩)
        simpa using huser
    · rw [if_neg hlast]
      exact does_writeAll hr ⟨hfail, hopened, hw.noClose⟩ _ _ _ _

/-- The file was closed. -/
theorem WritesFile.kept_closing {err : Option Err} {r : Reply}
    (hcl : Closing host c path err fd is rs) : Kept c is (rs ++ [(.close fd, r)]) := by
  obtain ⟨before, rfl, hbefore⟩ := hcl.issued
  refine kept_of_close hbefore ?_ (h.userFd.trans hcl.path)
  rw [opened_concat, hcl.opened]
  rfl

theorem WritesFile.step_closing {r : Reply} (hr : Ready host path data options)
    (hcl : Closing host c path none fd is rs) :
    (writeChain host c path data options).Does []
      (exec (apply host .user r.args) (idle [] s is (rs ++ [(.close fd, r)]))) := by
  have hp : c.pathError = none := h.pathError.trans hr.1
  rw [apply]
  refine Chain.does_answer ⟨?_, h.kept_closing hcl, fun _ => hr.2⟩
  cases r with
  | error n => exact right_of_failure hp (by simp [hcl.failure])
  | ok ret d st =>
    refine right_of_result hp (by simp [hcl.failure, h.stepError]) ?_
    rw [h.result, hcl.path]
    simp [lastReply, Reply.ret]

theorem WritesFile.step_closingAfter {err : Err} {r : Reply} (hr : Ready host path data options)
    (hcl : Closing host c path (some err) fd is rs) :
    (writeChain host c path data options).Does []
      (exec (apply host (.writeAllAfterClose err) r.args)
        (idle [] s is (rs ++ [(.close fd, r)]))) := by
  rw [apply]
  refine Chain.does_answer ⟨?_, h.kept_closing hcl, fun _ => hr.2⟩
  exact right_of_failure (h.pathError.trans hr.1) (by simp [hcl.failure])

theorem WritesFile.steps : (writeChain host c path data options).Steps [] (program host) where
  complete := by
    intro call k s is rs r hpending hfits
    cases hpending with
    | opening hfd hnull => exact h.step_opening hfd hnull
    | writing hr hw => exact .inl (h.step_writing hr hw)
    | closing hr hcl => exact .inl (h.step_closing hr hcl)
    | closingAfter hr hcl => exact .inl (h.step_closingAfter hr hcl)
  tick := by
    rintro k a s is rs ⟨⟨flag, rfl⟩, rfl, hnull, rfl, rfl⟩
    have hp : c.pathError = some nullBytesError := by
      rw [h.pathError, Path.nullError, if_pos hnull]
    simp only [program, apply]
    exact Chain.does_answer ⟨right_of_pathError hp, noClose_nil.kept rfl, fun hne => absurd rfl hne⟩
  broken hb he := absurd he (hb.1.not_enabled _)

/-- What the call did before it returned. -/
theorem WritesFile.holds_start (hl : c.Completes host l) :
    (writeChain host c path data options).Holds [] (c.start host).2 := by
  have hstart := h.start
  rw [writeFileWith] at hstart
  cases hfd : isFd path with
  | some fd =>
    simp only [hfd] at hstart
    have hnull : path.nullError = none := nullError_of_isFd hfd
    obtain ⟨b, hb, -⟩ := hl.accepted.exists_ok hstart rfl
    have hw : Writing host c path fd [] [] := ⟨rfl, by simp [hfd], noClose_nil⟩
    rw [hstart]
    have hdoes := does_writeFd (s := ⟨[], newContext false none⟩) hnull hw hb
      (options.flag.getD (.string ['w']))
    rw [hfd] at hdoes
    exact hdoes.holds
  | none =>
    simp only [hfd, openPath, nullCheck] at hstart
    cases hnull : path.hasNull with
    | true =>
      rw [hnull, if_pos rfl] at hstart
      rw [hstart]
      exact .deferred ⟨⟨_, rfl⟩, rfl, hnull, rfl, rfl⟩
    | false =>
      rw [hnull, if_neg Bool.false_ne_true] at hstart
      obtain ⟨flags, -, hstart⟩ := hl.accepted.exists_ok hstart rfl
      rw [hstart]
      exact .pending (.opening hfd (by simp [Path.nullError, hnull]))

/-- A call of `writeFile` answers once, and takes care of file descriptors, unless it
    opened a file and the data could not be converted. -/
theorem WritesFile.complete (hl : c.Completes host l) :
    (AnsweredOnce host c l ↔
      (opened l.replies ≠ [] → (data.toBuffer host options.encoding).isOk)) ∧
    (Kept c l.issued l.replies ↔
      (opened l.replies ≠ [] → (data.toBuffer host options.encoding).isOk)) := by
  have hholds := (h.holds_start hl).reachable h.steps hl.reachable
  rcases hholds.exists_answer exists_fits hl.halted with ⟨a, ha, hright, hkept, hconv⟩ | hbroken
  · exact ⟨iff_of_true ⟨a, ha, hright⟩ hconv, iff_of_true hkept hconv⟩
  · obtain ⟨-, hanswers, hnc, hopened, hconv⟩ := hbroken
    refine ⟨iff_of_false ?_ fun hall => hconv (hall hopened),
      iff_of_false (hnc.not_kept hopened) fun hall => hconv (hall hopened)⟩
    rintro ⟨a, ha, -⟩
    simp [hanswers] at ha

end Steps

/-! ## `writeFile` and `appendFile` -/

/-- The flag in the options of a call, `dflt` if there is none. -/
def OptionsArg.flag (dflt : Flag) : OptionsArg → Flag
  | object options => options.flag.getD dflt
  | _ => dflt

theorem flag_of_getOptions {arg : OptionsArg} {dflt o : Options} {flag : Flag}
    (hdflt : dflt.flag = some flag) (h : getOptions host arg dflt = .ok o) :
    o.flag.getD flag = arg.flag flag := by
  cases arg with
  | missing =>
    rw [← Except.ok.inj h, hdflt]
    rfl
  | string e =>
    rw [eq_of_checked h, hdflt]
    rfl
  | object o' =>
    rw [eq_of_checked h]
    rfl
  | other type => cases h

section Start

variable {arg : OptionsArg}

/-- What a call of `writeFile` does before it returns, unless its options are rejected. -/
theorem start_writeFile (hc : (Call.writeFile path data arg).Accepted host) :
    ∃ o, (Call.writeFile path data arg).start host =
        exec (writeFileWith host path data o) (idle [] ⟨[], newContext false none⟩ [] []) ∧
      o.encoding = arg.encoding (some "utf8".toList) ∧
      o.flag.getD (.string ['w']) = arg.flag (.string ['w']) := by
  obtain ⟨o, ho, hstart⟩ := hc.exists_ok rfl rfl
  exact ⟨o, hstart, encoding_of_getOptions ho, flag_of_getOptions rfl ho⟩

/-- What a call of `appendFile` does before it returns: it is one of `writeFile`. -/
theorem start_appendFile (hc : (Call.appendFile path data arg).Accepted host) :
    ∃ o, (Call.appendFile path data arg).start host =
        exec (writeFileWith host path data o) (idle [] ⟨[], newContext false none⟩ [] []) ∧
      o.encoding = arg.encoding (some "utf8".toList) ∧
      o.flag.getD (.string ['w']) =
        if (isFd path).isSome then .string ['a'] else arg.flag (.string ['a']) := by
  obtain ⟨o, ho, hstart⟩ := hc.exists_ok rfl rfl
  -- the options are checked again by `writeFile`
  obtain ⟨o', ho', hstart'⟩ := hc.exists_ok hstart rfl
  refine ⟨o', hstart', ?_, ?_⟩
  · rw [encoding_of_getOptions ho']
    exact encoding_of_getOptions ho
  · have hflag := flag_of_getOptions rfl ho
    rw [flag_of_getOptions rfl ho', ← hflag]
    by_cases huser : (isFd path).isSome
    · simp [OptionsArg.flag, huser]
    · cases o.flag <;> simp [OptionsArg.flag, huser]

end Start

theorem writesFile_writeFile {arg : OptionsArg}
    (hl : (Call.writeFile path data arg).Completes host l) :
    ∃ o, WritesFile host (.writeFile path data arg) path data o ∧
      o.encoding = arg.encoding (some "utf8".toList) := by
  obtain ⟨o, hstart, hencoding, -⟩ := start_writeFile hl.accepted
  refine ⟨o, ⟨hstart, rfl, ?_, fun _ => rfl, rfl⟩, hencoding⟩
  intro call _ _ _
  cases call <;> rfl

theorem writesFile_appendFile {arg : OptionsArg}
    (hl : (Call.appendFile path data arg).Completes host l) :
    ∃ o, WritesFile host (.appendFile path data arg) path data o ∧
      o.encoding = arg.encoding (some "utf8".toList) := by
  obtain ⟨o, hstart, hencoding, -⟩ := start_appendFile hl.accepted
  refine ⟨o, ⟨hstart, rfl, ?_, fun _ => rfl, rfl⟩, hencoding⟩
  intro call _ _ _
  cases call <;> rfl

section Complete

variable {arg : OptionsArg}

theorem writeFile_complete (hl : (Call.writeFile path data arg).Completes host l) :
    (AnsweredOnce host (.writeFile path data arg) l ↔
      (Call.writeFile path data arg).Answers host l.replies) ∧
    (Kept (.writeFile path data arg) l.issued l.replies ↔
      (Call.writeFile path data arg).Keeps host l.replies) := by
  obtain ⟨o, ho, hencoding⟩ := writesFile_writeFile hl
  have hcomplete := ho.complete hl
  rwa [hencoding] at hcomplete

theorem appendFile_complete (hl : (Call.appendFile path data arg).Completes host l) :
    (AnsweredOnce host (.appendFile path data arg) l ↔
      (Call.appendFile path data arg).Answers host l.replies) ∧
    (Kept (.appendFile path data arg) l.issued l.replies ↔
      (Call.appendFile path data arg).Keeps host l.replies) := by
  obtain ⟨o, ho, hencoding⟩ := writesFile_appendFile hl
  have hcomplete := ho.complete hl
  rwa [hencoding] at hcomplete

end Complete

/-! ## `truncate` -/

/-- The chain of `truncate`. It breaks once the file is open. -/
def truncateChain (host : Host) (path : Path) (len : ℤ) : Chain Mem Syscall Reply Cb Args where
  Pending call k _ is rs := path.nullError = none ∧ (∃ p flags mode, call = .openat p flags mode) ∧
    k = .truncateAfterOpen len ∧ is = [call] ∧ rs = []
  Deferred k a _ is rs := path.nullError = some nullBytesError ∧ k = .truncateAfterOpen len ∧
    a = ⟨some nullBytesError, []⟩ ∧ is = [] ∧ rs = []
  Answered a _ is rs := Right host (.truncate path len) rs a ∧ NoClose is ∧ opened rs = []
  Broken l := l.Inert ∧ l.answers = [] ∧ NoClose l.issued ∧ opened l.replies ≠ []

theorem steps_truncate (len : ℤ) : (truncateChain host path len).Steps [] (program host) where
  complete := by
    rintro call k s is rs r ⟨hp, ⟨p, flags, mode, rfl⟩, rfl, rfl, rfl⟩ -
    have hnc : NoClose [.openat p flags mode] := noClose_nil.concat (by simp)
    simp only [program, apply]
    cases r with
    | error n => exact .inl (Chain.does_answer ⟨right_of_failure hp rfl, hnc, rfl⟩)
    | ok fd d st =>
      right
      exact ⟨⟨rfl, rfl⟩, rfl, hnc, List.cons_ne_nil _ _⟩
  tick := by
    rintro k a s is rs ⟨hp, rfl, rfl, rfl, rfl⟩
    simp only [program, apply]
    exact Chain.does_answer ⟨right_of_pathError hp, noClose_nil, rfl⟩
  broken hb he := absurd he (hb.1.not_enabled _)

theorem stringToFlags_rdwr : stringToFlags (.string "r+".toList) = .ok oRdwr := by decide

/-- Given a number, `truncate` throws; otherwise it opens the file. -/
theorem holds_start_truncate {len : ℤ} (hl : (Call.truncate path len).Completes host l) :
    (truncateChain host path len).Holds [] ((Call.truncate path len).start host).2 := by
  have hstart : (Call.truncate path len).start host =
      exec (openPath path (.string "r+".toList) .other (.truncateAfterOpen len))
        (idle [] ⟨[], newContext false none⟩ [] []) := by
    cases path with
    | number n =>
      have hstart : (Call.truncate (.number n) len).start host =
          (.error unimplementedError, idle [] ⟨[], newContext false none⟩ [] []) := rfl
      exact (hl.accepted.not_error hstart rfl).elim
    | _ => rfl
  simp only [openPath, nullCheck] at hstart
  rw [hstart]
  cases hnull : path.hasNull with
  | true =>
    rw [if_pos rfl]
    exact .deferred ⟨by simp [Path.nullError, hnull], rfl, rfl, rfl, rfl⟩
  | false =>
    rw [if_neg Bool.false_ne_true]
    simp only [stringToFlags_rdwr, EventLoop.exec_bind, exec_ofExcept]
    exact .pending ⟨by simp [Path.nullError, hnull], ⟨_, _, _, rfl⟩, rfl, rfl, rfl⟩

/-- A call of `truncate` answers, and takes care of file descriptors, only if it could
    not open the file. -/
theorem truncate_complete {len : ℤ} (hl : (Call.truncate path len).Completes host l) :
    (AnsweredOnce host (.truncate path len) l ↔ opened l.replies = []) ∧
    (Kept (.truncate path len) l.issued l.replies ↔ opened l.replies = []) := by
  have hholds := (holds_start_truncate hl).reachable (steps_truncate len) hl.reachable
  rcases hholds.exists_answer exists_fits hl.halted with ⟨a, ha, hright, hnc, hopened⟩ | hbroken
  · exact ⟨iff_of_true ⟨a, ha, hright⟩ hopened, iff_of_true (hnc.kept hopened) hopened⟩
  · obtain ⟨-, hanswers, hnc, hopened⟩ := hbroken
    refine ⟨iff_of_false ?_ hopened, iff_of_false (hnc.not_kept hopened) hopened⟩
    rintro ⟨a, ha, -⟩
    simp [hanswers] at ha

end Fs

end NodeLkl
