import NodeLkl.Fs.Spec

/-!
# Calls issuing one system call

Most functions of `fs` issue one system call, or none, and their callback answers:
they answer once (`answeredOnce_of_simple`). But `binding.fstat` calls its callback
twice when it fails, unless it throws the first time (`answeredOnce_fstat_iff`).
-/

namespace NodeLkl

namespace Fs

open EventLoop (issue defer answer exec idle settle)

variable {host : Host} {c : Call} {l : Loop}

/-! ## Runs of one step -/

/-- A computation answered `a`, and left nothing pending. -/
structure AnswersWith (l : Loop) (a : Args) (log : Log) : Prop where
  inert : l.Inert
  answers : l.answers = [a]
  replies : l.replies = log

theorem AnswersWith.settle {x : Except Err Unit × Loop} {a : Args} {log : Log}
    (h : AnswersWith x.2 a log) : AnswersWith (EventLoop.settle x) a log :=
  ⟨by simpa using h.inert, by simpa using h.answers, by simpa using h.replies⟩

theorem AnswersWith.answeredOnce {l : Loop} {a : Args} {log : Log} (h : AnswersWith l a log)
    (hright : Right host c log a) : AnsweredOnce host c l :=
  ⟨a, h.answers, h.replies.symm ▸ hright⟩

theorem answersWith_callback (a : Args) (s : Mem) (is : List Syscall) (log : Log) :
    AnswersWith (exec (callback host a) (idle [] s is log)).2 a log := by
  rw [callback, EventLoop.exec_answer]
  exact ⟨⟨rfl, rfl⟩, rfl, rfl⟩

/-- The last callback of a call answers. -/
theorem answeredOnce_of_pending (hl : c.Completes host l) {call : Syscall} {k : Cb} {s : Mem}
    {is : List Syscall} (hstart : (c.start host).2 = ⟨s, [(call, k)], [], false, is, [], []⟩)
    (h : ∀ r, Fits call r → ∃ a, Right host c [(call, r)] a ∧
      AnswersWith (exec (apply host k r.args) (idle [] (s.receive call r) is [(call, r)])).2
        a [(call, r)]) :
    AnsweredOnce host c l := by
  obtain ⟨r, hr, rfl⟩ := EventLoop.exists_reply (p := program host) is [] [] (exists_fits call)
    (fun r hr => (h r hr).elim fun _ ha => ha.2.settle.inert) (hstart ▸ hl.reachable) hl.halted
  obtain ⟨a, hright, ha⟩ := h r hr
  exact ha.settle.answeredOnce hright

theorem answeredOnce_of_deferred (hl : c.Completes host l) {k : Cb} {a : Args} {s : Mem}
    {is : List Syscall} (hstart : (c.start host).2 = ⟨s, [], [(k, a)], false, is, [], []⟩)
    (h : ∃ a', Right host c [] a' ∧
      AnswersWith (exec (apply host k a) (idle [] s is [])).2 a' []) :
    AnsweredOnce host c l := by
  obtain ⟨a', hright, ha⟩ := h
  rw [EventLoop.eq_of_deferred (p := program host) ha.inert (hstart ▸ hl.reachable) hl.halted]
  exact ha.answeredOnce hright

/-! ## Calls answering the number returned -/

/-- The callback of the user is given the result of the system call. -/
theorem answeredOnce_user (hl : c.Completes host l) {call : Syscall} {s : Mem}
    {is : List Syscall} (hstart : (c.start host).2 = ⟨s, [(call, .user)], [], false, is, [], []⟩)
    (hp : c.pathError = none) (hstep : ∀ r d st, stepError host c (call, .ok r d st) = none)
    (hres : ∀ log, c.result host log = .ok [.number (lastReply log).ret]) :
    AnsweredOnce host c l := by
  refine answeredOnce_of_pending hl hstart fun r _ => ⟨r.args, ?_, answersWith_callback _ _ _ _⟩
  cases r with
  | error n => exact right_of_failure hp (by simp [failure])
  | ok ret d st => exact right_of_result hp (by simp [failure, hstep]) (hres _)

/-- A call checking a path, and issuing a system call. -/
theorem answeredOnce_nullCheck (hl : c.Completes host l) {path : Path} {call : Syscall}
    (hmain : c.main host = nullCheck path .user (issue call .user))
    (hp : c.pathError = path.nullError)
    (hstep : ∀ r d st, stepError host c (call, .ok r d st) = none)
    (hres : ∀ log, c.result host log = .ok [.number (lastReply log).ret]) :
    AnsweredOnce host c l := by
  have hstart : c.start host = exec (nullCheck path .user (issue call .user))
      (idle [] ⟨[], newContext false none⟩ [] []) := by rw [Call.start, hmain]
  rw [nullCheck] at hstart
  rw [Path.nullError] at hp
  split at hp
  · next hnull =>
    rw [if_pos hnull] at hstart
    exact answeredOnce_of_deferred hl (congrArg Prod.snd hstart)
      ⟨_, right_of_pathError hp, answersWith_callback _ _ _ _⟩
  · next hnull =>
    rw [if_neg hnull] at hstart
    exact answeredOnce_user hl (congrArg Prod.snd hstart) hp hstep hres

theorem answeredOnce_openPath {path : Path} {flags : Flag} {mode : Mode}
    (hl : (Call.openPath path flags mode).Completes host l) :
    AnsweredOnce host (.openPath path flags mode) l := by
  cases hflags : stringToFlags flags with
  | ok n =>
    have hmain : (Call.openPath path flags mode).main host = nullCheck path .user
        (issue (.openat (Binding.addNullTerminationIfNeeded path) n (modeNum mode 0o666))
          .user) := by
      simp only [Call.main, openPath, hflags]
      rfl
    exact answeredOnce_nullCheck hl hmain rfl (fun _ _ _ => rfl) (fun _ => rfl)
  | error e => cases hnull : path.hasNull with
    | true =>
      have hstart : ((Call.openPath path flags mode).start host).2 =
          ⟨⟨[], newContext false none⟩, [], [(.user, ⟨some nullBytesError, []⟩)], false, [], [],
            []⟩ := by
        simp [Call.start, Call.main, openPath, nullCheck, hnull, idle]
      refine answeredOnce_of_deferred hl hstart
        ⟨_, right_of_pathError ?_, answersWith_callback _ _ _ _⟩
      simp [Call.pathError, Path.nullError, hnull]
    | false =>
      -- the flag is rejected
      have hstart : (Call.openPath path flags mode).start host =
          (.error e, idle [] ⟨[], newContext false none⟩ [] []) := by
        simp [Call.start, Call.main, openPath, nullCheck, hnull, hflags]
      exact (hl.accepted.not_error hstart rfl).elim

/-! ## Transfers -/

/-- A transfer is at a position, or at that of the file. -/
theorem transferCall_eq_or (atPosition : Slice → ℤ → Syscall) (sequential : Slice → Syscall)
    (s : Slice) (position : Option ℤ) :
    Binding.transferCall atPosition sequential s position = sequential s ∨
      ∃ p, Binding.transferCall atPosition sequential s position = atPosition s p := by
  cases position with
  | none => exact .inl rfl
  | some p =>
    by_cases hp : p ≠ -1
    · exact .inr ⟨p, if_pos hp⟩
    · exact .inl (if_neg hp)

section Transfers

variable {fd : ℤ} {s : Slice} {position : Option ℤ} {ret : ℕ} {data : Bytes} {st : LklStat}

theorem length_data_of_fits
    (h : Fits (Binding.transferCall (.pread64 fd) (.read fd) s position) (.ok ret data st)) :
    data.length = ret := by
  rcases transferCall_eq_or (.pread64 fd) (.read fd) s position with heq | ⟨p, heq⟩ <;>
  · rw [heq] at h
    exact h.1

theorem receive_read (m : Mem) :
    m.receive (Binding.transferCall (.pread64 fd) (.read fd) s position) (.ok ret data st) =
      m.fill s data := by
  rcases transferCall_eq_or (.pread64 fd) (.read fd) s position with heq | ⟨p, heq⟩ <;> rw [heq] <;>
    rfl

theorem receive_write (m : Mem) :
    m.receive (Binding.transferCall (.pwrite64 fd) (.write fd) s position) (.ok ret data st) =
      m := by
  rcases transferCall_eq_or (.pwrite64 fd) (.write fd) s position with heq | ⟨p, heq⟩ <;>
    rw [heq] <;> rfl

theorem receive_error (m : Mem) (call : Syscall) (n : ℕ) : m.receive call (.error n) = m := by
  cases call <;> rfl

theorem stepError_read :
    stepError host c
      (Binding.transferCall (.pread64 fd) (.read fd) s position, .ok ret data st) = none := by
  rcases transferCall_eq_or (.pread64 fd) (.read fd) s position with heq | ⟨p, heq⟩ <;> rw [heq] <;>
    rfl

theorem stepError_write :
    stepError host c
      (Binding.transferCall (.pwrite64 fd) (.write fd) s position, .ok ret data st) = none := by
  rcases transferCall_eq_or (.pwrite64 fd) (.write fd) s position with heq | ⟨p, heq⟩ <;>
    rw [heq] <;> rfl

end Transfers

/-- What is in the only buffer there is, after a read. -/
theorem buf_fill (b : Buf) (context : ReadFileContext) (i n : ℕ) (data : Bytes) :
    (Mem.fill ⟨[.bytes b], context⟩ ⟨0, i, n⟩ data).buf 0 =
      b.take i ++ ofBytes data ++ b.drop (i + data.length) := rfl

theorem answeredOnce_read {fd : ℤ} {buffer : Buf} {offset length : ℤ} {position : Option ℤ}
    (hl : (Call.read fd buffer offset length position).Completes host l) :
    AnsweredOnce host (.read fd buffer offset length position) l := by
  by_cases hlength : length = 0
  · have hstart : ((Call.read fd buffer offset length position).start host).2 =
        ⟨⟨[.bytes buffer], newContext false none⟩, [],
          [(.user, ⟨none, [.number 0, .buffer buffer]⟩)], false, [], [], []⟩ := by
      simp [Call.start, Call.main, read, readInto, idle, hlength, Mem.buf]
    refine answeredOnce_of_deferred hl hstart
      ⟨_, right_of_result rfl rfl ?_, answersWith_callback _ _ _ _⟩
    simp [Call.result, lastReply, Reply.ret, Reply.data, ofBytes]
  · obtain ⟨n, hstart⟩ : ∃ n, ((Call.read fd buffer offset length position).start host).2 =
        ⟨⟨[.bytes buffer], newContext false none⟩,
          [(Binding.transferCall (.pread64 fd) (.read fd)
            ⟨0, adjustOffset offset buffer.length, n⟩ position, .readWrapper .user 0)], [], false,
          [Binding.transferCall (.pread64 fd) (.read fd)
            ⟨0, adjustOffset offset buffer.length, n⟩ position], [], []⟩ := by
      refine ⟨adjustOffset (offset + length) buffer.length - adjustOffset offset buffer.length, ?_⟩
      simp [Call.start, Call.main, read, readInto, idle, hlength, Mem.buf, Binding.read,
        Binding.transfer]
    refine answeredOnce_of_pending hl hstart fun r hr => ⟨_, ?_, answersWith_callback _ _ _ _⟩
    cases r with
    | error n => exact right_of_failure rfl (by simp [failure])
    | ok ret data st =>
      refine right_of_result rfl (by simp [failure, stepError_read]) ?_
      rw [receive_read]
      rfl

/-- What was read is what the buffer starts with. -/
theorem take_buf_fill (n i : ℕ) (context : ReadFileContext) (data : Bytes) :
    ((Mem.fill ⟨[.bytes (List.replicate n none)], context⟩ ⟨0, 0, i⟩ data).buf 0).take data.length =
      ofBytes data := by
  rw [buf_fill, List.take_zero, List.nil_append, List.take_left' (by simp [ofBytes])]

theorem answeredOnce_readString {fd : ℤ} {length : ℕ} {position : Option ℤ}
    {encoding : Option Encoding}
    (hl : (Call.readString fd length position encoding).Completes host l) :
    AnsweredOnce host (.readString fd length position encoding) l := by
  cases hencoding : assertEncoding host encoding with
  | error e =>
    have hstart : (Call.readString fd length position encoding).start host =
        (.error e, idle [] ⟨[], newContext false none⟩ [] []) := by
      simp [Call.start, Call.main, readString, hencoding]
    exact (hl.accepted.not_error hstart rfl).elim
  | ok _ =>
    by_cases hlength : length = 0
    · have hstart : ((Call.readString fd length position encoding).start host).2 =
          ⟨⟨[.bytes (List.replicate length none)], newContext false none⟩, [],
            [(.readString encoding 0, ⟨none, [.number 0, .buffer (List.replicate length none)]⟩)],
            false, [], [], []⟩ := by
        simp [Call.start, Call.main, readString, readInto, idle, hencoding, hlength, Mem.buf]
      exact answeredOnce_of_deferred hl hstart
        ⟨_, right_of_result rfl rfl rfl, answersWith_callback _ _ _ _⟩
    · obtain ⟨n, hstart⟩ : ∃ n, ((Call.readString fd length position encoding).start host).2 =
          ⟨⟨[.bytes (List.replicate length none)], newContext false none⟩,
            [(Binding.transferCall (.pread64 fd) (.read fd) ⟨0, 0, n⟩ position,
              .readWrapper (.readString encoding 0) 0)], [], false,
            [Binding.transferCall (.pread64 fd) (.read fd) ⟨0, 0, n⟩ position], [], []⟩ := by
        refine ⟨length, ?_⟩
        simp [Call.start, Call.main, readString, readInto, idle, hencoding, hlength, Mem.buf,
          Binding.read, Binding.transfer]
      refine answeredOnce_of_pending hl hstart fun r hr => ?_
      cases r with
      | error n => exact ⟨_, right_of_failure rfl (by simp [failure]), answersWith_callback _ _ _ _⟩
      | ok ret data st =>
        have hfail : failure host (.readString fd length position encoding)
            [(Binding.transferCall (.pread64 fd) (.read fd) ⟨0, 0, n⟩ position,
              .ok ret data st)] = none := by
          simp [failure, stepError_read]
        obtain rfl : data.length = ret := length_data_of_fits hr
        rw [receive_read]
        by_cases hdata : data = []
        · subst hdata
          exact ⟨_, right_of_result rfl hfail rfl, answersWith_callback _ _ _ _⟩
        · have hpos : 0 < data.length := List.length_pos_of_ne_nil hdata
          cases hstr : host.bufferToString encoding (ofBytes data) with
          | ok str =>
            refine ⟨⟨none, [.string str, .number data.length]⟩, right_of_result rfl hfail ?_, ?_⟩
            · simp [Call.result, lastReply, Reply.ret, Reply.data, hdata, hstr, Except.map]
            · simp only [apply, EventLoop.exec_bind, exec_getBuf, Reply.args, Args.num, gt_iff_lt,
                if_pos hpos, tryToStringWithEnd, idle, take_buf_fill, hstr]
              exact answersWith_callback _ _ _ _
          | error e =>
            refine ⟨⟨some e, [.buffer (Mem.buf (Mem.fill ⟨[.bytes (List.replicate length none)],
              newContext false none⟩ ⟨0, 0, n⟩ data) 0), .number data.length]⟩,
              right_of_result_error rfl hfail ?_, ?_⟩
            · simp [Call.result, lastReply, Reply.ret, Reply.data, hdata, hstr, Except.map]
            · simp only [apply, EventLoop.exec_bind, exec_getBuf, Reply.args, Args.num, gt_iff_lt,
                if_pos hpos, tryToStringWithEnd, idle, take_buf_fill, hstr]
              exact answersWith_callback _ _ _ _

theorem answeredOnce_write {fd : ℤ} {buffer : Bytes} {offset length position : Option ℤ}
    (hl : (Call.write fd buffer offset length position).Completes host l) :
    AnsweredOnce host (.write fd buffer offset length position) l := by
  obtain ⟨s, hstart⟩ : ∃ s, ((Call.write fd buffer offset length position).start host).2 =
      ⟨⟨[.bytes (ofBytes buffer)], newContext false none⟩,
        [(Binding.transferCall (.pwrite64 fd) (.write fd) s position, .writeWrapper .user 0)], [],
        false, [Binding.transferCall (.pwrite64 fd) (.write fd) s position], [], []⟩ :=
    ⟨_, rfl⟩
  refine answeredOnce_of_pending hl hstart fun r _ => ⟨_, ?_, answersWith_callback _ _ _ _⟩
  cases r with
  | error n => exact right_of_failure rfl (by simp [failure])
  | ok ret data st =>
    refine right_of_result rfl (by simp [failure, stepError_write]) ?_
    rw [receive_write]
    rfl

/-! ## `fstat` -/

theorem exec_fstat_ok (k : Cb) (buf : Addr) (ret : ℕ) (data : Bytes) (st : LklStat) (l : Loop) :
    exec (apply host (.fstat k buf) (Reply.ok ret data st).args) l =
      exec (apply host k ⟨none, [.stats (parseLklStat (l.state.stat buf))]⟩) l := by
  simp only [apply, Reply.args, EventLoop.exec_bind, EventLoop.exec_get]

/-- After an error, the callback is called with it, and then again. -/
theorem exec_fstat_error (k : Cb) (buf : Addr) (n : ℕ) (l : Loop) :
    exec (apply host (.fstat k buf) (Reply.error n).args) l =
      match exec (apply host k ⟨some (.errno n), []⟩) l with
      | (.ok _, l') =>
        exec (apply host k ⟨none, [.stats (parseLklStat (l'.state.stat buf))]⟩) l'
      | (.error e, l') => (.error e, l') := by
  simp only [apply, Reply.args, EventLoop.exec_bind]
  rcases exec (apply host k ⟨some (.errno n), []⟩) l with ⟨_ | _, _⟩ <;> rfl

/-- What `fs.fstat` does with the result of its system call. -/
def fstatDone (host : Host) (fd : ℤ) (r : Reply) : Loop :=
  settle (exec (apply host (.fstat .user 0) r.args)
    (idle [] (Mem.receive ⟨[.stat .zero], newContext false none⟩ (.fstat fd 0) r) [.fstat fd 0]
      [(.fstat fd 0, r)]))

theorem answersWith_fstatDone_ok (fd : ℤ) (ret : ℕ) (data : Bytes) (st : LklStat) :
    AnswersWith (fstatDone host fd (.ok ret data st)) ⟨none, [.stats (parseLklStat st)]⟩
      [(.fstat fd 0, .ok ret data st)] := by
  rw [fstatDone, exec_fstat_ok]
  exact (answersWith_callback _ _ _ _).settle

theorem answersWith_fstatDone_throws (fd : ℤ) (n : ℕ) {e : Err} (h : host.throws 0 = some e) :
    AnswersWith (fstatDone host fd (.error n)) ⟨some (.errno n), []⟩
      [(.fstat fd 0, .error n)] := by
  rw [fstatDone, exec_fstat_error]
  simp only [apply, callback, EventLoop.exec_answer, idle, List.length_nil, h]
  exact ⟨⟨rfl, rfl⟩, rfl, rfl⟩

/-- Unless the callback throws, it is called twice. -/
theorem fstatDone_error (fd : ℤ) (n : ℕ) (h : host.throws 0 = none) :
    (fstatDone host fd (.error n)).Inert ∧
      (fstatDone host fd (.error n)).answers =
        [⟨some (.errno n), []⟩, ⟨none, [.stats (parseLklStat .zero)]⟩] ∧
      (fstatDone host fd (.error n)).replies = [(.fstat fd 0, .error n)] := by
  rw [fstatDone, exec_fstat_error]
  simp only [apply, callback, EventLoop.exec_answer, idle, List.length_nil, h]
  refine ⟨EventLoop.inert_settle.2 ⟨rfl, rfl⟩, ?_, ?_⟩
  · rw [EventLoop.settle_answers]
    rfl
  · rw [EventLoop.settle_replies]

theorem fstatFailed_fstat (fd : ℤ) (r : Reply) :
    FstatFailed [(.fstat fd 0, r)] ↔ ∃ n, r = .error n := by
  constructor
  · rintro ⟨fd', buf, n, hmem⟩
    simp only [List.mem_singleton, Prod.mk.injEq] at hmem
    exact ⟨n, hmem.2.symm⟩
  · rintro ⟨n, rfl⟩
    exact ⟨fd, 0, n, List.mem_singleton.2 rfl⟩

/-- The callback is called a second time after an error, unless it throws. -/
theorem answeredOnce_fstatDone_iff (fd : ℤ) (r : Reply) :
    (fstatDone host fd r).Inert ∧ (AnsweredOnce host (.fstat fd) (fstatDone host fd r) ↔
      (Call.fstat fd).Answers host (fstatDone host fd r).replies) := by
  cases r with
  | ok ret data st =>
    have h : AnswersWith (fstatDone host fd (.ok ret data st)) _ _ :=
      answersWith_fstatDone_ok fd ret data st
    refine ⟨h.inert, iff_of_true (h.answeredOnce (right_of_result rfl rfl rfl)) ?_⟩
    rw [h.replies, Call.Answers, fstatFailed_fstat]
    simp
  | error n => cases hthrows : host.throws 0 with
    | some e =>
      have h := answersWith_fstatDone_throws fd n hthrows
      refine ⟨h.inert, iff_of_true (h.answeredOnce (right_of_failure rfl rfl)) ?_⟩
      exact fun _ => by simp [hthrows]
    | none =>
      obtain ⟨hinert, hanswers, hreplies⟩ := fstatDone_error fd n hthrows
      refine ⟨hinert, iff_of_false ?_ ?_⟩
      · rintro ⟨a, ha, -⟩
        simp [hanswers] at ha
      · rw [hreplies, Call.Answers, fstatFailed_fstat]
        simp [hthrows]

theorem answeredOnce_fstat_iff {fd : ℤ} (hl : (Call.fstat fd).Completes host l) :
    AnsweredOnce host (.fstat fd) l ↔ (Call.fstat fd).Answers host l.replies := by
  have hstart : ((Call.fstat fd).start host).2 =
      ⟨⟨[.stat .zero], newContext false none⟩, [(.fstat fd 0, .fstat .user 0)], [], false,
        [.fstat fd 0], [], []⟩ := rfl
  obtain ⟨r, -, rfl⟩ := EventLoop.exists_reply (p := program host) (k := .fstat .user 0)
    (s := ⟨[.stat .zero], newContext false none⟩) [.fstat fd 0] [] [] (exists_fits _)
    (fun r _ => (answeredOnce_fstatDone_iff fd r).1) (hstart ▸ hl.reachable) hl.halted
  exact (answeredOnce_fstatDone_iff fd r).2

/-! ## All of them -/

/-- The calls that issue one system call. -/
def Call.Simple : Call → Prop
  | access _ _ | chmod _ _ | close _ | mkdir _ _ | openPath _ _ _ | read _ _ _ _ _
  | readString _ _ _ _ | rmdir _ | unlink _ | write _ _ _ _ _ => True
  | _ => False

/-- They answer once. -/
theorem answeredOnce_of_simple (hs : c.Simple) (hl : c.Completes host l) :
    AnsweredOnce host c l := by
  cases c with
  | access path mode | chmod path mode | mkdir path mode | rmdir path | unlink path =>
    exact answeredOnce_nullCheck hl rfl rfl (fun _ _ _ => rfl) (fun _ => rfl)
  | close fd => exact answeredOnce_user hl rfl rfl (fun _ _ _ => rfl) (fun _ => rfl)
  | openPath path flags mode => exact answeredOnce_openPath hl
  | read fd buffer offset length position => exact answeredOnce_read hl
  | readString fd length position encoding => exact answeredOnce_readString hl
  | write fd buffer offset length position => exact answeredOnce_write hl
  | _ => exact hs.elim

end Fs

end NodeLkl
