import NodeLkl.Fs.Spec

/-!
# Reading directories

`readdir` opens a directory, reads its entries until there are no more, closes it,
and answers with their names, decoded. The directory is closed once, whatever
happens. The callback of the user is called where the errors of decoding are
caught: if it throws, it is called again with what it threw
(`readdir_complete`).
-/

namespace NodeLkl

namespace Fs

open EventLoop (issue defer answer exec idle settle Chain)

variable {host : Host} {path : Path} {arg : OptionsArg} {l : Loop} {s : Mem} {is : List Syscall}
  {rs : Log} {fd : ℤ} {buf : Addr}

@[simp]
theorem namesRead_concat (log : Log) (x : Syscall × Reply) :
    namesRead (log ++ [x]) = namesRead log ++ namesRead [x] := by
  simp [namesRead]

/-! ## The chain of `readdir` -/

/-- Entries are being read, to `buf`. -/
structure Listing (host : Host) (path : Path) (arg : OptionsArg) (fd : ℤ) (buf : Addr)
    (result : List Bytes) (s : Mem) (issued : List Syscall) (log : Log) : Prop where
  failure : failure host (.readdir path arg) log = none
  opened : opened log = [fd]
  noClose : NoClose issued
  names : namesRead log = result
  heap : ∃ b, s.heap[buf]? = some (.bytes b)

/-- The directory is being closed. -/
structure Listed (host : Host) (path : Path) (arg : OptionsArg) (fd : ℤ) (err : Option Err)
    (result : List Bytes) (issued : List Syscall) (log : Log) : Prop where
  failure : failure host (.readdir path arg) log = err
  opened : opened log = [fd]
  issued : ∃ before, issued = before ++ [.close fd] ∧ NoClose before
  names : err = none → namesRead log = result

/-- The system calls of `readdir` and their callbacks. -/
inductive ReaddirPending (host : Host) (path : Path) (arg : OptionsArg) :
    Syscall → Cb → Mem → List Syscall → Log → Prop
  | opening {p flags mode s} : (Call.readdir path arg).pathError = none →
      ReaddirPending host path arg (.openat p flags mode) (.readdirAfterOpen (arg.encoding none)) s
        [.openat p flags mode] []
  | listing {fd buf result s is rs} : (Call.readdir path arg).pathError = none →
      Listing host path arg fd buf result s is rs →
      ReaddirPending host path arg (.getdents64 fd ⟨buf, 0, bufferSize⟩)
        (.listdir fd buf (arg.encoding none) result) s is rs
  | closing {fd err result s is rs} : (Call.readdir path arg).pathError = none →
      Listed host path arg fd err result is rs →
      ReaddirPending host path arg (.close fd)
        (.readdirAfterClose (arg.encoding none) err result) s is rs

/-- The chain of `readdir`. It breaks when the callback is called again. -/
def readdirChain (host : Host) (path : Path) (arg : OptionsArg) :
    Chain Mem Syscall Reply Cb Args where
  Pending := ReaddirPending host path arg
  Deferred k a _ is rs := (Call.readdir path arg).pathError = some nullBytesError ∧
    k = .user ∧ a = ⟨some nullBytesError, []⟩ ∧ is = [] ∧ rs = []
  Answered a _ is rs := Right host (.readdir path arg) rs a ∧ Kept (.readdir path arg) is rs ∧
    ((expected host (.readdir path arg) rs).isOk → host.throws 0 = none)
  Broken l := l.Inert ∧ l.answers.length = 2 ∧ Kept (.readdir path arg) l.issued l.replies ∧
    (expected host (.readdir path arg) l.replies).isOk ∧ host.throws 0 ≠ none

/-- An answer with an error. -/
theorem answered_of_error {e : Err} {vs : List Value} (hkept : Kept (.readdir path arg) is rs)
    (h : expected host (.readdir path arg) rs = .error e) :
    (readdirChain host path arg).Answered ⟨some e, vs⟩ s is rs := by
  refine ⟨by simp [Right, h], hkept, ?_⟩
  rw [h]
  exact fun hok => absurd hok Bool.false_ne_true

theorem stepError_readdir (call : Syscall) (ret : ℕ) (d : Bytes) (st : LklStat) :
    stepError host (.readdir path arg) (call, .ok ret d st) = none := by
  cases call <;> rfl

/-- The directory was opened, or not. -/
theorem step_opening_readdir {p : Path} {flags : ℕ} {mode : ℤ} (r : Reply)
    (hp : (Call.readdir path arg).pathError = none) :
    (readdirChain host path arg).Does []
      (exec (apply host (.readdirAfterOpen (arg.encoding none)) r.args)
        (idle [] s [.openat p flags mode] [(.openat p flags mode, r)])) := by
  have hnc : NoClose [.openat p flags mode] := noClose_nil.concat (by simp)
  rw [apply]
  cases r with
  | error n =>
    exact Chain.does_answer (answered_of_error (hnc.kept rfl) (expected_of_failure hp rfl))
  | ok fd d st =>
    refine Chain.Does.issue (.listing hp ⟨rfl, rfl, hnc.concat (by simp), rfl, ?_⟩)
    exact ⟨List.replicate bufferSize none, by simp [idle]⟩

/-- What `listdir` does with the number of bytes read. -/
theorem apply_listdir (encoding : Option Encoding) (result : List Bytes) (n : ℕ)
    (vs : List Value) :
    apply host (.listdir fd buf encoding result) ⟨none, .number n :: vs⟩ =
      if n > 0 then do
        let b ← getBuf buf
        listdir fd buf encoding (result ++ (parseDirent64 (b.take n)).getD [])
      else readdirListed fd encoding none result := by
  rw [apply]
  rfl

/-- Some entries were read, or none, or none could be. -/
theorem step_listing {result : List Bytes} {r : Reply}
    (hp : (Call.readdir path arg).pathError = none)
    (h : Listing host path arg fd buf result s is rs)
    (hr : Fits (.getdents64 fd ⟨buf, 0, bufferSize⟩) r) :
    (readdirChain host path arg).Does []
      (exec (apply host (.listdir fd buf (arg.encoding none) result) r.args)
        (idle [] (s.receive (.getdents64 fd ⟨buf, 0, bufferSize⟩) r) is
          (rs ++ [(.getdents64 fd ⟨buf, 0, bufferSize⟩, r)]))) := by
  have hopened : opened (rs ++ [(.getdents64 fd ⟨buf, 0, bufferSize⟩, r)]) = [fd] := by
    rw [opened_concat, h.opened]
    rfl
  cases r with
  | error n =>
    have hfail : failure host (.readdir path arg) (rs ++
        [(.getdents64 fd ⟨buf, 0, bufferSize⟩, .error n)]) = some (.errno n) := by
      simp [h.failure]
    rw [apply]
    exact Chain.Does.issue (.closing hp ⟨hfail, hopened, ⟨is, rfl, h.noClose⟩, by simp⟩)
  | ok ret data st =>
    obtain ⟨b, hb⟩ := h.heap
    obtain ⟨rfl, -, -⟩ : data.length = ret ∧ _ := hr
    have hfail : failure host (.readdir path arg) (rs ++
        [(.getdents64 fd ⟨buf, 0, bufferSize⟩, .ok data.length data st)]) = none := by
      simp [h.failure, stepError_readdir]
    have hnames : namesRead (rs ++
        [(.getdents64 fd ⟨buf, 0, bufferSize⟩, .ok data.length data st)]) =
        result ++ (parseDirent64 (ofBytes data)).getD [] := by
      rw [namesRead_concat, h.names]
      simp [namesRead, Reply.data]
    rw [Reply.args, apply_listdir]
    by_cases hdata : 0 < data.length
    · -- the buffer now starts with what was read
      have hheap := Mem.heap_fill_self 0 bufferSize data hb
      have htake : ((s.fill ⟨buf, 0, bufferSize⟩ data).buf buf).take data.length =
          ofBytes data := by
        rw [Mem.buf_of_heap hheap, List.take_zero, List.nil_append,
          List.take_left' (by simp [ofBytes])]
      rw [if_pos hdata]
      simp only [EventLoop.exec_bind, exec_getBuf, idle, Mem.receive, htake]
      exact Chain.Does.issue
        (.listing hp ⟨hfail, hopened, h.noClose.concat (by simp), hnames, _, hheap⟩)
    · obtain rfl : data = [] := by simpa using hdata
      rw [if_neg hdata]
      refine Chain.Does.issue (.closing hp ⟨hfail, hopened, ⟨is, rfl, h.noClose⟩, fun _ => ?_⟩)
      have hnil : (parseDirent64 (ofBytes [])).getD [] = [] := by simp [ofBytes, parseDirent64]
      rw [hnil, List.append_nil] at hnames
      exact hnames

/-- The directory was closed. -/
theorem kept_listed {err : Option Err} {result : List Bytes} {r : Reply}
    (h : Listed host path arg fd err result is rs) :
    Kept (.readdir path arg) is (rs ++ [(.close fd, r)]) := by
  obtain ⟨before, rfl, hbefore⟩ := h.issued
  refine kept_of_close hbefore ?_ rfl
  rw [opened_concat, h.opened]
  rfl

/-- The answer, and another one if the callback throws the first time. -/
theorem step_closing_readdir {err : Option Err} {result : List Bytes} {r : Reply}
    (hp : (Call.readdir path arg).pathError = none)
    (h : Listed host path arg fd err result is rs) :
    (readdirChain host path arg).Does []
      (exec (apply host (.readdirAfterClose (arg.encoding none) err result) r.args)
        (idle [] s is (rs ++ [(.close fd, r)]))) ∨
    (readdirChain host path arg).Broken
      (settle (exec (apply host (.readdirAfterClose (arg.encoding none) err result) r.args)
        (idle [] s is (rs ++ [(.close fd, r)])))) := by
  have hkept : Kept (.readdir path arg) is (rs ++ [(.close fd, r)]) := kept_listed h
  have hfail : failure host (.readdir path arg) (rs ++ [(.close fd, r)]) =
      (err <|> r.args.err) := by
    rw [failure_concat, h.failure]
    cases err <;> cases r <;> rfl
  rw [apply]
  cases herr : (err <|> r.args.err) with
  | some e =>
    exact .inl (Chain.does_answer
      (answered_of_error hkept (expected_of_failure hp (hfail.trans herr))))
  | none =>
    have hexpected : expected host (.readdir path arg) (rs ++ [(.close fd, r)]) =
        (decodeArray host result (arg.encoding none)).map ([·]) := by
      have hnone : err = none := by
        cases err with
        | none => rfl
        | some e => simp at herr
      rw [expected_of_not_failure hp (hfail.trans herr), Call.result, namesRead_concat,
        h.names hnone]
      simp [namesRead]
    simp only [EventLoop.exec_tryCatch, EventLoop.exec_bind, exec_ofExcept]
    cases hdecode : decodeArray host result (arg.encoding none) with
    | error e =>
      refine .inl (Chain.does_answer (answered_of_error hkept ?_))
      rw [hexpected, hdecode]
      rfl
    | ok names =>
      rw [hdecode] at hexpected
      have hok : (expected host (.readdir path arg) (rs ++ [(.close fd, r)])).isOk := by
        rw [hexpected]
        rfl
      simp only [callback, EventLoop.exec_answer, idle, List.length_nil]
      cases hthrows : host.throws 0 with
      | none =>
        refine .inl (Chain.Does.answer ⟨?_, hkept, fun _ => hthrows⟩)
        rw [Right, hexpected]
        rfl
      | some e =>
        right
        refine ⟨EventLoop.inert_settle.2 ⟨rfl, rfl⟩, ?_, ?_, ?_, by simp [hthrows]⟩
        · rw [EventLoop.settle_answers]
          rfl
        · rw [EventLoop.settle_issued, EventLoop.settle_replies]
          exact hkept
        · rw [EventLoop.settle_replies]
          exact hok

theorem steps_readdir : (readdirChain host path arg).Steps [] (program host) where
  complete := by
    intro call k s is rs r hpending hfits
    cases hpending with
    | opening hp => exact .inl (step_opening_readdir r hp)
    | listing hp h => exact .inl (step_listing hp h hfits)
    | closing hp h => exact step_closing_readdir hp h
  tick := by
    rintro k a s is rs ⟨hp, rfl, rfl, rfl, rfl⟩
    exact Chain.does_answer (answered_of_error (noClose_nil.kept rfl) (expected_of_pathError hp))
  broken hb he := absurd he (hb.1.not_enabled _)

/-- What the call does before it returns, unless its options are rejected. -/
theorem start_readdir (hc : (Call.readdir path arg).Accepted host) :
    (Call.readdir path arg).start host =
      exec (nullCheck path .user (Binding.readdir host path (arg.encoding none)))
        (idle [] ⟨[], newContext false none⟩ [] []) := by
  obtain ⟨o, ho, hstart⟩ := hc.exists_ok rfl rfl
  rw [encoding_of_getOptions ho] at hstart
  exact hstart

theorem holds_start_readdir (hl : (Call.readdir path arg).Completes host l) :
    (readdirChain host path arg).Holds [] ((Call.readdir path arg).start host).2 := by
  rw [start_readdir hl.accepted, nullCheck]
  cases hnull : path.hasNull with
  | true =>
    rw [if_pos rfl]
    refine .deferred ⟨?_, rfl, rfl, rfl, rfl⟩
    simp [Call.pathError, Path.nullError, hnull]
  | false =>
    rw [if_neg Bool.false_ne_true]
    have hp : (Call.readdir path arg).pathError = path.typeError := by
      simp [Call.pathError, Path.nullError, hnull]
    cases path with
    | string _ | buffer _ => exact .pending (.opening hp)
    | number _ | other _ =>
      exact (Chain.does_answer
        (answered_of_error (noClose_nil.kept rfl) (expected_of_pathError hp))).holds

/-- A call of `readdir` answers once, unless it answers with the names and the callback
    throws; it takes care of file descriptors. -/
theorem readdir_complete (hl : (Call.readdir path arg).Completes host l) :
    (AnsweredOnce host (.readdir path arg) l ↔
      (Call.readdir path arg).Answers host l.replies) ∧
    Kept (.readdir path arg) l.issued l.replies := by
  have hholds := (holds_start_readdir hl).reachable steps_readdir hl.reachable
  rcases hholds.exists_answer exists_fits hl.halted with ⟨a, ha, hright, hkept, hthrows⟩ | hbroken
  · exact ⟨iff_of_true ⟨a, ha, hright⟩ hthrows, hkept⟩
  · obtain ⟨-, hanswers, hkept, hok, hthrows⟩ := hbroken
    refine ⟨iff_of_false ?_ fun h => hthrows (h hok), hkept⟩
    rintro ⟨a, ha, -⟩
    simp [ha] at hanswers

end Fs

end NodeLkl
