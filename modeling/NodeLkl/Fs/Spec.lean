import NodeLkl.Fs.Calls

/-!
# What calls are for

A call of a function of `fs` is meant to answer once: with the error of the first
of its steps that failed, or with its result (`AnsweredOnce`). What its result is
depends on what the system calls it issued gave (`expected`).

A call is meant to close, exactly once, the file descriptors it opened, and then
not to use them, and never to close that of the user (`Kept`).
-/

namespace NodeLkl

namespace Fs

/-! ## Results -/

/-- The result of the last system call. -/
def lastReply (log : Log) : Reply := (log.getLast?.map Prod.snd).getD (.ok 0 [] .zero)

def Reply.ret : Reply → ℕ
  | error _ => 0
  | ok ret _ _ => ret

def Reply.data : Reply → Bytes
  | error _ => []
  | ok _ data _ => data

def Reply.stat : Reply → LklStat
  | error _ => .zero
  | ok _ _ stat => stat

/-- The bytes read. -/
def bytesRead (log : Log) : Bytes :=
  log.flatMap fun
    | (.read _ _, r) => r.data
    | _ => []

/-- The names in the entries of directories read. -/
def namesRead (log : Log) : List Bytes :=
  log.flatMap fun
    | (.getdents64 _ _, r) => (parseDirent64 (ofBytes r.data)).getD []
    | _ => []

/-- The encoding in the options of a call, `dflt` if there are none. -/
def OptionsArg.encoding (dflt : Option Encoding) : OptionsArg → Option Encoding
  | missing | other _ => dflt
  | string e => e
  | object options => options.encoding

variable (host : Host)

/-- The error of a system call. The size of a file may be one, for `readFile`. -/
def stepError (c : Call) : Syscall × Reply → Option Err
  | (_, .error n) => some (.errno n)
  | (.fstat _ _, .ok _ _ st) => match c with
    | .readFile _ _ =>
      if host.kMaxLength < knownSize (parseLklStat st) then
        some (fileTooLargeError host.kMaxLength)
      else none
    | _ => none
  | _ => none

/-- The error of the first system call that failed. -/
def failure (c : Call) (log : Log) : Option Err := log.findSome? (stepError host c)

/-- The error for a path with null bytes. -/
def Path.nullError (path : Path) : Option Err := if path.hasNull then some nullBytesError else none

/-- The error for a path that is neither a string nor a buffer. -/
def Path.typeError : Path → Option Err
  | number _ | other _ => some notStringOrBufferError
  | _ => none

/-- The error of a call that issues no system call, if it is one. -/
def Call.pathError : Call → Option Err
  | readdir path _ => path.nullError.or path.typeError
  | access path _ | appendFile path _ _ | chmod path _ | mkdir path _ | openPath path _ _
  | readFile path _ | rmdir path | truncate path _ | unlink path | writeFile path _ _ =>
    path.nullError
  | _ => none

/-- What the result of a call is, if no system call failed. -/
def Call.result (c : Call) (log : Log) : Except Err (List Value) :=
  match c with
  | .fstat _ => .ok [.stats (parseLklStat (lastReply log).stat)]
  | .read _ buffer offset _ _ =>
    let i := adjustOffset offset buffer.length
    let data := (lastReply log).data
    .ok [.number (lastReply log).ret,
      .buffer (buffer.take i ++ ofBytes data ++ buffer.drop (i + data.length))]
  | .readString _ _ _ encoding =>
    if (lastReply log).ret = 0 then .ok [.string [], .number 0]
    else (host.bufferToString encoding (ofBytes (lastReply log).data)).map fun s =>
      [.string s, .number (lastReply log).ret]
  | .write _ buffer _ _ _ => .ok [.number (lastReply log).ret, .buffer (ofBytes buffer)]
  | .readFile _ options => match options.encoding none with
    | none => .ok [.buffer (ofBytes (bytesRead log))]
    | some encoding =>
      (host.bufferToString (some encoding) (ofBytes (bytesRead log))).map fun s => [.string s]
  | .readdir _ options => (decodeArray host (namesRead log) (options.encoding none)).map ([·])
  | .writeFile path _ _ | .appendFile path _ _ =>
    .ok (if (isFd path).isSome then [] else [.number (lastReply log).ret])
  | .truncate _ _ => .ok []
  | _ => .ok [.number (lastReply log).ret]

/-- What a call is to answer. -/
def expected (c : Call) (log : Log) : Except Err (List Value) :=
  match c.pathError with
  | some e => .error e
  | none => match failure host c log with
    | some e => .error e
    | none => c.result host log

/-- The arguments `a` tell what is expected. -/
def Right (c : Call) (log : Log) (a : Args) : Prop :=
  match expected host c log with
  | .error e => a.err = some e
  | .ok values => a = ⟨none, values⟩

/-- The callback of the user was called once, rightly. -/
def AnsweredOnce (c : Call) (l : Loop) : Prop :=
  ∃ a, l.answers = [a] ∧ Right host c l.replies a

/-! ## File descriptors -/

/-- The file descriptors opened. -/
def opened (log : Log) : List ℤ :=
  log.filterMap fun
    | (.openat _ _ _, .ok fd _ _) => some (fd : ℤ)
    | _ => none

/-- The file descriptor a system call is about. -/
def Syscall.fd : Syscall → Option ℤ
  | close fd | fstat fd _ | getdents64 fd _ | pread64 fd _ _ | pwrite64 fd _ _ | read fd _
  | write fd _ => some fd
  | _ => none

/-- A file descriptor was closed once, and not used afterwards. -/
def Released (fd : ℤ) (issued : List Syscall) : Prop :=
  ∃ before after, issued = before ++ .close fd :: after ∧ .close fd ∉ before ∧
    ∀ c ∈ after, c.fd ≠ some fd

/-- The file descriptor given by the user. -/
def Call.userFd : Call → Option ℕ
  | readFile path _ | writeFile path _ _ | appendFile path _ _ | truncate path _ => isFd path
  | _ => none

/-- A call took care of file descriptors. -/
structure Kept (c : Call) (issued : List Syscall) (log : Log) : Prop where
  /-- Those it opened were released. -/
  released : ∀ fd ∈ opened log, Released fd issued
  /-- That of the user was not closed. -/
  user : ∀ fd, c.userFd = some fd → .close fd ∉ issued

/-! ## When it is so -/

/-- The call `c` was accepted, and is over in `l`. -/
structure Call.Completes (c : Call) (l : Loop) : Prop where
  accepted : c.Accepted host
  reachable : (system host).Reachable (c.start host).2 l
  halted : (system host).Halted l

/-- The status of a file could not be had. -/
def FstatFailed (log : Log) : Prop := ∃ fd buf n, (Syscall.fstat fd buf, Reply.error n) ∈ log

/-- The data to be written can be converted to a buffer. -/
def Converts (data : Data) (options : OptionsArg) : Prop :=
  (data.toBuffer host (options.encoding (some "utf8".toList))).isOk

/-- When a call answers once. -/
def Call.Answers (c : Call) (log : Log) : Prop :=
  match c with
  | .fstat _ => FstatFailed log → (host.throws 0).isSome
  | .readFile path _ => FstatFailed log → isFd path = none ∧ (host.throws 0).isSome
  | .readdir _ _ => (expected host c log).isOk → host.throws 0 = none
  | .writeFile _ data options | .appendFile _ data options =>
    opened log ≠ [] → Converts host data options
  | .truncate _ _ => opened log = []
  | _ => True

/-- When a call takes care of file descriptors. -/
def Call.Keeps (c : Call) (log : Log) : Prop :=
  match c with
  | .readFile path _ => isFd path = none → ¬FstatFailed log
  | .writeFile _ data options | .appendFile _ data options =>
    opened log ≠ [] → Converts host data options
  | .truncate _ _ => opened log = []
  | _ => True

/-- The calls that open files, and close them. -/
def Call.OpensAndCloses : Call → Prop
  | readFile _ _ | writeFile _ _ _ | appendFile _ _ _ | truncate _ _ | readdir _ _ => True
  | _ => False

/-! ## What follows -/

variable {host} {c : Call} {l : Loop}

theorem exists_fits (call : Syscall) : ∃ r, Fits call r := by
  refine ⟨.error 0, ?_⟩
  cases call <;> trivial

/-- A call that threw before it answered was rejected. -/
theorem Call.Accepted.not_error (hc : c.Accepted host) {e : Err} {l' : Loop}
    (h : c.start host = (.error e, l')) (hl' : l'.answers = []) : False :=
  hc e (by rw [h]) (by rw [h, hl'])

/-- A call that is accepted goes on after what might have thrown. -/
theorem Call.Accepted.exists_ok {α : Type} {x : Except Err α} {rest : α → Js Unit} {l' : Loop}
    (hc : c.Accepted host) (h : c.start host = EventLoop.exec (ofExcept x >>= rest) l')
    (hl' : l'.answers = []) : ∃ a, x = .ok a ∧ c.start host = EventLoop.exec (rest a) l' := by
  rw [EventLoop.exec_bind, exec_ofExcept] at h
  cases x with
  | ok a => exact ⟨a, rfl, h⟩
  | error e => exact (hc.not_error h hl').elim

theorem expected_of_pathError {log : Log} {e : Err} (h : c.pathError = some e) :
    expected host c log = .error e := by
  simp [expected, h]

theorem expected_of_failure {log : Log} {e : Err} (hp : c.pathError = none)
    (h : failure host c log = some e) : expected host c log = .error e := by
  simp [expected, hp, h]

theorem expected_of_not_failure {log : Log} (hp : c.pathError = none)
    (h : failure host c log = none) : expected host c log = c.result host log := by
  simp [expected, hp, h]

theorem right_of_pathError {log : Log} {e : Err} {vs : List Value} (h : c.pathError = some e) :
    Right host c log ⟨some e, vs⟩ := by
  simp [Right, expected_of_pathError h]

theorem right_of_failure {log : Log} {e : Err} {vs : List Value} (hp : c.pathError = none)
    (h : failure host c log = some e) : Right host c log ⟨some e, vs⟩ := by
  simp [Right, expected_of_failure hp h]

theorem right_of_result {log : Log} {vs : List Value} (hp : c.pathError = none)
    (h : failure host c log = none) (hr : c.result host log = .ok vs) :
    Right host c log ⟨none, vs⟩ := by
  simp [Right, expected_of_not_failure hp h, hr]

theorem right_of_result_error {log : Log} {e : Err} {vs : List Value} (hp : c.pathError = none)
    (h : failure host c log = none) (hr : c.result host log = .error e) :
    Right host c log ⟨some e, vs⟩ := by
  simp [Right, expected_of_not_failure hp h, hr]

@[simp]
theorem failure_nil : failure host c [] = none := rfl

@[simp]
theorem failure_concat (log : Log) (x : Syscall × Reply) :
    failure host c (log ++ [x]) = (failure host c log).or (stepError host c x) := by
  simp [failure, List.findSome?_append]

@[simp]
theorem stepError_error (call : Syscall) (n : ℕ) :
    stepError host c (call, .error n) = some (.errno n) := by
  cases call <;> rfl

@[simp]
theorem opened_nil : opened [] = [] := rfl

@[simp]
theorem opened_concat (log : Log) (x : Syscall × Reply) :
    opened (log ++ [x]) = opened log ++ opened [x] := by
  simp [opened, List.filterMap_append]

/-- No file descriptor was closed. -/
def NoClose (issued : List Syscall) : Prop := ∀ fd, .close fd ∉ issued

theorem noClose_nil : NoClose [] := fun _ => List.not_mem_nil

theorem NoClose.concat {issued : List Syscall} {call : Syscall} (h : NoClose issued)
    (hcall : ∀ fd, call ≠ .close fd) : NoClose (issued ++ [call]) := by
  intro fd hmem
  rcases List.mem_append.1 hmem with hmem | hmem
  · exact h fd hmem
  · exact hcall fd (List.mem_singleton.1 hmem).symm

theorem NoClose.kept {issued : List Syscall} {log : Log} (h : NoClose issued)
    (hopened : opened log = []) : Kept c issued log :=
  ⟨fun fd hfd => by simp [hopened] at hfd, fun fd _ => h fd⟩

theorem NoClose.not_kept {issued : List Syscall} {log : Log} (h : NoClose issued)
    (hopened : opened log ≠ []) : ¬Kept c issued log := by
  intro hkept
  obtain ⟨fd, hfd⟩ := List.exists_mem_of_ne_nil _ hopened
  obtain ⟨before, after, rfl, -, -⟩ := hkept.released fd hfd
  exact h fd (by simp)

/-- The file opened was closed, at last. -/
theorem kept_of_close {fd : ℤ} {issued : List Syscall} {log : Log} (h : NoClose issued)
    (hopened : opened log = [fd]) (huser : c.userFd = none) :
    Kept c (issued ++ [.close fd]) log := by
  refine ⟨fun fd' hfd' => ?_, fun fd' hfd' => by simp [huser] at hfd'⟩
  obtain rfl : fd' = fd := by simpa [hopened] using hfd'
  exact ⟨issued, [], rfl, h fd', by simp⟩

/-- A file descriptor has no null bytes. -/
theorem nullError_of_isFd {path : Path} {fd : ℕ} (h : isFd path = some fd) :
    path.nullError = none := by
  cases path with
  | number n => rfl
  | string _ | buffer _ | other _ => simp [isFd] at h

theorem exists_of_bind_ok {α β : Type} {x : Except Err α} {f : α → Except Err β} {b : β}
    (h : x >>= f = .ok b) : ∃ a, x = .ok a ∧ f a = .ok b := by
  cases x with
  | ok a => exact ⟨a, rfl, h⟩
  | error e => cases h

theorem eq_of_checked {o o' : Options} (h : getOptions.checked host o = .ok o') : o' = o := by
  simp only [getOptions.checked] at h
  split at h
  · obtain ⟨-, -, h⟩ := exists_of_bind_ok h
    exact (Except.ok.inj h).symm
  · exact (Except.ok.inj h).symm

/-- The encoding is the one in the options. -/
theorem encoding_of_getOptions {arg : OptionsArg} {dflt o : Options}
    (h : getOptions host arg dflt = .ok o) : o.encoding = arg.encoding dflt.encoding := by
  cases arg with
  | missing => exact congrArg _ (Except.ok.inj h).symm
  | string e => rw [eq_of_checked h]; rfl
  | object o' => rw [eq_of_checked h]; rfl
  | other type => cases h

end Fs

end NodeLkl
