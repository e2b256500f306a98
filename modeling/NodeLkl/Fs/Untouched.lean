import NodeLkl.Fs.Completion
import NodeLkl.Fs.Sync

/-!
# What synchronous functions leave untouched

A synchronous function cannot have a result of the kernel, and is not meant to ask it for
anything: it returns or throws, and no system call is in the queue because of it
(`Untouched`). Two things go wrong (`untouched_iff`).

* `fstatSync` issues a system call, and `readFileSync` does, given a file descriptor
  (`Call.Strays`). Nobody waits for the reply, and its callback throws: whatever else is
  going on, the queue is wedged some day (`wedged_of_strays`).
* `realpathSync` may be given a cache in which links go round, and then does not end
  (`Call.Settles`). Without a cache it does (`settles_of_cache`).

All others only ever change the memory of the program, and end (`Call.harmless`).
-/

namespace NodeLkl

namespace Fs

namespace Sync

open EventLoop (exec idle)

open NodeLkl.Comp

/-! ## Having no effect -/

/-- A call of a synchronous function has no effect on the kernel. -/
structure Untouched (node : Node) (c : Call) (l : Loop) : Prop where
  /-- It returns, or throws. -/
  ends : (c.main node).Ends l
  /-- At no time is there more in the queue because of it, -/
  queue : ∀ n, ((c.main node).run n l).2.queue = l.queue
  /-- was a system call issued, -/
  issued : ∀ n, ((c.main node).run n l).2.issued = l.issued
  /-- or is a callback left to be called. -/
  ticks : ∀ n, ((c.main node).run n l).2.ticks = l.ticks

/-- The round from `w` is followed by that from `w'`. -/
def Walk.Leads (node : Node) (w' w : Walk) : Prop :=
  w.pos < w.p.length ∧
    if w.isHard then w' = w.advance
    else ∃ resolvedLink, w.target = some resolvedLink ∧ w.follow node resolvedLink = .ok w'

/-- A call issues a system call. -/
def Call.Strays (node : Node) : Call → Prop
  | fstatSync _ => True
  | readFileSync path options => isFd node path = .ok true ∧
      (getOptions node options readFileOptions).isOk
  | _ => False

/-- The links in the cache that `realpathSync` follows do not go round. -/
def Call.Settles (node : Node) : Call → Prop
  | realpathSync p options => ∀ options', getOptions node options noOptions = .ok options' →
      ∀ w, realpathStart node p options' = .ok (.inr w) → Acc (Walk.Leads node) w
  | _ => True

/-! ## Harmless computations -/

/-- All there is, but the memory of the program. -/
def outside (l : Loop) : EventLoop Unit Syscall Reply Cb Args :=
  ⟨(), l.queue, l.ticks, l.wedged, l.issued, l.replies, l.answers⟩

/-- A computation ends, and only ever changes the memory. -/
abbrev Harmless {α : Type} (m : SyncJs α) : Prop := m.Quiet outside

variable {node : Node}

theorem harmless_js {α : Type} {m : Js α} (h : ∀ l, outside (exec m l).2 = outside l) :
    Harmless (liftM m) :=
  quiet_ofStep h

theorem harmless_alloc (c : Cell) : Harmless (liftM (alloc c)) := harmless_js fun _ => rfl

theorem harmless_getBuf (a : Addr) : Harmless (liftM (getBuf a)) := harmless_js fun _ => rfl

/-- A binding that checks its request first does nothing without one. -/
theorem harmless_withCallback (binding : Cb → Js Unit) :
    Harmless (liftM (Binding.withCallback none binding)) :=
  harmless_js fun _ => rfl

theorem harmless_unimplemented : Harmless (liftM Binding.unimplemented) := harmless_js fun _ => rfl

theorem throws_withCallback (binding : Cb → Js Unit) :
    Throws (liftM (Binding.withCallback none binding) : SyncJs Arg) :=
  fun _ _ => ⟨callbackRequiredError, rfl⟩

theorem throws_unimplemented : Throws (liftM Binding.unimplemented : SyncJs Arg) :=
  fun _ _ => ⟨unimplementedError, rfl⟩

theorem harmless_closeSync (fd : Arg) : Harmless (closeSync node fd) := harmless_withCallback _

theorem harmless_closeUnless (leave : Bool) (fd : Arg) : Harmless (closeUnless node leave fd) := by
  rw [closeUnless]
  split
  · exact quiet_pure _
  · exact (harmless_closeSync fd).bind fun _ => quiet_pure _

theorem harmless_openSync (path flags mode : Arg) : Harmless (openSync node path flags mode) :=
  (quiet_liftM _).bind fun _ => (quiet_liftM _).bind fun _ => harmless_withCallback _

theorem throws_openSync (path flags mode : Arg) : (openSync node path flags mode).Throws :=
  Throws.after (prompt_liftM _) fun _ =>
    Throws.after (prompt_liftM _) fun _ => throws_withCallback _

theorem harmless_readSync (fd buffer offset length position : Arg) :
    Harmless (readSync node fd buffer offset length position) := by
  rw [readSync.eq_def]
  split
  · refine (harmless_alloc _).bind fun _ => ?_
    rw [readBufferSync]
    split
    · exact quiet_pure _
    · exact harmless_withCallback _
  · refine (quiet_liftM _).bind fun _ => (quiet_liftM _).bind fun _ => ?_
    refine (harmless_alloc _).bind fun _ => ?_
    split
    · exact quiet_pure _
    · refine (harmless_withCallback _).bind fun _ => (quiet_liftM _).bind fun _ => ?_
      split
      · exact (harmless_getBuf _).bind fun _ => (quiet_liftM _).bind fun _ => quiet_pure _
      · exact quiet_pure _

theorem harmless_writeBufferSync (fd : Arg) (buffer : Addr) (offset length position : Arg) :
    Harmless (writeBufferSync node fd buffer offset length position) :=
  (harmless_getBuf _).bind fun _ => harmless_withCallback _

theorem throws_writeBufferSync (fd : Arg) (buffer : Addr) (offset length position : Arg) :
    (writeBufferSync node fd buffer offset length position).Throws :=
  Throws.after (harmless_getBuf _).prompt fun _ => throws_withCallback _

theorem harmless_writeSync (fd buffer offset length position : Arg) :
    Harmless (writeSync node fd buffer offset length position) := by
  rw [writeSync.eq_def]
  split
  · exact (harmless_alloc _).bind fun _ => harmless_writeBufferSync _ _ _ _ _
  · exact (quiet_liftM _).bind fun _ => harmless_unimplemented

theorem harmless_truncateSync (path len : Arg) : Harmless (truncateSync node path len) := by
  rw [truncateSync.eq_def]
  split
  · exact harmless_unimplemented
  · refine (harmless_openSync _ _ _).bind fun fd => ?_
    exact harmless_unimplemented.tryFinally fun _ =>
      (harmless_closeSync fd).bind fun _ => quiet_pure _

theorem harmless_lchmodSync (path mode : Arg) : Harmless (lchmodSync node path mode) := by
  refine (harmless_openSync _ _ _).bind fun fd => ?_
  refine (harmless_unimplemented.bind fun _ => quiet_pure _).tryCatch (fun _ => quiet_pure _)
    |>.bind fun _ => ?_
  refine ((harmless_closeSync fd).bind fun _ => quiet_pure _).tryCatch (fun _ => quiet_pure _)
    |>.bind fun _ => ?_
  exact (quiet_liftM _).bind fun _ => (quiet_liftM _).bind fun _ => quiet_pure _

theorem harmless_mkdtempSync (pre options : Arg) : Harmless (mkdtempSync node pre options) := by
  rw [mkdtempSync.eq_def]
  split
  · exact (quiet_liftM _).bind fun _ => (quiet_liftM _).bind fun _ => harmless_unimplemented
  · exact quiet_throw _

/-- The first round of the loop of `writeFileSync` throws, or is the last one. -/
theorem harmless_writeLoop (fd : Arg) (buffer : Addr) (x : Progress) :
    Harmless (loop (writeRound node fd buffer) x) := by
  refine Quiet.loop (fun x => ?_) (fun x n l y => ?_) x
  · rw [writeRound]
    split
    · exact (harmless_writeBufferSync _ _ _ _ _).bind fun _ => (quiet_liftM _).bind fun _ =>
        quiet_pure _
    · exact quiet_pure _
  · rw [writeRound]
    split
    · exact Throws.run_ne (Throws.bind (throws_writeBufferSync _ _ _ _ _) _) n l _
    · simp

theorem harmless_writeFileSync (path data options : Arg) :
    Harmless (writeFileSync node path data options) := by
  refine (quiet_liftM _).bind fun options => (quiet_liftM _).bind fun isUserFd => ?_
  refine Quiet.bind ?_ fun fd => ?_
  · split
    · exact quiet_pure _
    · exact harmless_openSync _ _ _
  · refine (quiet_liftM _).bind fun _ => (harmless_alloc _).bind fun _ => ?_
    refine (quiet_liftM _).bind fun _ => Quiet.bind ?_ fun _ => quiet_pure _
    exact (harmless_writeLoop _ _ _).tryFinally fun _ => harmless_closeUnless _ _

theorem harmless_statSync (path : Arg) : Harmless (statSync node path) :=
  (quiet_liftM _).bind fun _ => harmless_unimplemented

theorem harmless_readlinkSync (path options : Arg) : Harmless (readlinkSync node path options) :=
  (quiet_liftM _).bind fun _ => (quiet_liftM _).bind fun _ => harmless_unimplemented

theorem harmless_lstatSync (path : Arg) : Harmless (lstatSync node path) :=
  (quiet_liftM _).bind fun _ => harmless_unimplemented

theorem throws_lstatSync (path : Arg) : (lstatSync node path).Throws :=
  Throws.after (prompt_liftM _) fun _ => throws_unimplemented

/-! ## `realpathSync` -/

theorem harmless_readTarget (w : Walk) (id : ℤ × ℤ) : Harmless (w.readTarget node id) := by
  rw [Walk.readTarget]
  split
  · exact quiet_pure _
  · exact (harmless_statSync _).bind fun _ => harmless_readlinkSync _ _

theorem harmless_round (w : Walk) : Harmless (w.round node) := by
  rw [Walk.round]
  split
  · split
    · exact quiet_pure _
    · split
      · exact (quiet_liftM _).bind fun _ => quiet_pure _
      · refine (harmless_lstatSync _).bind fun _ => (quiet_liftM _).bind fun _ => ?_
        split
        · exact quiet_pure _
        · exact (harmless_readTarget w _).bind fun _ => (quiet_liftM _).bind fun _ =>
            (quiet_liftM _).bind fun _ => quiet_pure _
  · exact quiet_pure _

/-- A round is followed by another one only if the cache knows the next part of the path:
    to be told by the kernel is to throw. -/
theorem run_round_iff (w w' : Walk) (n : ℕ) (l : Loop) :
    ((w.round node).run (n + 1) l).1 = some (.ok (.inl w')) ↔ w'.Leads node w := by
  rw [Walk.round, Walk.Leads]
  by_cases hpos : w.pos < w.p.length
  · rw [if_pos hpos]
    by_cases hhard : w.isHard = true
    · simp [hhard, hpos, eq_comm]
    · rw [if_neg hhard, if_neg hhard]
      cases htarget : w.target with
      | some resolvedLink =>
        simp only [run_bind, run_liftM]
        cases hfollow : w.follow node resolvedLink <;> simp [hpos, hfollow]
      | none =>
        exact iff_of_false (Throws.run_ne (Throws.bind (throws_lstatSync _) _) n l _) (by simp)
  · simp [hpos]

theorem ends_realpathLoop_iff (w : Walk) (l : Loop) :
    (loop (Walk.round node) w).Ends l ↔ Acc (Walk.Leads node) w :=
  ends_loop_iff (fun w => (harmless_round w).prompt) (fun w n l w' => run_round_iff w w' n l) w l

theorem keeps_realpathSync (p options : Arg) : (realpathSync node p options).Keeps outside := by
  refine (quiet_liftM _).keeps.bind fun options => (quiet_liftM _).keeps.bind fun start => ?_
  cases start with
  | inl result => exact (quiet_pure _).keeps
  | inr w =>
    exact (Keeps.loop (fun w => (harmless_round w).keeps) w).bind fun _ => (quiet_liftM _).keeps

theorem ends_realpathSync_iff (p options : Arg) (l : Loop) :
    (realpathSync node p options).Ends l ↔ (Call.realpathSync p options).Settles node := by
  rw [realpathSync, ends_liftM_bind_iff]
  refine forall_congr' fun options' => imp_congr_right fun _ => ?_
  rw [ends_liftM_bind_iff]
  constructor
  · intro h w hw
    exact (ends_realpathLoop_iff w l).1
      ((ends_bind_iff (fun _ => prompt_liftM _) l).1 (h (.inr w) hw))
  · intro h start hstart
    cases start with
    | inl result => exact (quiet_pure (f := outside) _).prompt.ends l
    | inr w =>
      exact (ends_bind_iff (fun _ => prompt_liftM _) l).2
        ((ends_realpathLoop_iff w l).2 (h w hstart))

theorem eq_of_checked {o o' : Arg} (h : getOptions.checked node o = .ok o') : o' = o := by
  simp only [getOptions.checked] at h
  split at h
  · obtain ⟨-, -, h⟩ := exists_of_bind_ok h
    exact (Except.ok.inj h).symm
  · exact (Except.ok.inj h).symm

/-- There is a cache only if there is one in the options given. -/
theorem cache_getOptions {options options' : Arg}
    (h : getOptions node options noOptions = .ok options') (hcache : options.cache = none) :
    options'.cache = none := by
  rw [getOptions.eq_def] at h
  split at h
  · exact congrArg Arg.cache (Except.ok.inj h).symm
  · exact congrArg Arg.cache (Except.ok.inj h).symm
  · exact congrArg Arg.cache (Except.ok.inj h).symm
  · rw [eq_of_checked h]
    rfl
  · split at h
    · cases h
    · rw [eq_of_checked h, hcache]

theorem eq_start_of_realpathStart {p options : Arg} {w : Walk}
    (h : realpathStart node p options = .ok (.inr w)) :
    ∃ p', w = Walk.start ⟨p', 0, [], [], [], options.cache⟩ p' := by
  obtain ⟨-, -, h⟩ := exists_of_bind_ok h
  obtain ⟨s, -, h⟩ := exists_of_bind_ok h
  obtain ⟨p', -, h⟩ := exists_of_bind_ok h
  refine ⟨p', ?_⟩
  dsimp only at h
  split at h
  · cases h
  · exact (Sum.inr.inj (Except.ok.inj h)).symm

/-- Without a cache, `realpathSync` ends. -/
theorem settles_of_cache {p options : Arg} (h : options.cache = none) :
    (Call.realpathSync p options).Settles node := by
  intro options' hoptions w hw
  obtain ⟨p', rfl⟩ := eq_start_of_realpathStart hw
  refine ⟨_, fun w' hleads => ?_⟩
  obtain ⟨-, hleads⟩ := hleads
  simp [Walk.isHard, Walk.target, Walk.cached, Walk.start, cache_getOptions hoptions h] at hleads

/-! ## Stray system calls -/

/-- The status of `fd` was asked for, for nobody. -/
def strayed (node : Node) (fd : Arg) (l : Loop) : Loop :=
  let buf := l.state.heap.length
  { l with
    state := { l.state with heap := l.state.heap ++ [.stat .zero] }
    queue := l.queue ++ [(.fstat (node.word fd) buf, .fstatUnrequested buf)]
    issued := l.issued ++ [.fstat (node.word fd) buf] }

/-- `fstatSync` returns at once. -/
theorem run_fstatSync (fd : Arg) (n : ℕ) (l : Loop) :
    (fstatSync node fd).run n l = (some (.ok .undefined), strayed node fd l) := rfl

/-- `readFileSync` throws as soon as the status it was given is not one. -/
theorem run_readFileSync {path options options' : Arg} (hfd : isFd node path = .ok true)
    (hoptions : getOptions node options readFileOptions = .ok options') (n : ℕ) (l : Loop) :
    (readFileSync node path options).run n l =
      (some (.error (propertyError "isFile" "undefined")), strayed node path l) := by
  have hstat : (tryStatSync node path true).run n l =
      (some (.ok .undefined), strayed node path l) := rfl
  rw [readFileSync, run_bind, run_liftM, hoptions]
  dsimp only
  rw [run_bind, run_liftM, hfd]
  dsimp only
  rw [run_bind, if_pos rfl, run_pure]
  dsimp only
  rw [run_bind, hstat]
  rfl

/-- A file that is not open already is not opened, and nothing is asked of it. -/
theorem harmless_readFileSync {path options : Arg}
    (h : ¬(Call.readFileSync path options).Strays node) :
    Harmless (readFileSync node path options) := by
  refine quiet_liftM_bind fun options' hoptions => quiet_liftM_bind fun isUserFd hfd => ?_
  cases isUserFd with
  | true => exact absurd ⟨hfd, by rw [hoptions]; rfl⟩ h
  | false => exact (harmless_openSync _ _ _).bind_of_throws (throws_openSync _ _ _) _

theorem exists_strayed {c : Call} (h : c.Strays node) (n : ℕ) (l : Loop) :
    ∃ fd, ((c.main node).run n l).2 = strayed node fd l := by
  cases c with
  | fstatSync fd => exact ⟨fd, congrArg Prod.snd (run_fstatSync fd n l)⟩
  | readFileSync path options =>
    obtain ⟨hfd, hoptions⟩ := h
    cases hopts : getOptions node options readFileOptions with
    | ok options' => exact ⟨path, congrArg Prod.snd (run_readFileSync hfd hopts n l)⟩
    | error e => simp [hopts, Except.isOk, Except.toBool] at hoptions
  | _ => exact h.elim

theorem Untouched.not_strays {c : Call} {l : Loop} (h : Untouched node c l) : ¬c.Strays node := by
  intro hstrays
  obtain ⟨fd, hrun⟩ := exists_strayed hstrays 0 l
  have hqueue := h.queue 0
  simp [hrun, strayed] at hqueue

/-- Every other call only ever changes the memory, and ends. -/
theorem Call.harmless {c : Call} (hstrays : ¬c.Strays node)
    (hrealpath : ∀ p options, c ≠ .realpathSync p options) : Harmless (c.main node) := by
  -- Checks and conversions come first, then a binding, which throws.
  cases c with
  | accessSync path mode =>
    exact (quiet_liftM _).bind fun _ => (quiet_liftM _).bind fun _ =>
      (harmless_withCallback _).bind fun _ => quiet_pure _
  | appendFileSync path data options =>
    exact (quiet_liftM _).bind fun _ => (quiet_liftM _).bind fun _ =>
      (harmless_writeFileSync _ _ _).bind fun _ => quiet_pure _
  | existsSync path =>
    exact ((quiet_liftM _).bind fun _ => harmless_unimplemented.bind fun _ => quiet_pure _).tryCatch
      fun _ => quiet_pure _
  | closeSync fd => exact harmless_closeSync fd
  | fchmodSync fd mode | fchownSync fd uid gid | fdatasyncSync fd | fsyncSync fd
  | ftruncateSync fd len => exact harmless_unimplemented
  | fstatSync fd => exact absurd trivial hstrays
  | futimesSync fd atime mtime =>
    exact (quiet_liftM _).bind fun _ => (quiet_liftM _).bind fun _ =>
      harmless_unimplemented.bind fun _ => quiet_pure _
  | lchmodSync path mode => exact harmless_lchmodSync path mode
  | lchownSync path uid gid =>
    exact (harmless_openSync _ _ _).bind fun _ => harmless_unimplemented
  | lstatSync path => exact harmless_lstatSync path
  | chmodSync path mode | mkdirSync path mode | rmdirSync path | unlinkSync path =>
    exact (quiet_liftM _).bind fun _ => harmless_withCallback _
  | mkdtempSync pre options => exact harmless_mkdtempSync pre options
  | openSync path flags mode => exact harmless_openSync path flags mode
  | readdirSync path options =>
    exact (quiet_liftM _).bind fun _ => (quiet_liftM _).bind fun _ => harmless_withCallback _
  | readFileSync path options => exact harmless_readFileSync hstrays
  | readSync fd buffer offset length position => exact harmless_readSync _ _ _ _ _
  | realpathSync p options => exact absurd rfl (hrealpath p options)
  | readlinkSync path options => exact harmless_readlinkSync path options
  | linkSync path path' | renameSync path path' | symlinkSync path path' type =>
    exact (quiet_liftM _).bind fun _ => (quiet_liftM _).bind fun _ => harmless_unimplemented
  | chownSync path uid gid => exact (quiet_liftM _).bind fun _ => harmless_unimplemented
  | statSync path => exact harmless_statSync path
  | truncateSync path len => exact harmless_truncateSync path len
  | utimesSync path atime mtime =>
    exact (quiet_liftM _).bind fun _ => (quiet_liftM _).bind fun _ => (quiet_liftM _).bind fun _ =>
      harmless_unimplemented.bind fun _ => quiet_pure _
  | writeFileSync path data options => exact harmless_writeFileSync path data options
  | writeSync fd buffer offset length position => exact harmless_writeSync _ _ _ _ _

/-- A call of a synchronous function has no effect on the kernel, unless it is one of
    `fstatSync`, or of `readFileSync` with a file descriptor; and it ends, unless it is one of
    `realpathSync` with links that go round in its cache. -/
theorem untouched_iff (node : Node) (c : Call) (l : Loop) :
    Untouched node c l ↔ c.Settles node ∧ ¬c.Strays node := by
  constructor
  · intro h
    refine ⟨?_, h.not_strays⟩
    cases c with
    | realpathSync p options => exact (ends_realpathSync_iff p options l).1 h.ends
    | _ => trivial
  · rintro ⟨hsettles, hstrays⟩
    have hkeeps : (c.main node).Keeps outside ∧ (c.main node).Ends l := by
      by_cases hrealpath : ∃ p options, c = .realpathSync p options
      · obtain ⟨p, options, rfl⟩ := hrealpath
        exact ⟨keeps_realpathSync p options, (ends_realpathSync_iff p options l).2 hsettles⟩
      · have hharmless := Call.harmless hstrays fun p options hc => hrealpath ⟨p, options, hc⟩
        exact ⟨hharmless.keeps, hharmless.prompt.ends l⟩
    obtain ⟨hkeeps, hends⟩ := hkeeps
    refine ⟨hends, fun n => ?_, fun n => ?_, fun n => ?_⟩
    · exact congrArg (fun l => l.queue) (hkeeps n l)
    · exact congrArg (fun l => l.issued) (hkeeps n l)
    · exact congrArg (fun l => l.ticks) (hkeeps n l)

/-- Functions of Node, as far as they matter for paths without links. -/
def plainNode : Node where
  kMaxLength := 0x7fffffff
  isEncoding e := e = "utf8".toList
  bufferToString _ b := .ok (b.map fun x => Char.ofNat (x.getD 0).toNat)
  bufferFrom _ _ := .ok [0]
  throws _ := none
  numberToString _ := ['3']
  dateToString _ := []
  conversionError _ := .other 0
  allocUnsafe _ := .ok 0
  toStringUtf8 _ := .ok ['/']
  resolve _ := .ok ['/']
  now := .fin 0
  address _ := 0

/-- The loop, when nothing is pending. -/
def idleLoop : Loop := idle [] ⟨[], newContext false none⟩ [] []

/-- Writing to a file descriptor throws, and nothing else happens. -/
theorem untouched_writeFileSync :
    Untouched plainNode (.writeFileSync (.number (.fin 3)) (.string ['x']) .undefined) idleLoop :=
  (untouched_iff _ _ _).2 ⟨trivial, id⟩

/-- The status of a file descriptor is asked for, whether by `fstatSync` or by
    `readFileSync`. -/
theorem not_untouched_fstatSync :
    ¬Untouched plainNode (.fstatSync (.number (.fin 3))) idleLoop ∧
      ¬Untouched plainNode (.readFileSync (.number (.fin 3)) .undefined) idleLoop := by
  have hfd : isFd plainNode (.number (.fin 3)) = .ok true := by decide +kernel
  exact ⟨fun h => h.not_strays trivial, fun h => h.not_strays ⟨hfd, rfl⟩⟩

/-! ## What becomes of stray system calls -/

/-- A stray system call wedges the queue: a run that is over after it is over because of it,
    whatever else was pending, or is done. -/
theorem wedged_of_strays {c : Call} (h : c.Strays node) {n : ℕ} {l l' : Loop}
    (hl : (system node.toHost).Reachable ((c.main node).run n l).2 l')
    (hover : (system node.toHost).Halted l') : l'.wedged = true := by
  obtain ⟨fd, hrun⟩ := exists_strayed h n l
  rw [hrun] at hl
  -- it stays in the queue until it is replied to, as callbacks add to the queue
  refine EventLoop.wedged_of_throws (fun k => ∃ buf, k = .fstatUnrequested buf) (.inr ?_)
    (fun k a => ((behaves_apply k).2 a).adds) ?_ exists_fits hl hover
  · exact ⟨_, List.mem_append_right _ (List.mem_singleton_self _), _, rfl⟩
  · rintro _ ⟨buf, rfl⟩ a l
    exact ⟨callbackRequiredError, by simp [program, apply]⟩

end Sync

end Fs

end NodeLkl
