import NodeLkl.Base.System

/-!
# Closing streams

A `ReadStream` and a `WriteStream` share what they do with their file descriptor: it is opened
when the stream is made, and closed by `close` and `destroy`, or once the stream is over. What
comes too early waits for the event `open`, whose listeners are called one after the other.

`close` has no memory of a call that waits, so that two of them close the descriptor twice
(`not_safe_closeTwice`). If none comes while another one waits, a stream closes its descriptor
once, does not use it afterwards, and does close it if it was asked to (`safe_of_calm`).
-/

namespace NodeLkl

namespace Stream

/-- The streams: `ReadStream` and `WriteStream`. -/
inductive Kind
  | read
  | write
  deriving DecidableEq

/-- The functions that wait for the event `open`: the function `close` in `close`, and a call
    of `_read`, `_write` or `_writev`. -/
inductive Listener (T : Type)
  | close
  | transfer (t : T)

def Listener.isClose {T : Type} : Listener T → Bool
  | close => true
  | transfer _ => false

/-- The system calls issued: reads and writes, and `close`. -/
inductive Issued
  | transfer (fd : ℕ)
  | close (fd : ℕ)
  deriving DecidableEq

/-- The fields of a stream that are about its descriptor, and what is pending: the file is
    being opened, the listeners of `open` are being called, system calls were not replied to.
    The calls of `close` and `destroy` by the user, and the system calls, are recorded. -/
structure Handle (T : Type) where
  kind : Kind
  autoClose : Bool
  fd : Option ℕ
  closed : Bool
  destroyed : Bool
  listeners : List (Listener T)
  opening : Bool
  opened : Option ℕ
  emitting : List (Listener T)
  inFlight : ℕ
  requested : Bool
  issued : List Issued

namespace Handle

variable {T : Type}

/-- A stream that was just made. It opens its file, unless it is given a descriptor. -/
def init (kind : Kind) (autoClose : Bool) (fd : Option ℕ) : Handle T where
  kind
  autoClose
  fd
  closed := false
  destroyed := false
  listeners := []
  opening := fd.isNone
  opened := none
  emitting := []
  inFlight := 0
  requested := false
  issued := []

/-- The descriptor `fd || self.fd`. There, `null` converts to `0`. -/
def fdOr : Option ℕ → Option ℕ → ℕ
  | some (n + 1), _ => n + 1
  | _, fd => fd.getD 0

/-- The function `close` in `close`. -/
def closeNow (h : Handle T) (fd : Option ℕ) : Handle T :=
  { h with issued := h.issued ++ [.close (fdOr fd h.fd)], fd := none }

def close (h : Handle T) : Handle T :=
  if h.closed || h.fd.isNone then
    -- `closed` is not set by a call that waits
    if h.fd.isNone then { h with listeners := h.listeners ++ [.close] } else h
  else closeNow { h with closed := true } none

def destroy (h : Handle T) : Handle T :=
  if h.destroyed then h else close { h with destroyed := true }

/-- What `_read`, `_write` and `_writev` do with the descriptor. Whether they issue a system
    call depends on the rest of the stream. -/
def transfer (h : Handle T) (t : T) (issues : Bool) : Handle T :=
  match h.fd with
  | none => { h with listeners := h.listeners ++ [.transfer t] }
  | some fd =>
    -- only `_read` looks at `destroyed`
    if h.kind = .read ∧ h.destroyed then h
    else if issues then
      { h with inFlight := h.inFlight + 1, issued := h.issued ++ [.transfer fd] }
    else h

/-- What `open` does with the result of `fs.open`: the descriptor, or an error. -/
def openCompleted (h : Handle T) : Option ℕ → Handle T
  -- the listener that `destroy` adds is not called any more
  | none => if h.autoClose then destroy { h with opening := false } else { h with opening := false }
  | some fd => { h with
      opening := false
      fd := some fd
      opened := some fd
      emitting := h.listeners
      listeners := [] }

/-- The next listener of `open` is called. -/
def emit (h : Handle T) (issues : Bool) : Handle T :=
  match h.emitting with
  | [] => h
  -- the event comes with the descriptor, which the function `close` is thus given
  | .close :: ls => closeNow { h with emitting := ls } h.opened
  | .transfer t :: ls => transfer { h with emitting := ls } t issues

/-- What is done with the result of a read or a write. -/
def completed (h : Handle T) (ok : Bool) : Handle T :=
  if ok || !h.autoClose then { h with inFlight := h.inFlight - 1 }
  else destroy { h with inFlight := h.inFlight - 1 }

/-- What is done at the event `end` of a `ReadStream`, and `finish` of a `WriteStream`. -/
def finished (h : Handle T) : Handle T :=
  if h.autoClose then
    match h.kind with
    | .read => h.destroy
    | .write => h.close
  else h

/-- What happens to a stream. The listeners of `open` are called without anything else coming
    in between but what the listeners of the user do: calls of the functions of the stream. -/
inductive Event (T : Type)
  | close
  | destroy
  | transfer (t : T) (issues : Bool)
  | finished
  | openCompleted (fd : Option ℕ)
  | emit (issues : Bool)
  | completed (ok : Bool)

def Enabled (h : Handle T) : Event T → Prop
  | .openCompleted _ => h.opening ∧ h.emitting = []
  | .emit _ => h.emitting ≠ []
  | .completed _ => h.inFlight ≠ 0 ∧ h.emitting = []
  | _ => True

def next (h : Handle T) : Event T → Handle T
  | .close => close { h with requested := true }
  | .destroy => destroy { h with requested := true }
  | .transfer t issues => h.transfer t issues
  | .finished => h.finished
  | .openCompleted fd => h.openCompleted fd
  | .emit issues => h.emit issues
  | .completed ok => h.completed ok

end Handle

/-- The life of a stream. -/
def lifecycle (T : Type) : System (Handle T) (Handle.Event T) where
  Enabled := Handle.Enabled
  next := Handle.next

namespace Handle

variable {T : Type} {h : Handle T}

theorem close_of_none (hfd : h.fd = none) :
    h.close = { h with listeners := h.listeners ++ [.close] } := by
  simp [Handle.close, hfd]

theorem close_of_some {fd : ℕ} (hfd : h.fd = some fd) (hclosed : h.closed = false) :
    h.close = { h with closed := true, fd := none, issued := h.issued ++ [.close fd] } := by
  simp [Handle.close, hfd, hclosed, closeNow, fdOr]

theorem transfer_of_none (hfd : h.fd = none) (t : T) (issues : Bool) :
    h.transfer t issues = { h with listeners := h.listeners ++ [.transfer t] } := by
  simp [Handle.transfer, hfd]

theorem transfer_of_some {fd : ℕ} (hfd : h.fd = some fd) (t : T) (issues : Bool) :
    h.transfer t issues = h ∨ h.transfer t issues =
      { h with inFlight := h.inFlight + 1, issued := h.issued ++ [.transfer fd] } := by
  simp only [Handle.transfer, hfd]
  split_ifs
  · exact .inl rfl
  · exact .inr rfl
  · exact .inl rfl

/-! ## What there is to do -/

/-- The calls of `_read`, `_write` or `_writev` that wait for the event `open`. -/
def pending (h : Handle T) : List T :=
  (h.emitting ++ h.listeners).filterMap fun
    | .transfer t => some t
    | .close => none

/-- Neither the calls that wait nor the system calls in flight change. -/
structure SameWork (h h' : Handle T) : Prop where
  kind : h'.kind = h.kind
  opening : h'.opening = h.opening
  emitting : h'.emitting = h.emitting
  inFlight : h'.inFlight = h.inFlight
  pending : h'.pending = h.pending

theorem sameWork_close (h : Handle T) : SameWork h h.close := by
  simp only [Handle.close, Handle.closeNow]
  split_ifs
  · exact ⟨rfl, rfl, rfl, rfl, by simp [pending]⟩
  · exact ⟨rfl, rfl, rfl, rfl, rfl⟩
  · exact ⟨rfl, rfl, rfl, rfl, rfl⟩

theorem sameWork_destroy (h : Handle T) : SameWork h h.destroy := by
  rw [Handle.destroy]
  split
  · exact ⟨rfl, rfl, rfl, rfl, rfl⟩
  · have hclose := sameWork_close { h with destroyed := true }
    exact ⟨hclose.kind, hclose.opening, hclose.emitting, hclose.inFlight, hclose.pending⟩

theorem sameWork_finished (h : Handle T) : SameWork h h.finished := by
  rw [Handle.finished]
  split
  · split
    · exact sameWork_destroy h
    · exact sameWork_close h
  · exact ⟨rfl, rfl, rfl, rfl, rfl⟩

/-- A system call is not in flight any more. -/
theorem sameWork_completed (h : Handle T) (ok : Bool) :
    SameWork { h with inFlight := h.inFlight - 1 } (h.completed ok) := by
  rw [Handle.completed]
  split
  · exact ⟨rfl, rfl, rfl, rfl, rfl⟩
  · exact sameWork_destroy _

/-- The file could not be opened. -/
theorem sameWork_openFailed (h : Handle T) :
    SameWork { h with opening := false } (h.openCompleted none) := by
  rw [Handle.openCompleted]
  split
  · exact sameWork_destroy _
  · exact ⟨rfl, rfl, rfl, rfl, rfl⟩

theorem inFlight_openCompleted (h : Handle T) (fd : Option ℕ) :
    (h.openCompleted fd).inFlight = h.inFlight := by
  cases fd with
  | none => exact (sameWork_openFailed h).inFlight
  | some fd => rfl

theorem pending_openCompleted (hemitting : h.emitting = []) (fd : Option ℕ) :
    (h.openCompleted fd).pending = h.pending := by
  cases fd with
  | none => exact (sameWork_openFailed h).pending
  | some fd => simp [pending, Handle.openCompleted, hemitting]

theorem inFlight_transfer_false (h : Handle T) (t : T) :
    (h.transfer t false).inFlight = h.inFlight := by
  rw [transfer]
  split
  · rfl
  · split
    · rfl
    · rfl

theorem inFlight_transfer_true (hfd : h.fd ≠ none) (hread : ¬(h.kind = .read ∧ h.destroyed = true))
    (t : T) : (h.transfer t true).inFlight = h.inFlight + 1 := by
  obtain ⟨fd, hfd⟩ := Option.ne_none_iff_exists'.1 hfd
  rw [transfer, hfd]
  simp only [if_neg hread, if_true]

theorem kind_transfer (h : Handle T) (t : T) (issues : Bool) :
    (h.transfer t issues).kind = h.kind := by
  rw [transfer]
  split
  · rfl
  · split_ifs <;> rfl

theorem kind_next (h : Handle T) (e : Event T) : (h.next e).kind = h.kind := by
  cases e with
  | close => exact (sameWork_close _).kind
  | destroy => exact (sameWork_destroy _).kind
  | transfer t issues => exact kind_transfer h t issues
  | finished => exact (sameWork_finished h).kind
  | openCompleted fd => cases fd with
    | none => exact (sameWork_openFailed h).kind
    | some fd => rfl
  | emit issues =>
    rw [next, emit]
    split
    · rfl
    · rfl
    · exact kind_transfer _ _ _
  | completed ok => exact (sameWork_completed h ok).kind

theorem pending_transfer_of_none (hfd : h.fd = none) (t : T) (issues : Bool) :
    (h.transfer t issues).pending = h.pending ++ [t] := by
  rw [Handle.transfer_of_none hfd]
  simp [pending]

theorem pending_transfer_of_some {fd : ℕ} (hfd : h.fd = some fd) (t : T) (issues : Bool) :
    (h.transfer t issues).pending = h.pending := by
  rcases Handle.transfer_of_some hfd t issues with heq | heq
  · rw [heq]
  · rw [heq]
    rfl

end Handle

/-! ## What is meant, and when it is so -/

namespace Handle

variable {T : Type}

/-- What a stream is meant to do with descriptors. -/
structure Safe (h : Handle T) : Prop where
  /-- Each is closed once, at most. -/
  once : ∀ fd, h.issued.count (.close fd) ≤ 1
  /-- It is not used afterwards. -/
  after : ∀ fd before after, h.issued = before ++ .close fd :: after → .transfer fd ∉ after
  /-- The one that was opened is closed, if `close` or `destroy` was called. -/
  closed : ∀ fd, h.requested → h.opened = some fd → h.emitting = [] →
    h.issued.count (.close fd) = 1

/-- A call of `close` waits for the event `open`. -/
def Waiting (h : Handle T) : Prop := .close ∈ h.emitting ∨ (h.opening ∧ .close ∈ h.listeners)

/-- An event makes the stream call `close`. -/
def Closes (h : Handle T) : Event T → Prop
  | .close => True
  | .destroy => h.destroyed = false
  | .completed false => h.autoClose ∧ h.destroyed = false
  | .finished => h.autoClose ∧ (h.kind = .read → h.destroyed = false)
  | _ => False

/-- The stream does not call `close` while such a call waits. -/
def Calm (h : Handle T) (e : Event T) : Prop := h.Closes e → ¬h.Waiting

/-! ## The stages of a stream -/

/-- The stages of a stream that is calm. A stream that was given a descriptor opened none. -/
inductive Stage (h : Handle T) : Prop
  | opening : h.opening = true → h.fd = none → h.opened = none → h.closed = false →
      h.emitting = [] → h.issued = [] → h.listeners.countP Listener.isClose ≤ 1 →
      (h.requested ∨ h.destroyed → .close ∈ h.listeners) → Stage h
  | opened {fd : ℕ} : h.opening = false → h.fd = some fd → (∀ n, h.opened = some n → n = fd) →
      h.closed = false → (∀ x ∈ h.issued, x = .transfer fd) →
      h.emitting.countP Listener.isClose ≤ 1 →
      (h.requested ∨ h.destroyed → .close ∈ h.emitting) → Stage h
  | closed {fd : ℕ} {before : List Issued} : h.opening = false → h.fd = none →
      (∀ n, h.opened = some n → n = fd) → h.issued = before ++ [.close fd] →
      (∀ x ∈ before, x = .transfer fd) → .close ∉ h.emitting → Stage h
  | failed : h.opening = false → h.fd = none → h.opened = none → h.emitting = [] →
      h.issued = [] → Stage h

theorem stage_init (kind : Kind) (autoClose : Bool) (fd : Option ℕ) :
    Stage (init kind autoClose fd : Handle T) := by
  cases fd with
  | none => exact .opening rfl rfl rfl rfl rfl rfl (Nat.zero_le _) (by simp [init])
  | some fd =>
    refine .opened rfl rfl ?_ rfl (by simp [init]) (Nat.zero_le _) (by simp [init])
    intro n hn
    cases hn

theorem countP_eq_zero {ls : List (Listener T)} (h : .close ∉ ls) :
    ls.countP Listener.isClose = 0 := by
  rw [List.countP_eq_zero]
  intro x hx
  cases x with
  | close => exact absurd hx h
  | transfer t => simp [Listener.isClose]

section Steps

variable {h : Handle T}

/-- A call of `close`, by which the stream may be marked. -/
theorem Stage.close (hs : Stage h) (hw : ¬h.Waiting) (requested destroyed : Bool) :
    Stage (Handle.close { h with requested, destroyed }) := by
  cases hs with
  | opening hopening hfd hopened hclosed hemitting hissued hcount _ =>
    -- it waits, and is the only one that does
    have hnone : .close ∉ h.listeners := fun hmem => hw (.inr ⟨hopening, hmem⟩)
    rw [close_of_none (h := { h with requested, destroyed }) hfd]
    refine .opening hopening hfd hopened hclosed hemitting hissued ?_ ?_
    · rw [List.countP_append, countP_eq_zero hnone]
      exact Nat.le_refl 1
    · exact fun _ => List.mem_append_right _ List.mem_cons_self
  | @opened fd hopening hfd hopened hclosed hissued hcount _ =>
    have hnone : .close ∉ h.emitting := fun hmem => hw (.inl hmem)
    rw [close_of_some (h := { h with requested, destroyed }) hfd hclosed]
    exact .closed hopening rfl hopened rfl hissued hnone
  | closed hopening hfd hopened hissued hbefore hnone =>
    -- there is no descriptor any more: it waits for an event that was emitted before
    rw [close_of_none (h := { h with requested, destroyed }) hfd]
    exact .closed hopening hfd hopened hissued hbefore hnone
  | failed hopening hfd hopened hemitting hissued =>
    rw [close_of_none (h := { h with requested, destroyed }) hfd]
    exact .failed hopening hfd hopened hemitting hissued

/-- A stream that is destroyed has called `close`. -/
theorem Stage.request (hs : Stage h) (hdestroyed : h.destroyed = true) (requested : Bool) :
    Stage { h with requested } := by
  cases hs with
  | opening hopening hfd hopened hclosed hemitting hissued hcount hmem =>
    exact .opening hopening hfd hopened hclosed hemitting hissued hcount
      fun _ => hmem (.inr hdestroyed)
  | opened hopening hfd hopened hclosed hissued hcount hmem =>
    exact .opened hopening hfd hopened hclosed hissued hcount fun _ => hmem (.inr hdestroyed)
  | closed hopening hfd hopened hissued hbefore hnone =>
    exact .closed hopening hfd hopened hissued hbefore hnone
  | failed hopening hfd hopened hemitting hissued =>
    exact .failed hopening hfd hopened hemitting hissued

/-- A call of `destroy`. -/
theorem Stage.destroy (hs : Stage h) (hw : h.destroyed = false → ¬h.Waiting) (requested : Bool) :
    Stage (Handle.destroy { h with requested }) := by
  rw [Handle.destroy]
  split
  · rename_i hdestroyed
    exact hs.request hdestroyed requested
  · rename_i hdestroyed
    exact hs.close (hw (by simpa using hdestroyed)) requested true

theorem Stage.inFlight (hs : Stage h) (inFlight : ℕ) : Stage { h with inFlight } := by
  cases hs with
  | opening hopening hfd hopened hclosed hemitting hissued hcount hmem =>
    exact .opening hopening hfd hopened hclosed hemitting hissued hcount hmem
  | opened hopening hfd hopened hclosed hissued hcount hmem =>
    exact .opened hopening hfd hopened hclosed hissued hcount hmem
  | closed hopening hfd hopened hissued hbefore hnone =>
    exact .closed hopening hfd hopened hissued hbefore hnone
  | failed hopening hfd hopened hemitting hissued =>
    exact .failed hopening hfd hopened hemitting hissued

theorem Stage.transfer (hs : Stage h) (t : T) (issues : Bool) : Stage (h.transfer t issues) := by
  cases hs with
  | opening hopening hfd hopened hclosed hemitting hissued hcount hmem =>
    rw [transfer_of_none hfd]
    refine .opening hopening hfd hopened hclosed hemitting hissued ?_ ?_
    · simpa [List.countP_append, Listener.isClose] using hcount
    · exact fun hor => List.mem_append_left _ (hmem hor)
  | @opened fd hopening hfd hopened hclosed hissued hcount hmem =>
    rcases transfer_of_some hfd t issues with heq | heq
    · rw [heq]
      exact .opened hopening hfd hopened hclosed hissued hcount hmem
    · rw [heq]
      refine .opened hopening hfd hopened hclosed ?_ hcount hmem
      intro x hx
      rcases List.mem_append.1 hx with hx | hx
      · exact hissued x hx
      · exact List.mem_singleton.1 hx
  | closed hopening hfd hopened hissued hbefore hnone =>
    rw [transfer_of_none hfd]
    exact .closed hopening hfd hopened hissued hbefore hnone
  | failed hopening hfd hopened hemitting hissued =>
    rw [transfer_of_none hfd]
    exact .failed hopening hfd hopened hemitting hissued

theorem Stage.openCompleted (hs : Stage h) (hopening : h.opening = true) (fd : Option ℕ) :
    Stage (h.openCompleted fd) := by
  cases hs with
  | opening _ hfd hopened hclosed hemitting hissued hcount hmem => cases fd with
    | some fd =>
      refine .opened rfl rfl ?_ hclosed ?_ hcount hmem
      · intro n hn
        exact (Option.some.inj hn).symm
      · intro x hx
        rw [Handle.openCompleted, hissued] at hx
        cases hx
    | none =>
      have hfailed : Stage { h with opening := false } := .failed rfl hfd hopened hemitting hissued
      rw [Handle.openCompleted]
      split
      · refine hfailed.destroy (fun _ hwaiting => ?_) h.requested
        rcases hwaiting with hmem | ⟨hopening, -⟩
        · simp [hemitting] at hmem
        · cases hopening
      · exact hfailed
  | opened hopening' => simp [hopening] at hopening'
  | closed hopening' => simp [hopening] at hopening'
  | failed hopening' => simp [hopening] at hopening'

/-- A listener of `open` is called. -/
theorem Stage.emit (hs : Stage h) (hemit : h.emitting ≠ []) (issues : Bool) :
    Stage (h.emit issues) := by
  obtain ⟨x, ls, hls⟩ := List.exists_cons_of_ne_nil hemit
  cases hs with
  | opening _ _ _ _ hemitting => exact absurd hemitting hemit
  | failed _ _ _ hemitting => exact absurd hemitting hemit
  | @opened fd hopening hfd hopened hclosed hissued hcount hmem =>
    rw [hls] at hcount hmem
    cases x with
    | close =>
      have hnone : .close ∉ ls := by
        intro hmem
        have hpos : 0 < ls.countP Listener.isClose :=
          List.countP_pos_iff.2 ⟨.close, hmem, rfl⟩
        rw [List.countP_cons_of_pos rfl] at hcount
        omega
      -- the descriptor of the event is the one of the stream, be it `0` or not
      have hor : fdOr h.opened (some fd) = fd := by
        cases ho : h.opened with
        | none => rfl
        | some n =>
          rw [hopened n ho]
          cases fd <;> rfl
      simp only [Handle.emit, hls, closeNow, hfd, hor]
      exact .closed hopening rfl hopened rfl hissued hnone
    | transfer t =>
      have hstage : Stage { h with emitting := ls } := by
        refine .opened hopening hfd hopened hclosed hissued ?_ ?_
        · simpa [Listener.isClose] using hcount
        · exact fun hor => by simpa using hmem hor
      simp only [Handle.emit, hls]
      exact hstage.transfer t issues
  | closed hopening hfd hopened hissued hbefore hnone =>
    rw [hls] at hnone
    cases x with
    | close => exact absurd List.mem_cons_self hnone
    | transfer t =>
      have hstage : Stage { h with emitting := ls } := by
        refine .closed hopening hfd hopened hissued hbefore ?_
        exact fun hmem => hnone (List.mem_cons_of_mem _ hmem)
      simp only [Handle.emit, hls]
      exact hstage.transfer t issues

theorem Stage.next (hs : Stage h) {e : Event T} (he : h.Enabled e) (hcalm : h.Calm e) :
    Stage (h.next e) := by
  cases e with
  | close => exact hs.close (hcalm trivial) true h.destroyed
  | destroy => exact hs.destroy hcalm true
  | transfer t issues => exact hs.transfer t issues
  | finished =>
    simp only [Handle.next, Handle.finished]
    split
    · rename_i hauto
      cases hkind : h.kind with
      | read =>
        exact hs.destroy (fun hd => hcalm ⟨hauto, fun _ => hd⟩) h.requested
      | write => exact hs.close (hcalm ⟨hauto, by simp [hkind]⟩) h.requested h.destroyed
    · exact hs
  | openCompleted fd => exact hs.openCompleted he.1 fd
  | emit issues => exact hs.emit he issues
  | completed ok =>
    simp only [Handle.next, Handle.completed]
    split
    · exact hs.inFlight _
    · rename_i hor
      have hok : ok = false ∧ h.autoClose = true := by simpa using hor
      refine (hs.inFlight (h.inFlight - 1)).destroy (fun hd => ?_) h.requested
      obtain ⟨rfl, hauto⟩ := hok
      exact hcalm ⟨hauto, hd⟩

/-- What was issued, at every stage. -/
theorem Stage.safe (hs : Stage h) : h.Safe := by
  cases hs with
  | opening hopening hfd hopened hclosed hemitting hissued _ _ =>
    refine ⟨by simp [hissued], by simp [hissued], ?_⟩
    intro fd _ hfd'
    simp [hopened] at hfd'
  | @opened fd hopening hfd hopened hclosed hissued hcount hmem =>
    -- nothing was closed, and a call of `close` is about to be made if one was asked for
    have hnone : ∀ n, .close n ∉ h.issued := by
      intro n hmem
      have := hissued _ hmem
      simp at this
    refine ⟨fun n => ?_, fun n before after heq => ?_, fun n hrequested _ hemitting => ?_⟩
    · rw [List.count_eq_zero.2 (hnone n)]
      exact Nat.zero_le 1
    · exact absurd (heq ▸ by simp) (hnone n)
    · have := hmem (.inl hrequested)
      simp [hemitting] at this
  | @closed fd before hopening hfd hopened hissued hbefore hnone =>
    have hzero : ∀ n, before.count (.close n) = 0 := by
      intro n
      rw [List.count_eq_zero]
      intro hmem
      have := hbefore _ hmem
      simp at this
    refine ⟨fun n => ?_, fun n before' after heq => ?_, fun n _ hn _ => ?_⟩
    · rw [hissued, List.count_append, hzero, Nat.zero_add]
      exact List.count_le_length
    · -- nothing comes after the only `close`
      rw [hissued] at heq
      rcases List.eq_nil_or_concat after with rfl | ⟨after, x, rfl⟩
      · exact List.not_mem_nil
      · have heq' : before ++ [.close fd] = (before' ++ .close n :: after) ++ [x] := by
          simpa using heq
        have hmem : .close n ∈ before := by
          rw [(List.append_inj' heq' rfl).1]
          simp
        have := hbefore _ hmem
        simp at this
    · rw [hopened n hn, hissued, List.count_append, hzero]
      simp
  | failed hopening hfd hopened hemitting hissued =>
    refine ⟨by simp [hissued], by simp [hissued], ?_⟩
    intro fd _ hfd'
    simp [hopened] at hfd'

end Steps

/-- A stream that never calls `close` while such a call waits takes care of its descriptor. -/
theorem safe_of_calm (kind : Kind) (autoClose : Bool) (fd : Option ℕ) {es : List (Event T)}
    (hrun : (lifecycle T).IsRun (init kind autoClose fd) es)
    (hcalm : (lifecycle T).Along Calm (init kind autoClose fd) es) :
    ((lifecycle T).run (init kind autoClose fd) es).Safe := by
  have hreachable := System.reachable_run (System.isRun_restrict.2 ⟨hrun, hcalm⟩)
  have hstage : Stage ((lifecycle T).run (init kind autoClose fd) es) :=
    hreachable.invariant (stage_init kind autoClose fd) fun h e hs he => hs.next he.1 he.2
  exact hstage.safe

/-- A stream asked to read and then destroyed, before its file is open. -/
def destroyEarly : List (Event ℕ) :=
  [.transfer 8 false, .destroy, .openCompleted (some 3), .emit false, .emit false, .close]

theorem safe_destroyEarly :
    (lifecycle ℕ).IsRun (init .read true none) destroyEarly ∧
      ((lifecycle ℕ).run (init .read true none) destroyEarly).issued = [.close 3] ∧
      ((lifecycle ℕ).run (init .read true none) destroyEarly).Safe := by
  have hrun : (lifecycle ℕ).IsRun (init .read true none) destroyEarly :=
    ⟨trivial, trivial, ⟨rfl, rfl⟩, List.cons_ne_nil _ _, List.cons_ne_nil _ _, trivial, trivial⟩
  refine ⟨hrun, rfl, safe_of_calm .read true none hrun ?_⟩
  refine ⟨False.elim, fun _ => ?_, False.elim, False.elim, False.elim, fun _ => ?_, trivial⟩
  · rintro (hmem | ⟨-, hmem⟩) <;> simp [lifecycle, Handle.next, Handle.transfer, init] at hmem
  · rintro (hmem | ⟨hopening, -⟩)
    · cases hmem
    · cases hopening

/-- `close` is called twice before the file is open. -/
def closeTwice : List (Event ℕ) :=
  [.close, .close, .openCompleted (some 3), .emit false, .emit false]

/-- The descriptor is closed twice. -/
theorem not_safe_closeTwice :
    (lifecycle ℕ).IsRun (init .read true none) closeTwice ∧
      ((lifecycle ℕ).run (init .read true none) closeTwice).issued = [.close 3, .close 3] ∧
      ¬((lifecycle ℕ).run (init .read true none) closeTwice).Safe := by
  refine ⟨⟨trivial, trivial, ⟨rfl, rfl⟩, List.cons_ne_nil _ _, List.cons_ne_nil _ _, trivial⟩, rfl,
    fun hsafe => ?_⟩
  have honce := hsafe.once 3
  have hissued : ((lifecycle ℕ).run (init .read true none) closeTwice).issued =
      [.close 3, .close 3] := rfl
  rw [hissued] at honce
  exact absurd honce (by decide)

end Handle

end Stream

end NodeLkl
