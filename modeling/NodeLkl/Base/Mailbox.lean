import NodeLkl.Base.System
import Mathlib.Logic.Function.Basic

/-!
# A mailbox

Threads have closures run by a single main thread, through a mailbox with a
single slot: a thread takes a mutex, puts the address of its record (the
closure, and a semaphore) in the slot, signals the main thread, and waits for
its semaphore before it releases the mutex. The main thread, when signalled,
reads the slot, runs the closure of the record found there, and posts the
semaphore. Signals are not counted: signalling twice is signalling once.

The record of a thread lives on its stack, hence only while it is in a call
(`Pc.record`); reading one that is no longer there is a fault (`Main.fault`).

As the mutex is held all along, a closure is run once, before its call returns,
and no record is missed, mistaken for another, or used too late
(`Inv`, `Inv.passed_eq_ran`, `Inv.main_ne_fault`); and a call never gets stuck,
if closures return (`Inv.exists_enabled`).
-/

namespace NodeLkl

namespace Mailbox

/-- Where a thread is in a call with the closure `c`: not in one, taking the
    mutex, having it, having put its record in the slot, having signalled (it
    waits for its semaphore), having been woken. -/
inductive Pc (C : Type*)
  | out
  | locking (c : C)
  | locked (c : C)
  | stored (c : C)
  | waiting (c : C)
  | leaving (c : C)

/-- The record on the stack of a thread: its closure, from the time it has the
    mutex. -/
def Pc.record {C : Type*} : Pc C → Option C
  | out | locking _ => none
  | locked c | stored c | waiting c | leaving c => some c

/-- The closure of the call a thread is in. -/
def Pc.closure {C : Type*} : Pc C → Option C
  | out => none
  | locking c | locked c | stored c | waiting c | leaving c => some c

/-- What the main thread is doing: nothing, running the closure `c` of the
    thread `t`, having run it, or using a record that is not there. -/
inductive Main (T C : Type*)
  | idle
  | running (t : T) (c : C)
  | ran (t : T)
  | fault

end Mailbox

open Mailbox in
/-- A mailbox for the threads `T` and the closures `C`. Besides its state, the
    closures passed in calls and those run are recorded, by thread. -/
structure Mailbox (T C : Type*) where
  lock : Option T
  pc : T → Pc C
  slot : Option T
  signal : Bool
  sem : T → ℕ
  main : Main T C
  passed : T → List C
  ran : T → List C

namespace Mailbox

variable {T C : Type*}

/-- Initially, no thread is in a call. -/
def init : Mailbox T C where
  lock := none
  pc _ := .out
  slot := none
  signal := false
  sem _ := 0
  main := .idle
  passed _ := []
  ran _ := []

/-- The steps of a call, by the thread making it and by the main thread. -/
inductive Event (T C : Type*)
  | enter (t : T) (c : C)
  | lock (t : T)
  | store (t : T)
  | send (t : T)
  | wake
  | ret
  | post
  | acquire (t : T)
  | unlock (t : T)

/-- The steps of a call, but the first. -/
def Event.Inner {T C : Type*} : Event T C → Prop
  | .enter _ _ => False
  | _ => True

/-- The steps of the main thread. -/
def Event.OfMain {T C : Type*} : Event T C → Prop
  | .wake | .ret | .post => True
  | _ => False

/-- The main thread, having read the slot: it runs the closure of the record. -/
def read (m : Mailbox T C) : Main T C :=
  match m.slot with
  | none => .fault
  | some t => match (m.pc t).record with
    | none => .fault
    | some c => .running t c

/-- The mailbox. -/
def system (T C : Type*) [DecidableEq T] : System (Mailbox T C) (Event T C) where
  Enabled m
    | .enter t _ => m.pc t = .out
    | .lock t => m.lock = none ∧ ∃ c, m.pc t = .locking c
    | .store t => ∃ c, m.pc t = .locked c
    | .send t => ∃ c, m.pc t = .stored c
    | .wake => m.signal = true ∧ m.main = .idle
    | .ret => ∃ t c, m.main = .running t c
    | .post => ∃ t, m.main = .ran t
    | .acquire t => 0 < m.sem t ∧ ∃ c, m.pc t = .waiting c
    | .unlock t => ∃ c, m.pc t = .leaving c
  next m
    | .enter t c => { m with
        pc := Function.update m.pc t (.locking c)
        passed := Function.update m.passed t (m.passed t ++ [c]) }
    -- the record is made, with its semaphore
    | .lock t => { m with
        lock := some t
        sem := Function.update m.sem t 0
        pc := Function.update m.pc t (match m.pc t with | .locking c => .locked c | pc => pc) }
    | .store t => { m with
        slot := some t
        pc := Function.update m.pc t (match m.pc t with | .locked c => .stored c | pc => pc) }
    | .send t => { m with
        signal := true
        pc := Function.update m.pc t (match m.pc t with | .stored c => .waiting c | pc => pc) }
    | .wake => { m with
        signal := false
        main := m.read
        ran := match m.read with
          | .running t c => Function.update m.ran t (m.ran t ++ [c])
          | _ => m.ran }
    | .ret => { m with main := match m.main with | .running t _ => .ran t | main => main }
    | .post => match m.main with
        -- the semaphore is that of the record, on the stack of the thread
        | .ran t => if (m.pc t).record.isSome then
            { m with main := .idle, sem := Function.update m.sem t (m.sem t + 1) }
          else { m with main := .fault }
        | _ => m
    | .acquire t => { m with
        sem := Function.update m.sem t (m.sem t - 1)
        pc := Function.update m.pc t (match m.pc t with | .waiting c => .leaving c | pc => pc) }
    | .unlock t => { m with
        lock := none
        pc := Function.update m.pc t .out }

variable {m : Mailbox T C}

section Steps

variable [DecidableEq T]

theorem next_enter (t : T) (c : C) : (system T C).next m (.enter t c) = { m with
    pc := Function.update m.pc t (.locking c)
    passed := Function.update m.passed t (m.passed t ++ [c]) } := rfl

theorem next_wake {t : T} {c : C} (hread : m.read = .running t c) :
    (system T C).next m .wake = { m with
      signal := false
      main := .running t c
      ran := Function.update m.ran t (m.ran t ++ [c]) } := by
  dsimp only [system]
  rw [hread]

theorem next_post {t : T} {c : C} (hm : m.main = .ran t) (ht : (m.pc t).record = some c) :
    (system T C).next m .post =
      { m with main := .idle, sem := Function.update m.sem t (m.sem t + 1) } := by
  dsimp only [system]
  rw [hm]
  exact if_pos (by rw [ht]; rfl)

/-- Closures are passed by entering a call. -/
theorem passed_next {e : Event T C} (he : e.Inner) : ((system T C).next m e).passed = m.passed := by
  cases e with
  | enter t c => exact he.elim
  | post =>
    simp only [system]
    split
    · split <;> rfl
    · rfl
  | _ => rfl

/-- Closures are run by the main thread, woken up. -/
theorem ran_next {e : Event T C} (he : e ≠ .wake) : ((system T C).next m e).ran = m.ran := by
  cases e with
  | wake => exact absurd rfl he
  | post =>
    simp only [system]
    split
    · split <;> rfl
    · rfl
  | _ => rfl

/-- Nothing but the main thread changes what it does. -/
theorem main_next {e : Event T C} (he : ¬e.OfMain) : ((system T C).next m e).main = m.main := by
  cases e with
  | wake | ret | post => exact absurd trivial he
  | _ => rfl

/-- In a call, the closure remains the same. -/
theorem closure_of_next {e : Event T C} (he : e.Inner) {t : T} {c : C}
    (hc : (((system T C).next m e).pc t).closure = some c) : (m.pc t).closure = some c := by
  have hupdate : ∀ {u : T} {p : Pc C}, (p.closure = some c → (m.pc u).closure = some c) →
      (Function.update m.pc u p t).closure = some c → (m.pc t).closure = some c := by
    intro u p hp h
    by_cases htu : t = u
    · subst htu
      exact hp (by simpa using h)
    · simpa [Function.update_of_ne htu] using h
  cases e with
  | enter t c => exact he.elim
  | wake => exact hc
  | ret => exact hc
  | post =>
    simp only [system] at hc
    split at hc
    · split at hc <;> exact hc
    · exact hc
  | unlock u => exact hupdate (fun h => by cases h) hc
  | _ u =>
    refine hupdate (fun h => ?_) hc
    revert h
    cases m.pc u <;> exact id

/-- A thread that is not in a call remains so, but by entering one. -/
theorem out_next {e : Event T C} (he : e.Inner) {t : T} (ht : m.pc t = .out) :
    ((system T C).next m e).pc t = .out := by
  cases hpc : ((system T C).next m e).pc t with
  | out => rfl
  | _ =>
    have hc := closure_of_next (m := m) he (t := t) (by rw [hpc]; rfl)
    rw [ht] at hc
    cases hc

end Steps

/-- Nothing is going on in the main thread. -/
def Quiet (m : Mailbox T C) : Prop := m.signal = false ∧ m.main = .idle

/-- How far a call has got, of a thread which waits for its semaphore: the main
    thread is signalled, runs its closure, has run it, or has posted the
    semaphore. -/
def Stage (m : Mailbox T C) (t : T) (c : C) : Prop :=
  (m.signal = true ∧ m.main = .idle ∧ m.sem t = 0) ∨
    (m.signal = false ∧ m.main = .running t c ∧ m.sem t = 0) ∨
    (m.signal = false ∧ m.main = .ran t ∧ m.sem t = 0) ∨
    (m.signal = false ∧ m.main = .idle ∧ m.sem t = 1)

/-- What is going on when the thread `t` has the mutex. -/
def HeldBy (m : Mailbox T C) (t : T) : Pc C → Prop
  | .out | .locking _ => False
  | .locked _ | .leaving _ => m.Quiet ∧ m.sem t = 0
  | .stored _ => m.slot = some t ∧ m.Quiet ∧ m.sem t = 0
  | .waiting c => m.slot = some t ∧ m.Stage t c

/-- The closures of the thread `t` have all been run, but for the one of a call
    in progress whose turn has not come. -/
def Account (m : Mailbox T C) (t : T) : Pc C → Prop
  | .out | .leaving _ => m.passed t = m.ran t
  | .locking c | .locked c | .stored c => m.passed t = m.ran t ++ [c]
  | .waiting c => m.passed t = if m.signal then m.ran t ++ [c] else m.ran t

/-- The invariant of the mailbox: the thread having the mutex is the only one
    with a record and a semaphore, and what is going on is for it. -/
structure Inv (m : Mailbox T C) : Prop where
  record : ∀ t c, (m.pc t).record = some c → m.lock = some t
  free : m.lock = none → m.Quiet
  held : ∀ t, m.lock = some t → m.HeldBy t (m.pc t)
  sem : ∀ t, m.lock ≠ some t → m.sem t = 0
  account : ∀ t, m.Account t (m.pc t)

theorem inv_init : Inv (init : Mailbox T C) where
  record _ _ h := by cases h
  free _ := ⟨rfl, rfl⟩
  held _ h := by cases h
  sem _ _ := rfl
  account _ := rfl

namespace Inv

/-- Only the thread having the mutex waits. -/
theorem lock_of_waiting (h : Inv m) {t : T} {c : C} (ht : m.pc t = .waiting c) :
    m.lock = some t :=
  h.record t c (by rw [ht]; rfl)

/-- What is known of the closures of a thread, by how far its call has got. -/
theorem account_of (h : Inv m) {t : T} {p : Pc C} (ht : m.pc t = p) : m.Account t p :=
  ht ▸ h.account t

/-- What is known of a thread with a record: it has the mutex. -/
theorem held_of (h : Inv m) {t : T} {p : Pc C} {c : C} (ht : m.pc t = p)
    (hp : p.record = some c) : m.lock = some t ∧ m.HeldBy t p := by
  have hl : m.lock = some t := h.record t c (by rw [ht, hp])
  exact ⟨hl, ht ▸ h.held t hl⟩

/-- If something is going on in the main thread, it is for a thread that waits. -/
theorem exists_waiting (h : Inv m) (hm : ¬m.Quiet) :
    ∃ t c, m.pc t = .waiting c ∧ m.slot = some t ∧ m.Stage t c := by
  rcases hl : m.lock with _ | t
  · exact absurd (h.free hl) hm
  · have ht := h.held t hl
    cases hpc : m.pc t with
    | waiting c => exact ⟨t, c, hpc, by simpa [hpc, HeldBy] using ht⟩
    | stored c => exact absurd (hpc ▸ ht).2.1 hm
    | _ => simp_all [HeldBy]

/-- A step of a thread, or of the main thread for it, while no other thread has
    the mutex: only what has changed of it is to be looked at. -/
theorem frame {m' : Mailbox T C} (h : Inv m) (t : T) (hlock : ∀ u ≠ t, m.lock ≠ some u)
    (hoff : ∀ u ≠ t, m'.lock ≠ some u ∧ m'.pc u = m.pc u ∧ m'.sem u = m.sem u ∧
      m'.passed u = m.passed u ∧ m'.ran u = m.ran u)
    (hfree : m'.lock = none → m'.Quiet ∧ (m'.pc t).record = none ∧ m'.sem t = 0)
    (hheld : m'.lock = some t → m'.HeldBy t (m'.pc t))
    (haccount : m'.Account t (m'.pc t)) : Inv m' := by
  have hcases : m'.lock = none ∨ m'.lock = some t := by
    rcases hl : m'.lock with _ | u
    · exact .inl rfl
    · by_cases hu : u = t
      · exact .inr (hu ▸ rfl)
      · exact absurd hl (hoff u hu).1
  refine ⟨fun u c hu => ?_, fun hl => (hfree hl).1, fun u hl => ?_, fun u hl => ?_, fun u => ?_⟩
  · by_cases hut : u = t
    · subst hut
      refine hcases.resolve_left fun hl => ?_
      rw [(hfree hl).2.1] at hu
      cases hu
    · rw [(hoff u hut).2.1] at hu
      exact absurd (h.record u c hu) (hlock u hut)
  · by_cases hut : u = t
    · exact hut ▸ hheld (hut ▸ hl)
    · exact absurd hl (hoff u hut).1
  · by_cases hut : u = t
    · subst hut
      exact (hfree (hcases.resolve_right hl)).2.2
    · rw [(hoff u hut).2.2.1]
      exact h.sem u (hlock u hut)
  · by_cases hut : u = t
    · exact hut ▸ haccount
    · obtain ⟨-, hpc, -, hpassed, hran⟩ := hoff u hut
      have hu := h.account u
      rw [hpc]
      -- a thread that waits has the mutex, so that the signal is not for `u`
      cases hpcu : m.pc u with
      | waiting c => exact absurd (h.lock_of_waiting hpcu) (hlock u hut)
      | _ =>
        rw [hpcu] at hu
        simpa only [Account, hpassed, hran] using hu

/-- A step of the thread having the mutex, or of the main thread for it, which
    does not release the mutex. -/
theorem frame_of_lock {m' : Mailbox T C} (h : Inv m) {t : T} {p : Pc C} (hl : m.lock = some t)
    (hlock : m'.lock = m.lock) (hpc : m'.pc t = p)
    (hoff : ∀ u ≠ t, m'.pc u = m.pc u ∧ m'.sem u = m.sem u ∧ m'.passed u = m.passed u ∧
      m'.ran u = m.ran u)
    (hheld : m'.HeldBy t p) (haccount : m'.Account t p) : Inv m' := by
  subst hpc
  have hother : ∀ u ≠ t, m.lock ≠ some u :=
    fun u hu hl' => hu (Option.some.inj (hl'.symm.trans hl))
  refine h.frame t hother (fun u hu => ⟨?_, hoff u hu⟩) (fun hnone => ?_) (fun _ => hheld) haccount
  · exact hlock ▸ hother u hu
  · rw [hlock, hl] at hnone
    cases hnone

/-- A call that has returned, or not begun, leaves no closure to run, nor has it
    run one twice. -/
theorem passed_eq_ran (h : Inv m) {t : T} (ht : m.pc t = .out) : m.passed t = m.ran t := by
  simpa [Account, ht] using h.account t

/-- A closure that has been run has been passed. -/
theorem ran_subset_passed (h : Inv m) (t : T) : m.ran t ⊆ m.passed t := by
  have ht := h.account t
  intro c hc
  cases hpc : m.pc t with
  | out | leaving c' =>
    rw [hpc] at ht
    exact ht ▸ hc
  | locking c' | locked c' | stored c' =>
    rw [hpc] at ht
    rw [ht]
    exact List.mem_append_left _ hc
  | waiting c' =>
    rw [hpc] at ht
    rw [ht]
    split
    · exact List.mem_append_left _ hc
    · exact hc

/-- The main thread, signalled, finds the closure of a thread that waits, which
    has not been run. -/
theorem read_of_signal (h : Inv m) (hs : m.signal = true) :
    ∃ t c, m.read = .running t c ∧ m.pc t = .waiting c ∧ m.passed t = m.ran t ++ [c] := by
  obtain ⟨t, c, ht, hslot, -⟩ := h.exists_waiting fun hq => by simp [hq.1] at hs
  have haccount := h.account t
  rw [ht] at haccount
  refine ⟨t, c, ?_, ht, ?_⟩
  · simp [read, hslot, ht, Pc.record]
  · simpa [Account, hs] using haccount

/-- The closure that runs is the one of a thread that waits. -/
theorem waiting_of_running (h : Inv m) {t : T} {c : C} (hm : m.main = .running t c) :
    m.pc t = .waiting c := by
  obtain ⟨u, c', hu, -, hstage⟩ := h.exists_waiting fun hq => by simp [hq.2] at hm
  obtain ⟨-, ⟨rfl, rfl⟩, -⟩ : _ ∧ (t = u ∧ c = c') ∧ _ := by simpa [Stage, hm] using hstage
  exact hu

/-- While the main thread is busy, it is not signalled. -/
theorem signal_eq_false (h : Inv m) (hm : m.main ≠ .idle) : m.signal = false := by
  obtain ⟨t, c, -, -, hstage⟩ := h.exists_waiting fun hq => hm hq.2
  rcases hstage with ⟨-, hidle, -⟩ | ⟨hs, -⟩ | ⟨hs, -⟩ | ⟨hs, -⟩
  · exact absurd hidle hm
  all_goals exact hs

/-- The thread whose closure has been run still waits. -/
theorem waiting_of_ran (h : Inv m) {t : T} (hm : m.main = .ran t) : ∃ c, m.pc t = .waiting c := by
  obtain ⟨u, c, hu, -, hstage⟩ := h.exists_waiting fun hq => by simp [hq.2] at hm
  obtain ⟨-, rfl, -⟩ : _ ∧ t = u ∧ _ := by simpa [Stage, hm] using hstage
  exact ⟨c, hu⟩

/-- A semaphore that is posted is that of a thread whose closure has been run. -/
theorem quiet_of_sem (h : Inv m) {t : T} {c : C} (hsem : 0 < m.sem t)
    (ht : m.pc t = .waiting c) : m.Quiet := by
  obtain ⟨-, hstage⟩ : m.HeldBy t (.waiting c) := ht ▸ h.held t (h.lock_of_waiting ht)
  simp only [Stage, Nat.ne_of_gt hsem, and_false, false_or] at hstage
  exact ⟨hstage.1, hstage.2.1⟩

/-- No record is used that is not there. -/
theorem main_ne_fault (h : Inv m) : m.main ≠ .fault := by
  intro hm
  obtain ⟨u, c, -, -, hstage⟩ := h.exists_waiting fun hq => by simp [hq.2] at hm
  simp [Stage, hm] at hstage

variable [DecidableEq T]

/-- A thread enters a call, whoever has the mutex. -/
theorem enter (h : Inv m) {t : T} (c : C) (ht : m.pc t = .out) :
    Inv ((system T C).next m (.enter t c)) := by
  have hne : m.lock ≠ some t := fun hl => by simpa only [ht, HeldBy] using h.held t hl
  refine ⟨fun u c' hu => ?_, h.free, fun u hl => ?_, h.sem, fun u => ?_⟩
  all_goals
    simp only [system] at *
    by_cases hut : u = t
  · simp [hut, Pc.record] at hu
  · exact h.record u c' (by simpa only [Function.update_of_ne hut] using hu)
  · exact absurd (hut ▸ hl) hne
  · rw [Function.update_of_ne hut]
    exact h.held u hl
  · subst hut
    rw [Function.update_self]
    have hpassed : m.passed u = m.ran u := h.account_of ht
    simp only [Account, Function.update_self, hpassed]
  · have haccount := h.account u
    rw [Function.update_of_ne hut]
    unfold Account at haccount ⊢
    simpa only [Function.update_of_ne hut] using haccount

/-- It takes the mutex. -/
theorem lock (h : Inv m) {t : T} {c : C} (hl : m.lock = none) (ht : m.pc t = .locking c) :
    Inv ((system T C).next m (.lock t)) := by
  have hpc : ((system T C).next m (.lock t)).pc t = .locked c := by simp [system, ht]
  refine h.frame t (by simp [hl]) (fun u hu => ?_) nofun (fun _ => ?_) ?_
  · exact ⟨fun heq => hu (Option.some.inj heq).symm, Function.update_of_ne hu ..,
      Function.update_of_ne hu .., rfl, rfl⟩
  · rw [hpc]
    exact ⟨h.free hl, Function.update_self ..⟩
  · rw [hpc]
    exact h.account_of ht

/-- It puts its record in the slot. -/
theorem store (h : Inv m) {t : T} {c : C} (ht : m.pc t = .locked c) :
    Inv ((system T C).next m (.store t)) := by
  obtain ⟨hl, hquiet, hsem⟩ := h.held_of ht rfl
  refine h.frame_of_lock (p := .stored c) hl rfl (by simp [system, ht]) (fun u hu => ?_) ?_ ?_
  · exact ⟨Function.update_of_ne hu .., rfl, rfl, rfl⟩
  · exact ⟨rfl, hquiet, hsem⟩
  · exact h.account_of ht

/-- It signals the main thread. -/
theorem send (h : Inv m) {t : T} {c : C} (ht : m.pc t = .stored c) :
    Inv ((system T C).next m (.send t)) := by
  obtain ⟨hl, hslot, ⟨-, hmain⟩, hsem⟩ := h.held_of ht rfl
  refine h.frame_of_lock (p := .waiting c) hl rfl (by simp [system, ht]) (fun u hu => ?_) ?_ ?_
  · exact ⟨Function.update_of_ne hu .., rfl, rfl, rfl⟩
  · exact ⟨hslot, .inl ⟨rfl, hmain, hsem⟩⟩
  · exact h.account_of ht

/-- The main thread, signalled, runs its closure. -/
theorem wake (h : Inv m) (hs : m.signal = true) (hm : m.main = .idle) :
    Inv ((system T C).next m .wake) := by
  obtain ⟨t, c, hread, ht, hpassed⟩ := h.read_of_signal hs
  obtain ⟨hl, hslot, hstage⟩ := h.held_of ht rfl
  have hsem : m.sem t = 0 := by simpa [Stage, hs, hm] using hstage
  rw [next_wake hread]
  refine h.frame_of_lock (p := .waiting c) hl rfl ht (fun u hu => ?_) ?_ ?_
  · exact ⟨rfl, rfl, rfl, Function.update_of_ne hu ..⟩
  · exact ⟨hslot, .inr (.inl ⟨rfl, rfl, hsem⟩)⟩
  · change m.passed t = Function.update m.ran t (m.ran t ++ [c]) t
    rw [Function.update_self, hpassed]

/-- The closure returns. -/
theorem ret (h : Inv m) {t : T} {c : C} (hm : m.main = .running t c) :
    Inv ((system T C).next m .ret) := by
  have ht := h.waiting_of_running hm
  obtain ⟨hl, hslot, hstage⟩ := h.held_of ht rfl
  obtain ⟨hs, hsem⟩ : m.signal = false ∧ m.sem t = 0 := by simpa [Stage, hm] using hstage
  refine h.frame_of_lock (p := .waiting c) hl rfl ht (fun u hu => ⟨rfl, rfl, rfl, rfl⟩) ?_ ?_
  · exact ⟨hslot, .inr (.inr (.inl ⟨hs, by dsimp only [system]; rw [hm], hsem⟩))⟩
  · exact h.account_of ht

/-- The main thread posts the semaphore of the thread, which still has its
    record. -/
theorem post (h : Inv m) {t : T} (hm : m.main = .ran t) : Inv ((system T C).next m .post) := by
  obtain ⟨c, ht⟩ := h.waiting_of_ran hm
  obtain ⟨hl, hslot, hstage⟩ := h.held_of ht rfl
  obtain ⟨hs, hsem⟩ : m.signal = false ∧ m.sem t = 0 := by simpa [Stage, hm] using hstage
  rw [next_post hm (c := c) (by rw [ht]; rfl)]
  refine h.frame_of_lock (p := .waiting c) hl rfl ht (fun u hu => ?_) ?_ ?_
  · exact ⟨rfl, Function.update_of_ne hu .., rfl, rfl⟩
  · refine ⟨hslot, .inr (.inr (.inr ⟨hs, rfl, ?_⟩))⟩
    simp only [Function.update_self, hsem]
  · exact h.account_of ht

/-- The thread is woken up, -/
theorem acquire (h : Inv m) {t : T} {c : C} (hpos : 0 < m.sem t) (ht : m.pc t = .waiting c) :
    Inv ((system T C).next m (.acquire t)) := by
  obtain ⟨hl, -, hstage⟩ := h.held_of ht rfl
  obtain ⟨hs, hm, hsem⟩ : m.signal = false ∧ m.main = .idle ∧ m.sem t = 1 := by
    simpa only [Stage, Nat.ne_of_gt hpos, and_false, false_or] using hstage
  refine h.frame_of_lock (p := .leaving c) hl rfl (by simp [system, ht]) (fun u hu => ?_) ?_ ?_
  · exact ⟨Function.update_of_ne hu .., Function.update_of_ne hu .., rfl, rfl⟩
  · refine ⟨⟨hs, hm⟩, ?_⟩
    simp only [system, Function.update_self, hsem]
  · have haccount := h.account_of ht
    rwa [Account, hs, if_neg Bool.false_ne_true] at haccount

/-- and releases the mutex. -/
theorem unlock (h : Inv m) {t : T} {c : C} (ht : m.pc t = .leaving c) :
    Inv ((system T C).next m (.unlock t)) := by
  obtain ⟨hl, hquiet, hsem⟩ := h.held_of ht rfl
  have hpc : ((system T C).next m (.unlock t)).pc t = .out := Function.update_self ..
  refine h.frame t (fun u hu hl' => ?_) (fun u hu => ?_) (fun _ => ?_) nofun ?_
  · exact hu (Option.some.inj (hl'.symm.trans hl))
  · exact ⟨nofun, Function.update_of_ne hu .., rfl, rfl, rfl⟩
  · rw [hpc]
    exact ⟨hquiet, rfl, hsem⟩
  · rw [hpc]
    exact h.account_of ht

/-- Every step keeps the invariant. -/
theorem next (h : Inv m) {e : Event T C} (he : (system T C).Enabled m e) :
    Inv ((system T C).next m e) := by
  cases e with
  | enter t c => exact h.enter c he
  | lock t =>
    obtain ⟨hl, c, ht⟩ := he
    exact h.lock hl ht
  | store t =>
    obtain ⟨c, ht⟩ := he
    exact h.store ht
  | send t =>
    obtain ⟨c, ht⟩ := he
    exact h.send ht
  | wake =>
    obtain ⟨hs, hm⟩ := he
    exact h.wake hs hm
  | ret =>
    obtain ⟨t, c, hm⟩ := he
    exact h.ret hm
  | post =>
    obtain ⟨t, hm⟩ := he
    exact h.post hm
  | acquire t =>
    obtain ⟨hpos, c, ht⟩ := he
    exact h.acquire hpos ht
  | unlock t =>
    obtain ⟨c, ht⟩ := he
    exact h.unlock ht

/-- As long as a thread is in a call, something may happen besides new calls. -/
theorem exists_enabled (h : Inv m) {t : T} (ht : m.pc t ≠ .out) :
    ∃ e, (system T C).Enabled m e ∧ ∀ u c, e ≠ .enter u c := by
  rcases hl : m.lock with _ | u
  · -- nobody has the mutex: `t` is taking it
    cases hpc : m.pc t with
    | out => exact absurd hpc ht
    | locking c => exact ⟨.lock t, ⟨hl, c, hpc⟩, by simp⟩
    | _ => exact absurd (h.record t _ (by rw [hpc]; rfl)) (by simp [hl])
  · -- the thread having the mutex moves, or the main thread does for it
    have hu := h.held u hl
    cases hpc : m.pc u with
    | out => simp [hpc, HeldBy] at hu
    | locking c => simp [hpc, HeldBy] at hu
    | locked c => exact ⟨.store u, ⟨c, hpc⟩, by simp⟩
    | stored c => exact ⟨.send u, ⟨c, hpc⟩, by simp⟩
    | leaving c => exact ⟨.unlock u, ⟨c, hpc⟩, by simp⟩
    | waiting c =>
      rw [hpc] at hu
      rcases hu.2 with ⟨hs, hm, -⟩ | ⟨-, hm, -⟩ | ⟨-, hm, -⟩ | ⟨-, -, hsem⟩
      · exact ⟨.wake, ⟨hs, hm⟩, by simp⟩
      · exact ⟨.ret, ⟨u, c, hm⟩, by simp⟩
      · exact ⟨.post, ⟨u, hm⟩, by simp⟩
      · exact ⟨.acquire u, ⟨by simp [hsem], c, hpc⟩, by simp⟩

end Inv

/-! ## A single thread -/

/-- How much remains to be done of the call of a single thread. -/
def rank (m : Mailbox Unit C) : ℕ :=
  match m.pc () with
  | .out => 0
  | .leaving _ => 1
  | .waiting _ => if m.signal then 8 else match m.main with
    | .running _ _ => 4
    | .ran _ => 3
    | _ => 2
  | .stored _ => 9
  | .locked _ => 10
  | .locking _ => 11

/-- Waking up the main thread does much of what remains, -/
theorem rank_wake {m : Mailbox Unit C} (h : Inv m) (he : (system Unit C).Enabled m .wake) :
    rank ((system Unit C).next m .wake) + 3 < rank m := by
  obtain ⟨hs, -⟩ := he
  obtain ⟨t, c, hread, ht, -⟩ := h.read_of_signal hs
  simp [rank, system, ht, hread, hs]

/-- and every step of a call does some of it. -/
theorem rank_next {m : Mailbox Unit C} (h : Inv m) {e : Event Unit C} (hinner : e.Inner)
    (he : (system Unit C).Enabled m e) : rank ((system Unit C).next m e) < rank m := by
  cases e with
  | enter t c => exact hinner.elim
  | lock t =>
    obtain ⟨-, c, ht⟩ := he
    simp [rank, system, ht]
  | store t =>
    obtain ⟨c, ht⟩ := he
    simp [rank, system, ht]
  | send t =>
    obtain ⟨c, ht⟩ := he
    simp [rank, system, ht]
  | wake => exact Nat.lt_of_le_of_lt (Nat.le_add_right _ 3) (rank_wake h he)
  | ret =>
    obtain ⟨t, c, hm⟩ := he
    have hs := h.signal_eq_false (by simp [hm])
    simp [rank, system, h.waiting_of_running hm, hm, hs]
  | post =>
    obtain ⟨t, hm⟩ := he
    obtain ⟨c, ht⟩ := h.waiting_of_ran hm
    have hs := h.signal_eq_false (by simp [hm])
    simp [rank, system, ht, hm, hs, Pc.record]
  | acquire t =>
    obtain ⟨hsem, c, ht⟩ := he
    obtain ⟨hs, hm⟩ := h.quiet_of_sem hsem ht
    simp [rank, system, ht, hs, hm]
  | unlock t =>
    obtain ⟨c, ht⟩ := he
    simp [rank, system, ht]

end Mailbox

end NodeLkl
