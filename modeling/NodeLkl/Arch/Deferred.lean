import NodeLkl.Arch.Baton

/-!
# Interrupts that find the CPU in use

An interrupt that is triggered while another thread has the CPU is set pending, and
`irqs_pending` tells the owner, in `lkl_cpu_put`, to run it. The owner does, if
interrupts are enabled; code of the kernel that disables them enables them again before
the CPU is given back (`PutsEnabled`).

* `pending_run_before_release`: the CPU is not given back with interrupts pending that were
  left to its owner.
-/

namespace NodeLkl

namespace Cpu

variable {θ : Type*}

/-- Threads put the CPU for the last time with interrupts enabled. -/
def PutsEnabled (s : State θ) : Event θ → Prop
  | .put _ _ [] _ => s.irqsEnabled = true
  | _ => True

/-- The interrupts that are pending will be run by the owner of the CPU: it has been told, or is
    about to run them. -/
structure Defers (s : State θ) : Prop where
  runs : s.pending ≠ [] → s.irqsPending = true ∨ ∃ t ctx, s.pc t = .runIrqs ctx
  free : s.owner = none → s.irqsPending = false

variable {s s' : State θ}

/-- The two states have the same interrupts pending, and the CPU has not been given back. -/
structure Keeps (s s' : State θ) : Prop where
  pending : s'.pending = s.pending
  irqsPending : s'.irqsPending = s.irqsPending
  owner : s'.owner = none → s.owner = none

theorem Defers.stay (h : Defers s) (hs : Keeps s s') (hpc : s'.pc = s.pc) : Defers s' := by
  refine ⟨fun hne => ?_, fun hfree => ?_⟩
  · rw [hs.irqsPending, hpc]
    exact h.runs (hs.pending ▸ hne)
  · rw [hs.irqsPending]
    exact h.free (hs.owner hfree)

theorem Defers.restored (h : Defers s) (enabled : Bool) :
    Defers (s.archLocalIrqRestore enabled) := by
  refine ⟨fun hne => h.runs fun hnil => hne ?_, h.free⟩
  simp [State.archLocalIrqRestore, hnil]

variable [DecidableEq θ] {m : Machine θ} {p : Place θ} {t : θ} {q : Pc}

/-- A thread that is not about to run interrupts goes on. -/
theorem Defers.goto (h : Defers s) (hs : Keeps s s') (hpc : s'.pc = Function.update s.pc t q)
    (hruns : ∀ ctx, s.pc t ≠ .runIrqs ctx) : Defers s' := by
  refine ⟨fun hne => ?_, fun hfree => ?_⟩
  · rw [hs.irqsPending]
    refine (h.runs (hs.pending ▸ hne)).imp_right fun ⟨u, ctx, hu⟩ => ⟨u, ctx, ?_⟩
    have hut : u ≠ t := fun heq => hruns ctx (heq ▸ hu)
    rw [hpc, Function.update_of_ne hut, hu]
  · rw [hs.irqsPending]
    exact h.free (hs.owner hfree)

theorem keeps_switchTo (m : Machine θ) (s : State θ) (tid : θ) (r : Task θ → Bool)
    (next : Task θ) : Keeps s (m.switchTo { s with host0Tid := tid, runnable := r } next) := by
  simp only [Machine.switchTo, State.lklCpuChangeOwner, State.lklBug]
  split_ifs <;> exact ⟨rfl, rfl, by simp⟩

theorem keeps_threadSchedJb (m : Machine θ) (s : State θ) (tid : θ) (r : Task θ → Bool)
    (next : Task θ) : Keeps s (m.threadSchedJb { s with host0Tid := tid, runnable := r } next) := by
  unfold Machine.threadSchedJb
  split_ifs
  · exact keeps_switchTo m s tid _ next
  · exact ⟨rfl, rfl, id⟩
  · exact ⟨rfl, rfl, id⟩
  · exact keeps_switchTo m s tid r next

theorem Keeps.goto (h : Keeps s s') (t : θ) (q : Pc) : Keeps s (s'.goto t q) :=
  ⟨h.pending, h.irqsPending, h.owner⟩

theorem Defers.locked (h : Defers s) {c : Call} (hpc : s.pc t = .lock c) :
    Defers (s.locked t c) := by
  have hruns : ∀ ctx, s.pc t ≠ .runIrqs ctx := fun ctx hr => Pc.noConfusion (hpc.symm.trans hr)
  rcases Nat.lt_or_ge s.shutdownGate maxThreads with hopen | hclosed
  · by_cases howner : s.owner ≠ none ∧ s.owner ≠ some t
    · rw [State.locked_of_busy hopen howner]
      cases c.irq with
      | none => exact h.goto (q := .sleep c) ⟨rfl, rfl, id⟩ rfl hruns
      | some irq =>
        -- The owner is told to run the interrupt.
        exact ⟨fun _ => .inl rfl, fun hfree => absurd hfree howner.1⟩
    · have hfree : s.owner = none ∨ s.owner = some t := by
        by_contra hne
        exact howner (not_or.1 hne)
      rw [State.locked_of_free hopen hfree]
      exact h.goto (q := .leave c 1) ⟨rfl, rfl, fun hnone => absurd hnone (Option.some_ne_none t)⟩
        rfl hruns
  · rw [State.locked_of_le hclosed]
    exact h.goto (q := .leave c (-1)) ⟨rfl, rfl, id⟩ rfl hruns

theorem Defers.put (h : Defers s) (hbaton : Baton m s (.code t)) {b : Bool} {ctx : List Bool}
    (hpc : s.pc t = .kernel (b :: ctx)) (resched : Option (Task θ)) (hlevel : s.level = 0)
    (henabled : ctx = [] → s.irqsEnabled = true) : Defers (m.lklCpuPut s t ctx resched) := by
  have hruns : ∀ ctx, s.pc t ≠ .runIrqs ctx := fun ctx hr => Pc.noConfusion (hpc.symm.trans hr)
  rw [hbaton.put_eq hpc resched hlevel]
  split_ifs with hirqs
  · exact ⟨fun _ => .inr ⟨t, ctx, goto_pc_self _ t _⟩, fun _ => rfl⟩
  · cases ctx with
    | nil =>
      cases resched with
      | none =>
        -- The CPU is given back, with nothing to run.
        have hnone : s.irqsPending = false :=
          Bool.eq_false_iff.2 fun hp => hirqs ⟨hp, henabled rfl⟩
        have hsame : s.release.irqsPending = s.irqsPending ∧ s.release.pending = s.pending ∧
            s.release.pc = s.pc := by
          unfold State.release
          dsimp only
          split_ifs <;> exact ⟨rfl, rfl, rfl⟩
        refine ⟨fun hne => ?_, fun _ => hsame.1.trans hnone⟩
        obtain hp | ⟨u, ctx, hu⟩ := h.runs (hsame.2.1 ▸ hne)
        · exact Bool.noConfusion (hnone.symm.trans hp)
        · have hut : u ≠ t := fun heq => hruns ctx (heq ▸ hu)
          exact .inr ⟨u, ctx, by rw [Machine.given, goto_pc_of_ne _ _ hut, hsame.2.2, hu]⟩
      | some next =>
        refine h.goto (q := m.rest t)
          ((keeps_threadSchedJb m s _ s.runnable next).goto t (m.rest t)) ?_ hruns
        exact congrArg (Function.update · t _) (m.threadSchedJb_pc s next)
    | cons b' ctx' => exact h.goto (q := .kernel (b' :: ctx')) ⟨rfl, rfl, id⟩ rfl hruns

theorem Defers.switchToHostTask (h : Defers s) (hruns : ∀ ctx, s.pc t ≠ .runIrqs ctx)
    (task next : Task θ) : Defers (m.switchToHostTask s t task next) := by
  obtain heq | ⟨tid, r, heq⟩ := m.switchToHostTask_cases s t task next
  · rwa [heq]
  · rw [heq]
    refine h.goto (q := task.parked) ((keeps_threadSchedJb m s tid r next).goto t _) ?_ hruns
    exact congrArg (Function.update · t _) (m.threadSchedJb_pc _ next)

theorem Defers.step (h : Defers s) (hbaton : Baton m s p) {l : Event θ} (hl : m.CanDo s l)
    (henabled : PutsEnabled s l) : Defers (m.next s l) := by
  cases l with
  | call t irq ctx =>
    refine h.goto (q := .enter ⟨irq, ctx⟩) ⟨rfl, rfl, id⟩ rfl ?_
    rw [hl.1]
    cases ctx <;> exact fun _ => Pc.noConfusion
  | enter t c | retry t c =>
    exact h.goto ⟨rfl, rfl, id⟩ rfl fun ctx hr => Pc.noConfusion (hl.symm.trans hr)
  | lock t c => exact h.locked hl
  | down t c =>
    exact h.goto ⟨rfl, rfl, id⟩ rfl fun ctx hr => Pc.noConfusion (hl.1.symm.trans hr)
  | leave t c ret =>
    exact h.goto ⟨rfl, rfl, id⟩ rfl fun ctx hr => Pc.noConfusion (hl.symm.trans hr)
  | put t b ctx resched =>
    obtain ⟨hpc, hlevel, -⟩ := hl
    obtain rfl := hbaton.eq_code (by rw [hpc]; exact List.cons_ne_nil b ctx)
    exact h.put hbaton hpc resched hlevel fun hnil => by subst hnil; exact henabled
  | runIrqs t ctx => exact ⟨fun hne => absurd rfl hne, h.free⟩
  | irqRestore t b ctx enabled => exact h.restored enabled
  | newHostTask t next | switchToHostTask t next =>
    exact h.switchToHostTask (fun ctx hr => Pc.noConfusion (hl.1.symm.trans hr)) _ next
  | schedule t b next =>
    change Defers (m.schedule s t b next)
    unfold Machine.schedule
    split_ifs with hnext
    · exact h
    · refine h.goto (q := s.current.parked)
        ((keeps_switchTo m s _ _ next).goto t s.current.parked) ?_ fun ctx hr =>
          Pc.noConfusion (hl.1.symm.trans hr)
      exact congrArg (Function.update · t _) (m.switchTo_pc _ next)
  | resume t task =>
    refine h.goto ⟨rfl, rfl, id⟩ rfl fun ctx hr => ?_
    cases task <;> exact Pc.noConfusion (hl.1.symm.trans hr)
  | irqEnter t b ctx | irqExit t b ctx | makeTask t | wake t b ctx u | kill t u | shutdown t =>
    exact h.stay ⟨rfl, rfl, id⟩ rfl
  | fork t u =>
    exact h.goto ⟨rfl, rfl, id⟩ rfl fun ctx hr => Pc.noConfusion (hl.2.1.symm.trans hr)
  | reboot t next =>
    refine h.goto (q := .out) ((keeps_threadSchedJb m s _ s.runnable next).goto t .out) ?_
      fun ctx hr => Pc.noConfusion (hl.1.symm.trans hr)
    exact congrArg (Function.update · t _) (m.threadSchedJb_pc s next)
  | idle =>
    have hruns : ∀ ctx, s.pc m.idle ≠ .runIrqs ctx := fun ctx hr =>
      Pc.noConfusion (hl.1.symm.trans hr)
    change Defers (m.archCpuIdle s)
    unfold Machine.archCpuIdle
    split_ifs with hclosed
    · exact h.goto ⟨rfl, rfl, id⟩ rfl hruns
    · exact (h.restored true).goto ⟨rfl, rfl, id⟩ rfl hruns
  | resumeIdle | cleanup =>
    exact h.goto ⟨rfl, rfl, id⟩ rfl fun ctx hr => Pc.noConfusion (hl.1.symm.trans hr)
  | wakeAll =>
    exact h.goto ⟨rfl, rfl, id⟩ rfl fun ctx hr => Pc.noConfusion (hl.symm.trans hr)

/-- When the CPU is free, the interrupts that were triggered while it was in use have been
    run, as long as threads put it with interrupts enabled. -/
theorem pending_run_before_release {starter : θ}
    (hs : (m.system.restrict PutsEnabled).Reachable (m.init starter) s) (hfree : s.owner = none) :
    s.pending = [] ∧ s.irqsPending = false := by
  obtain ⟨⟨p, hbaton⟩, h⟩ := hs.invariant (P := fun s => (∃ p, Baton m s p) ∧ Defers s)
    ⟨⟨.free, baton_init m starter⟩, fun hne => absurd rfl hne, fun _ => rfl⟩
    fun _ _ ⟨⟨_, hbaton⟩, h⟩ hl =>
      ⟨hbaton.step hl.1.1.2 hl.1.2, h.step hbaton hl.1.1.2 hl.2⟩
  have hirqs := h.free hfree
  refine ⟨?_, hirqs⟩
  by_contra hne
  obtain hp | ⟨t, ctx, ht⟩ := h.runs hne
  · exact Bool.noConfusion (hirqs.symm.trans hp)
  · -- A thread about to run interrupts has the CPU.
    obtain rfl := hbaton.eq_code (t := t) (by rw [ht]; exact List.cons_ne_nil true ctx)
    exact Option.some_ne_none t (hbaton.owner.symm.trans hfree)

/-- An interrupt is triggered while a thread has the CPU, which runs it and gives the CPU back. -/
def sampleDeferred : List (Event SampleThread) :=
  sampleGet .first ++ [.call .second (some 5) [], .enter .second ⟨some 5, []⟩,
    .lock .second ⟨some 5, []⟩, .leave .second ⟨some 5, []⟩ 0, .put .first false [] none,
    .runIrqs .first [], .put .first true [] none]

theorem pending_run_before_release_sample :
    let s := sampleMachine.system.run (sampleMachine.init .first) sampleDeferred
    s.pending = [] ∧ s.irqsPending = false := by
  have hrun : (sampleMachine.system.restrict PutsEnabled).IsRun (sampleMachine.init .first)
      sampleDeferred :=
    ⟨⟨⟨⟨rfl, rfl, fun _ => rfl⟩, trivial⟩, trivial⟩, ⟨⟨⟨rfl, rfl⟩, trivial⟩, trivial⟩,
      ⟨⟨⟨rfl, rfl⟩, trivial⟩, trivial⟩, ⟨⟨⟨rfl, rfl⟩, trivial⟩, trivial⟩,
      ⟨⟨⟨rfl, rfl, fun _ => rfl⟩, trivial⟩, trivial⟩, ⟨⟨⟨rfl, rfl⟩, trivial⟩, trivial⟩,
      ⟨⟨⟨rfl, rfl⟩, trivial⟩, trivial⟩, ⟨⟨⟨rfl, rfl⟩, trivial⟩, trivial⟩,
      ⟨⟨⟨rfl, rfl, rfl, fun _ => .inl rfl, fun _ hu => absurd hu (Option.not_mem_none _)⟩,
        (Option.some_ne_none _).symm⟩, rfl⟩,
      ⟨⟨⟨rfl, rfl⟩, trivial⟩, trivial⟩,
      ⟨⟨⟨rfl, rfl, rfl, fun _ => .inl rfl, fun _ hu => absurd hu (Option.not_mem_none _)⟩,
        (Option.some_ne_none _).symm⟩, rfl⟩, trivial⟩
  exact pending_run_before_release (System.reachable_run hrun) rfl

end Cpu

end NodeLkl
