import NodeLkl.Arch.Gate

/-!
# Shutting the CPU down

The thread that shuts the CPU down switches to another task, instead of giving the CPU
back; eventually, that is the idle task, which wakes the sleepers, waits until the last
call has left the gate, and frees the lock and the semaphores.

* `shutdown_completes`: that comes to an end.
* `stuck_of_released`: if the CPU has been given back, by a thread whose task was
  switched to before, the idle task does not get it, and the shutdown never ends.
-/

namespace NodeLkl

namespace Cpu

open Threads

/-- A bound on the number of events a thread is still good for when the gate is closed. -/
def Pc.rank : Pc → ℕ
  | .sleep _ => 3
  | .enter _ | .retry _ | .lock _ => 2
  | .leave _ _ | .parked | .spinning => 1
  | _ => 0

variable {θ : Type*}

/-- No thread calls the kernel any more. -/
def NoCall (_ : State θ) : Event θ → Prop
  | .call _ _ _ => False
  | _ => True

theorem Pc.ctx_of_woke {q : Pc} (h : q.woke = true) : q.ctx ≠ [] := by
  cases q <;> simp_all [Pc.woke, Pc.ctx]

variable [DecidableEq θ]

/-- No thread is in code of the kernel, or about to be; the idle task may be cleaning up. -/
def Machine.Deserted (m : Machine θ) (s : State θ) (p : Place θ) : Prop :=
  p = .free ∨ p = .code m.idle ∧ (s.pc m.idle).woke = true

variable {m : Machine θ} {s s' : State θ} {p : Place θ} {t : θ} {q : Pc}

theorem Machine.Deserted.woke_of_ctx (hd : m.Deserted s p) (h : Baton m s p)
    (ht : (s.pc t).ctx ≠ []) : (s.pc t).woke = true := by
  have hp := h.eq_code ht
  rcases hd with rfl | ⟨rfl, hwoke⟩
  · simp at hp
  · obtain rfl := Place.code.inj hp
    exact hwoke

/-- What an event does when the kernel is deserted and the gate closed. -/
structure Drains (m : Machine θ) (s : State θ) (l : Event θ) (t : θ) (q : Pc) : Prop where
  pc : (m.next s l).pc = Function.update s.pc t q
  owner : (m.next s l).owner = s.owner
  halts : (m.next s l).halts = s.halts
  rank : NoCall s l → q.rank < (s.pc t).rank
  woke : q.woke = (s.pc t).woke

theorem drains_gate (m : Machine θ) {l : Event θ} {c : Call} {n : ℕ}
    (hclosed : maxThreads ≤ s.shutdownGate) (hl : m.next s l = s.gate t c n)
    (hrank : 1 < (s.pc t).rank) (hwoke : (s.pc t).woke = false) :
    Drains m s l t (.leave c (-2)) := by
  have heq : s.gate t c n =
      { s with shutdownGate := s.shutdownGate + n }.goto t (.leave c (-2)) := by
    simp [State.gate, hclosed]
  refine ⟨?_, ?_, ?_, fun _ => hrank, hwoke.symm⟩ <;> rw [hl, heq] <;> rfl

theorem exists_drains (h : Baton m s p) (hd : m.Deserted s p)
    (hclosed : maxThreads ≤ s.shutdownGate) {l : Event θ} (hl : m.CanDo s l) :
    ∃ t q, Drains m s l t q := by
  have hkernel : ∀ {t b ctx}, s.pc t ≠ .kernel (b :: ctx) := by
    intro t b ctx hpc
    have hw := hd.woke_of_ctx h (t := t) (by rw [hpc]; exact List.cons_ne_nil b ctx)
    rw [hpc] at hw
    exact Bool.noConfusion hw
  cases l with
  | call t irq ctx =>
    refine ⟨t, .enter ⟨irq, ctx⟩, rfl, rfl, rfl, False.elim, ?_⟩
    rw [hl.1]
    cases ctx <;> rfl
  | enter t c =>
    have hl : s.pc t = .enter c := hl
    exact ⟨t, _, drains_gate m hclosed rfl (by rw [hl]; exact Nat.one_lt_two) (by rw [hl]; rfl)⟩
  | retry t c =>
    have hl : s.pc t = .retry c := hl
    exact ⟨t, _, drains_gate m hclosed rfl (by rw [hl]; exact Nat.one_lt_two) (by rw [hl]; rfl)⟩
  | lock t c =>
    have hl : s.pc t = .lock c := hl
    have heq : m.next s (.lock t c) = s.goto t (.leave c (-1)) := State.locked_of_le hclosed
    refine ⟨t, .leave c (-1), ?_, ?_, ?_, fun _ => by rw [hl]; exact Nat.one_lt_two,
      by rw [hl]; rfl⟩ <;> rw [heq] <;> rfl
  | down t c =>
    exact ⟨t, .retry c, rfl, rfl, rfl, fun _ => by rw [hl.1]; exact Nat.lt_succ_self 2,
      by rw [hl.1]; rfl⟩
  | leave t c ret =>
    have hl : s.pc t = .leave c ret := hl
    have hgot : c.got ret = [] := by
      by_contra hne
      have hw := hd.woke_of_ctx h (t := t) (by rw [hl]; exact hne)
      rw [hl] at hw
      exact Bool.noConfusion hw
    refine ⟨t, .out, ?_, rfl, rfl, fun _ => by rw [hl]; exact Nat.one_pos, by rw [hl]; rfl⟩
    change Function.update s.pc t (.ofCtx (c.got ret)) = _
    rw [hgot]
    rfl
  | put t b ctx resched => exact absurd hl.1 hkernel
  | runIrqs t ctx =>
    have hl : s.pc t = .runIrqs ctx := hl
    have hw := hd.woke_of_ctx h (t := t) (by rw [hl]; exact List.cons_ne_nil true ctx)
    rw [hl] at hw
    exact Bool.noConfusion hw
  | irqEnter t b ctx | irqRestore t b ctx enabled => exact absurd hl hkernel
  | irqExit t b ctx => exact absurd hl.1 hkernel
  | newHostTask t next => exact absurd hl.1 hkernel
  | makeTask t => exact absurd hl.1 hkernel
  | switchToHostTask t next => exact absurd hl.1 hkernel
  | schedule t b next => exact absurd hl.1 hkernel
  | resume t task =>
    obtain ⟨hpc, hsem, htask⟩ := hl
    cases hgone : s.gone task with
    | false =>
      rw [h.schedSem task hgone, if_neg] at hsem
      · exact absurd hsem (Nat.lt_irrefl 0)
      · rcases hd with rfl | ⟨rfl, -⟩ <;> simp
    | true =>
      obtain rfl : task = .own t := htask.resolve_right fun heq => by
        subst heq
        exact Bool.noConfusion hgone
      have hpc : s.pc t = .parked := hpc
      refine ⟨t, .exited, ?_, rfl, rfl, fun _ => by rw [hpc]; decide, by rw [hpc]; rfl⟩
      simp [Machine.next, State.resume, State.goto, hgone]
  | wake t b ctx u => exact absurd hl.1 hkernel
  | fork t u => exact absurd hl.1 hkernel
  | kill t u => exact absurd hl.1 hkernel
  | shutdown t => exact absurd hl.1 hkernel
  | reboot t next => exact absurd hl.1 hkernel
  | idle => exact absurd hl.1 hkernel
  | resumeIdle =>
    obtain ⟨-, hsem⟩ := hl
    rw [h.idleSem, if_neg] at hsem
    · exact absurd hsem (Nat.lt_irrefl 0)
    · rcases hd with rfl | ⟨rfl, -⟩ <;> simp
  | wakeAll =>
    have hl : s.pc m.idle = .waking := hl
    have hw := hd.woke_of_ctx h (t := m.idle) (by rw [hl]; exact List.cons_ne_nil false [])
    rw [hl] at hw
    exact Bool.noConfusion hw
  | cleanup =>
    exact ⟨m.idle, .halted, rfl, rfl, rfl, fun _ => by rw [hl.1]; decide, by rw [hl.1]; rfl⟩

variable [Fintype θ]

/-- The CPU has been shut down, and the kernel is deserted, with as many calls of
    `lkl_cpu_shutdown` and the owner it has. -/
structure Closed (m : Machine θ) (halts : ℕ) (owner : Option θ) (s : State θ) : Prop where
  pos : 0 < s.halts
  halts : s.halts = halts
  owner : s.owner = owner
  inv : ∃ p, Baton m s p ∧ Gate m s ∧ m.Deserted s p

theorem Closed.next {halts : ℕ} {owner : Option θ} (hcard : Fintype.card θ < maxThreads)
    (h : Closed m halts owner s) {l : Event θ} (hl : m.CanDo s l) (horderly : s.Orderly l) :
    Closed m halts owner (m.next s l) ∧
      (NoCall s l → total Pc.rank (m.next s l).pc < total Pc.rank s.pc) := by
  obtain ⟨hpos, hhalts, howner, p, hbaton, hgate, hd⟩ := h
  obtain ⟨t, q, hdrains⟩ := exists_drains hbaton hd ((hgate.closed_iff hcard).2 hpos) hl
  obtain ⟨p', hbaton'⟩ := hbaton.step hl horderly
  refine ⟨⟨hdrains.halts ▸ hpos, hdrains.halts.trans hhalts, hdrains.owner.trans howner, p',
    hbaton', hgate.step hbaton hcard hl, ?_⟩, fun hcall => ?_⟩
  · rcases hd with rfl | ⟨rfl, hwoke⟩
    · have hnone : m.ownerOf (m.next s l) p' = none := by
        rw [← hbaton'.owner, hdrains.owner, hbaton.owner]
        rfl
      cases p' with
      | free => exact .inl rfl
      | _ => simp [Machine.ownerOf] at hnone
    · have hwoke' : ((m.next s l).pc m.idle).woke = true := by
        rw [hdrains.pc, Function.update_apply]
        split_ifs with hidle
        · rw [hdrains.woke, ← hidle, hwoke]
        · exact hwoke
      exact .inr ⟨hbaton'.eq_code (Pc.ctx_of_woke hwoke'), hwoke'⟩
  · have htotal := total_update Pc.rank s.pc t q
    have hrank := hdrains.rank hcall
    rw [hdrains.pc]
    omega

/-- If the CPU is given back when it has been shut down, no thread gets it any more, and the
    shutdown does not come to an end. -/
theorem stuck_of_released {starter : θ} (hcard : Fintype.card θ < maxThreads)
    (hs : m.system.Reachable (m.init starter) s)
    (hpos : 0 < s.halts) (hfree : s.owner = none) (hs' : m.system.Reachable s s') :
    s'.shutdownSem = 0 ∧ ∀ t, ¬s'.HasCpu t := by
  obtain ⟨p, hbaton, hgate⟩ := exists_baton_gate hcard hs
  have hp : p = .free := by
    rw [hbaton.owner] at hfree
    cases p with
    | free => rfl
    | _ => simp [Machine.ownerOf] at hfree
  obtain ⟨-, -, hnone, p', hbaton', hgate', -⟩ := hs'.invariant (P := Closed m s.halts none)
    ⟨hpos, rfl, hfree, p, hbaton, hgate, .inl hp⟩ fun _ _ h hl => (h.next hcard hl.1.2 hl.2).1
  have hout : ∀ t, ¬s'.HasCpu t := by
    intro t ht
    obtain rfl := hbaton'.eq_code ht
    exact Option.some_ne_none t (hbaton'.owner.symm.trans hnone)
  refine ⟨?_, hout⟩
  rw [hgate'.shutdownSem, Bool.toNat_eq_zero]
  refine Bool.eq_false_iff.2 fun hfreed => hout m.idle ?_
  rw [State.HasCpu, (hgate'.freed hfreed).1]
  exact List.cons_ne_nil false []

/-- A thread is in its task, which blocks, and is woken by another thread, which shuts the CPU
    down and switches to it; the first thread gives the CPU back. -/
def sampleRelease : List (Event SampleThread) :=
  sampleSwitch .first ++ ([.resume .first (.own .first), .schedule .first false (.own .idle),
    .resume .idle (.own .idle), .idle, .put .idle true [] none] ++
  (sampleGet .second ++ [.newHostTask .second .host0, .resume .second .host0, .makeTask .second,
    .switchToHostTask .second (.own .second), .resume .second (.own .second),
    .wake .second false [] (.own .first), .shutdown .second, .reboot .second (.own .first),
    .resume .first (.own .first), .put .first false [] none]))

theorem isRun_sampleRelease :
    sampleMachine.system.IsRun (sampleMachine.init .first) sampleRelease := by
  refine System.isRun_append.2 ⟨isRun_sampleSwitch (by decide), System.isRun_append.2 ⟨?_, ?_⟩⟩
  · exact ⟨⟨⟨rfl, rfl, by decide, .inl rfl⟩, trivial⟩,
      ⟨⟨rfl, rfl, rfl, .inl rfl, Bool.noConfusion, .inr (.inr ⟨rfl, by decide⟩)⟩,
        fun hcur => nomatch hcur⟩,
      ⟨⟨rfl, rfl, by decide, .inl rfl⟩, trivial⟩, ⟨⟨rfl, rfl, rfl⟩, trivial⟩,
      ⟨⟨rfl, rfl, rfl, fun _ => .inr ⟨rfl, rfl⟩, fun _ hu => absurd hu (Option.not_mem_none _)⟩,
        (Option.some_ne_none _).symm⟩, trivial⟩
  · exact ⟨⟨⟨rfl, rfl, fun _ => rfl⟩, trivial⟩, ⟨⟨rfl, rfl⟩, trivial⟩, ⟨⟨rfl, rfl⟩, trivial⟩,
      ⟨⟨rfl, rfl⟩, trivial⟩,
      ⟨⟨rfl, rfl, rfl, rfl, rfl, fun _ => .inl ⟨by decide, rfl⟩⟩,
        .inr fun ⟨t, ht⟩ => by cases t <;> exact Pc.noConfusion ht⟩,
      ⟨⟨rfl, rfl, by decide, .inr rfl⟩, trivial⟩, ⟨⟨rfl, rfl, rfl, rfl, rfl, rfl⟩, trivial⟩,
      ⟨⟨rfl, rfl, rfl, rfl, rfl, fun _ => .inl ⟨by decide, rfl⟩⟩, trivial⟩,
      ⟨⟨rfl, rfl, by decide, .inl rfl⟩, trivial⟩, ⟨⟨rfl, rfl, rfl, rfl, by decide⟩, trivial⟩,
      ⟨⟨rfl, rfl, rfl, by decide⟩, trivial⟩,
      ⟨⟨rfl, rfl, rfl, rfl, rfl, .inl ⟨by decide, rfl⟩⟩, trivial⟩,
      ⟨⟨rfl, rfl, by decide, .inl rfl⟩, trivial⟩,
      ⟨⟨rfl, rfl, rfl, fun _ => .inl rfl, fun _ hu => absurd hu (Option.not_mem_none _)⟩,
        (Option.some_ne_none _).symm⟩, trivial⟩

theorem stuck_of_released_sample :
    let s := sampleMachine.system.run (sampleMachine.init .first) sampleRelease
    s.shutdownSem = 0 ∧ ∀ t, ¬s.HasCpu t :=
  stuck_of_released (by decide) (System.reachable_run isRun_sampleRelease) Nat.one_pos rfl .refl

/-- When nothing may happen any more, unless threads call, the CPU has been freed. -/
theorem Closed.freed_of_halted (h : Closed m 1 (some m.idle) s)
    (hhalted : (m.system.restrict NoCall).Halted s) :
    s.freed = true ∧ ∀ t, (s.pc t).calls = false := by
  obtain ⟨hpos, hone, howner, p, hbaton, hgate, hd⟩ := h
  have hwoke : (s.pc m.idle).woke = true := by
    rcases hd with rfl | ⟨-, hwoke⟩
    · exact absurd (howner.symm.trans hbaton.owner) (Option.some_ne_none m.idle)
    · exact hwoke
  have hdone : ∀ l, m.CanDo s l → s.Orderly l ∧ NoCall s l → False := fun l hl hcall =>
    hhalted l ⟨⟨⟨hbaton.bug, hl⟩, hcall.1⟩, hcall.2⟩
  have hcalls : ∀ t, (s.pc t).calls = false := by
    intro t
    cases hpc : s.pc t with
    | enter c => exact (hdone (.enter t c) hpc ⟨trivial, trivial⟩).elim
    | retry c => exact (hdone (.retry t c) hpc ⟨trivial, trivial⟩).elim
    | lock c => exact (hdone (.lock t c) hpc ⟨trivial, trivial⟩).elim
    | sleep c =>
      -- There is a wakeup for every thread that sleeps.
      have hasleep : 0 < count Pc.asleep s.pc := count_pos (t := t) (by rw [hpc]; rfl)
      rw [hgate.asleep, Machine.waiting, if_pos hwoke] at hasleep
      exact (hdone (.down t c) ⟨hpc, hasleep⟩ ⟨trivial, trivial⟩).elim
    | leave c ret => exact (hdone (.leave t c ret) hpc ⟨trivial, trivial⟩).elim
    | _ => rfl
  refine ⟨?_, hcalls⟩
  cases hpc : s.pc m.idle with
  | halted => exact hgate.halted hpc
  | spinning =>
    refine (hdone .cleanup ⟨hpc, ?_⟩ ⟨trivial, trivial⟩).elim
    have hnone : count Pc.inside s.pc = 0 := count_eq_zero.2 fun t => by
      have ht := hcalls t
      cases hpc : s.pc t <;> simp_all [Pc.calls, Pc.inside]
    rw [hgate.gate, hnone, hone]
    exact le_rfl
  | _ => simp [hpc, Pc.woke] at hwoke

/-- Once the idle task has woken the sleepers, the shutdown comes to an end after a number of
    events, unless threads keep calling: all calls return, and the lock and the semaphores
    are freed. -/
theorem shutdown_completes {starter : θ} (hcard : Fintype.card θ < maxThreads)
    (hs : m.system.Reachable (m.init starter) s)
    (hpc : s.pc m.idle = .spinning) (hone : s.halts = 1) {ls : List (Event θ)}
    (hls : (m.system.restrict NoCall).IsRun s ls) :
    ls.length ≤ total Pc.rank s.pc ∧
      ((m.system.restrict NoCall).Halted (m.system.run s ls) →
        (m.system.run s ls).freed = true ∧ ∀ t, ((m.system.run s ls).pc t).calls = false) := by
  obtain ⟨p, hbaton, hgate⟩ := exists_baton_gate hcard hs
  have hp : p = .code m.idle := hbaton.eq_code (by rw [hpc]; exact List.cons_ne_nil false [])
  have hclosed : Closed m 1 (some m.idle) s :=
    ⟨by rw [hone]; exact Nat.one_pos, hone, by rw [hbaton.owner, hp]; rfl, p, hbaton, hgate,
      .inr ⟨hp, by rw [hpc]; rfl⟩⟩
  have hstep : ∀ s l, Closed m 1 (some m.idle) s → (m.system.restrict NoCall).Enabled s l →
      Closed m 1 (some m.idle) (m.next s l) ∧
        total Pc.rank (m.next s l).pc < total Pc.rank s.pc := by
    intro s l h hl
    obtain ⟨hnext, hrank⟩ := h.next hcard hl.1.1.2 hl.1.2
    exact ⟨hnext, hrank hl.2⟩
  refine ⟨System.IsRun.length_le (fun s => total Pc.rank s.pc) hstep hls hclosed, ?_⟩
  exact ((System.reachable_run hls).invariant hclosed
    fun s l h hl => (hstep s l h hl).1).freed_of_halted

theorem shutdown_completes_sample :
    let s := sampleMachine.system.run (sampleMachine.init .first) sampleShutdown
    let s' := sampleMachine.system.run s sampleCleanup
    sampleCleanup.length ≤ total Pc.rank s.pc ∧ (sampleMachine.system.restrict NoCall).Halted s' ∧
      s'.freed = true ∧ ∀ t, (s'.pc t).calls = false := by
  intro s s'
  have hrun : (sampleMachine.system.restrict NoCall).IsRun s sampleCleanup :=
    System.isRun_restrict.2 ⟨isRun_sampleCleanup, trivial, trivial, trivial, trivial, trivial⟩
  have hspec := shutdown_completes (by decide) (System.reachable_run isRun_sampleShutdown) rfl rfl
    hrun
  -- One more event would make a run that is too long.
  have hhalted : (sampleMachine.system.restrict NoCall).Halted s' := fun l hl => by
    have hlonger : (sampleMachine.system.restrict NoCall).IsRun s (sampleCleanup ++ [l]) :=
      System.isRun_append.2 ⟨hrun, hl, trivial⟩
    have hlength := (shutdown_completes (by decide) (System.reachable_run isRun_sampleShutdown) rfl
      rfl hlonger).1
    rw [List.length_append, List.length_singleton] at hlength
    exact absurd hlength (by decide)
  exact ⟨hspec.1, hhalted, hspec.2 hhalted⟩

end Cpu

end NodeLkl
