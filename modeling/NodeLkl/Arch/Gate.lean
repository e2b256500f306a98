import NodeLkl.Arch.Baton

/-!
# The gate of the CPU

The calls to get the CPU are counted in `shutdown_gate`, to which `lkl_cpu_shutdown`
adds `MAX_THREADS`: from then on, calls return an error. A thread that finds the CPU
in use sleeps, until a thread that gives it back wakes it up, or the idle task does, when
the CPU is shut down.

* The gate counts the threads past it, and there is a wakeup for every thread that
  sleeps, or the number of sleepers counts it (`Gate`). The gate does not overflow
  (`shutdownGate_lt`).
* `sleeper_gets_cpu`: no wakeup is lost.
* `not_usesCpu_of_freed`: the lock and the semaphores are not used after they have been
  freed.
-/

namespace NodeLkl

namespace Cpu

open Threads

/-- The thread is past the gate: it counts in `shutdown_gate`. -/
def Pc.inside : Pc → Bool
  | .retry _ | .lock _ | .sleep _ | .leave _ _ => true
  | _ => false

/-- The thread sleeps, waiting for the CPU. -/
def Pc.asleep : Pc → Bool
  | .sleep _ => true
  | _ => false

/-- The thread is about to try to get the CPU. -/
def Pc.tries : Pc → Bool
  | .retry _ | .lock _ => true
  | _ => false

/-- The idle task is shutting the CPU down. -/
def Pc.shuts : Pc → Bool
  | .waking | .spinning | .halted => true
  | _ => false

/-- The idle task has woken the sleepers. -/
def Pc.woke : Pc → Bool
  | .spinning | .halted => true
  | _ => false

variable {θ : Type*}

/-- The number of threads asleep that will be woken by those giving back the CPU. -/
def Machine.waiting (m : Machine θ) (s : State θ) : ℕ :=
  if (s.pc m.idle).woke then 0 else s.sleepers

/-- The event uses the lock, or one of the semaphores, of the CPU. -/
def Event.usesCpu : Event θ → Bool
  | .lock _ _ | .down _ _ | .put _ _ _ _ | .newHostTask _ _ | .switchToHostTask _ _
  | .schedule _ _ _ | .reboot _ _ | .idle | .resumeIdle | .wakeAll | .cleanup => true
  | _ => false

variable {m : Machine θ} {s s' : State θ} {p : Place θ} {t : θ} {q : Pc}

/-- What the gate and the sleepers are about is the same in the two states, but for who has
    the CPU. -/
structure Frame (s s' : State θ) : Prop where
  owner : s'.owner = none → s.owner = none
  shutdownGate : s'.shutdownGate = s.shutdownGate
  halts : s'.halts = s.halts
  sem : s'.sem = s.sem
  sleepers : s'.sleepers = s.sleepers
  freed : s'.freed = s.freed
  shutdownSem : s'.shutdownSem = s.shutdownSem

/-- The thread is neither past the gate nor shutting the CPU down. -/
def Pc.plain (q : Pc) : Prop := q.inside = false ∧ q.shuts = false

theorem Pc.asleep_of_inside {q : Pc} (h : q.inside = false) :
    q.asleep = false ∧ q.tries = false := by
  cases q <;> simp_all [Pc.inside, Pc.asleep, Pc.tries]

theorem Pc.shuts_of_woke {q : Pc} (h : q.woke = true) : q.shuts = true := by
  cases q <;> simp_all [Pc.shuts, Pc.woke]

theorem Pc.woke_of_shuts {q : Pc} (h : q.shuts = false) : q.woke = false :=
  Bool.eq_false_iff.2 fun hw => Bool.noConfusion (h.symm.trans (Pc.shuts_of_woke hw))

theorem waiting_of_pc (hpc : s.pc m.idle = q) :
    m.waiting s = if q.woke then 0 else s.sleepers := by
  rw [Machine.waiting, hpc]

variable [DecidableEq θ]

theorem frame_switchTo (m : Machine θ) (s : State θ) (tid : θ) (r : Task θ → Bool)
    (next : Task θ) : Frame s (m.switchTo { s with host0Tid := tid, runnable := r } next) := by
  simp only [Machine.switchTo, State.lklCpuChangeOwner, State.lklBug]
  split_ifs <;> exact ⟨by simp, rfl, rfl, rfl, rfl, rfl, rfl⟩

theorem frame_threadSchedJb (m : Machine θ) (s : State θ) (tid : θ) (r : Task θ → Bool)
    (next : Task θ) : Frame s (m.threadSchedJb { s with host0Tid := tid, runnable := r } next) := by
  unfold Machine.threadSchedJb
  split_ifs
  · exact frame_switchTo m s tid _ next
  · exact ⟨id, rfl, rfl, rfl, rfl, rfl, rfl⟩
  · exact ⟨id, rfl, rfl, rfl, rfl, rfl, rfl⟩
  · exact frame_switchTo m s tid r next

theorem Frame.goto (h : Frame s s') (t : θ) (q : Pc) : Frame s (s'.goto t q) :=
  ⟨h.owner, h.shutdownGate, h.halts, h.sem, h.sleepers, h.freed, h.shutdownSem⟩

theorem Pc.plain_kernel (ctx : List Bool) : (Pc.kernel ctx).plain := ⟨rfl, rfl⟩

omit [DecidableEq θ] in
theorem Task.plain_parked (u : Task θ) : u.parked.plain := by
  cases u <;> exact ⟨rfl, rfl⟩

theorem Machine.plain_rest (m : Machine θ) (t : θ) : (m.rest t).plain := by
  unfold Machine.rest
  split_ifs <;> exact ⟨rfl, rfl⟩

theorem woke_update (hpc : s'.pc = Function.update s.pc t q) (hshuts : (s.pc t).shuts = false)
    (hq : q.shuts = false) : (s'.pc m.idle).woke = (s.pc m.idle).woke := by
  rw [hpc, Function.update_apply]
  split_ifs with ht
  · rw [ht, Pc.woke_of_shuts hq, Pc.woke_of_shuts hshuts]
  · rfl

variable [Fintype θ]

/-- What the gate, the sleepers and their semaphore count. -/
structure Gate (m : Machine θ) (s : State θ) : Prop where
  gate : s.shutdownGate = maxThreads * s.halts + count Pc.inside s.pc
  shuts : ∀ t, (s.pc t).shuts = true → t = m.idle ∧ 0 < s.halts
  asleep : count Pc.asleep s.pc = s.sem + m.waiting s
  /-- When the CPU is free, a thread is waking up, or about to get it, before others sleep. -/
  wakes : s.halts = 0 → s.owner = none → 0 < s.sleepers → 0 < s.sem + count Pc.tries s.pc
  freed : s.freed = true → s.pc m.idle = .halted ∧ s.halts = 1 ∧
    ∀ t, (s.pc t).tries = false ∧ (s.pc t).asleep = false
  halted : s.pc m.idle = .halted → s.freed = true
  shutdownSem : s.shutdownSem = s.freed.toNat
  bound : maxThreads * (s.halts + 1) ≤ 2 ^ 32

/-- A thread goes on; it may go through the gate, try to get the CPU, sleep, be woken. -/
theorem Gate.move (h : Gate m s) (hpc : s'.pc = Function.update s.pc t q)
    (hshuts : (s.pc t).shuts = false) (hq : q.shuts = false)
    (hgate : s'.shutdownGate + (s.pc t).inside.toNat = s.shutdownGate + q.inside.toNat)
    (hhalts : s'.halts = s.halts) (hfreed : s'.freed = s.freed)
    (hshutdownSem : s'.shutdownSem = s.shutdownSem)
    (hasleep : s'.sleepers = s.sleepers ∧
        s'.sem + (s.pc t).asleep.toNat = s.sem + q.asleep.toNat ∨
      (s.pc m.idle).woke = false ∧
        s'.sem + s'.sleepers + (s.pc t).asleep.toNat = s.sem + s.sleepers + q.asleep.toNat)
    (hwakes : s.halts = 0 → s'.owner = none → 0 < s'.sleepers → 0 < s'.sem + count Pc.tries s'.pc)
    (hnone : s.freed = true → q.tries = false ∧ q.asleep = false) : Gate m s' := by
  have hinside := count_update Pc.inside s.pc t q
  have hcount := count_update Pc.asleep s.pc t q
  have hold := h.gate
  refine ⟨?_, fun u hu => ?_, ?_, fun hh ho hlt => ?_, fun hfr => ?_, fun hidle => ?_,
    by rw [hshutdownSem, hfreed, h.shutdownSem], hhalts ▸ h.bound⟩
  · rw [hpc, hhalts]
    omega
  · rw [hhalts]
    rw [hpc, Function.update_apply] at hu
    split_ifs at hu with hut
    · exact Bool.noConfusion (hq.symm.trans hu)
    · exact h.shuts u hu
  · have hold := h.asleep
    simp only [Machine.waiting, woke_update hpc hshuts hq] at hold ⊢
    rw [hpc]
    rcases hasleep with ⟨hsleepers, hsem⟩ | ⟨hwoke, hsem⟩
    · rw [hsleepers]
      omega
    · rw [hwoke, if_neg Bool.noConfusion] at hold ⊢
      omega
  · exact hwakes (hhalts ▸ hh) ho hlt
  · obtain ⟨hidle, hone, hrest⟩ := h.freed (hfreed ▸ hfr)
    have hne : m.idle ≠ t := by
      rintro rfl
      rw [hidle] at hshuts
      exact Bool.noConfusion hshuts
    refine ⟨by rw [hpc, Function.update_of_ne hne, hidle], hhalts.trans hone, fun u => ?_⟩
    rw [hpc, Function.update_apply]
    split_ifs with hut
    · exact hnone (hfreed ▸ hfr)
    · exact hrest u
  · rw [hpc, Function.update_apply] at hidle
    split_ifs at hidle with hut
    · rw [hidle] at hq
      exact Bool.noConfusion hq
    · exact hfreed.trans (h.halted hidle)

/-- A thread goes on, not being in a call to get the CPU. -/
theorem Gate.plain (h : Gate m s) (hf : Frame s s') (hpc : s'.pc = Function.update s.pc t q)
    (hold : (s.pc t).plain) (hq : q.plain) : Gate m s' := by
  have hsame := Pc.asleep_of_inside hold.1
  have hsame' := Pc.asleep_of_inside hq.1
  refine h.move hpc hold.2 hq.2 ?_ hf.halts hf.freed hf.shutdownSem (.inl ⟨hf.sleepers, ?_⟩)
    (fun hh ho hlt => ?_) fun _ => hsame'.symm
  · rw [hf.shutdownGate, hold.1, hq.1]
  · rw [hf.sem, hsame.1, hsame'.1]
  · rw [hf.sem, hpc, count_update_of_eq (hsame'.2.trans hsame.2.symm)]
    exact h.wakes hh (hf.owner ho) (hf.sleepers ▸ hlt)

section Closed

variable (hcard : Fintype.card θ < maxThreads)

include hcard

omit [DecidableEq θ] in
/-- The gate is closed when the CPU has been shut down. -/
theorem Gate.closed_iff (h : Gate m s) : maxThreads ≤ s.shutdownGate ↔ 0 < s.halts := by
  have hle := count_le_card Pc.inside s.pc
  rw [h.gate]
  constructor
  · intro hclosed
    by_contra hzero
    rw [Nat.eq_zero_of_not_pos hzero] at hclosed
    omega
  · intro hpos
    exact (Nat.le_mul_of_pos_right maxThreads hpos).trans (Nat.le_add_right _ _)

theorem Gate.gateEvent (h : Gate m s) {c : Call} {n : ℕ} (hshuts : (s.pc t).shuts = false)
    (hasleep : (s.pc t).asleep = false) (hn : n + (s.pc t).inside.toNat = 1) :
    Gate m (s.gate t c n) := by
  by_cases hclosed : maxThreads ≤ s.shutdownGate
  · have heq : s.gate t c n =
        { s with shutdownGate := s.shutdownGate + n }.goto t (.leave c (-2)) := by
      simp [State.gate, hclosed]
    rw [heq]
    refine h.move (q := .leave c (-2)) rfl hshuts rfl ?_ rfl rfl rfl
      (.inl ⟨rfl, by rw [hasleep]; rfl⟩) (fun hzero => ?_) fun _ => ⟨rfl, rfl⟩
    · exact (Nat.add_assoc _ _ _).trans (congrArg _ hn)
    · exact absurd ((h.closed_iff hcard).1 hclosed) (by simp [hzero])
  · have heq : s.gate t c n = { s with shutdownGate := s.shutdownGate + n }.goto t (.lock c) := by
      simp [State.gate, hclosed]
    rw [heq]
    refine h.move (q := .lock c) rfl hshuts rfl ?_ rfl rfl rfl
      (.inl ⟨rfl, by rw [hasleep]; rfl⟩) (fun _ _ _ => ?_) fun hfr => ?_
    · exact (Nat.add_assoc _ _ _).trans (congrArg _ hn)
    · exact Nat.add_pos_right _ (count_pos (t := t) (by rw [goto_pc_self]; rfl))
    · exact absurd ((h.closed_iff hcard).2 (by simp [(h.freed hfr).2.1])) hclosed

theorem Gate.locked (h : Gate m s) {c : Call} (hpc : s.pc t = .lock c) :
    Gate m (s.locked t c) := by
  have hshuts : (s.pc t).shuts = false := by rw [hpc]; rfl
  rcases Nat.lt_or_ge s.shutdownGate maxThreads with hgate | hgate
  · have hopen : ¬0 < s.halts := fun hpos =>
      absurd ((h.closed_iff hcard).2 hpos) (Nat.not_le.2 hgate)
    by_cases howner : s.owner ≠ none ∧ s.owner ≠ some t
    · rw [State.locked_of_busy hgate howner]
      cases c.irq with
      | none =>
        refine h.move (q := .sleep c) rfl hshuts rfl (by rw [hpc]; rfl) rfl rfl rfl (.inr ⟨?_, ?_⟩)
          (fun _ hnone => absurd hnone howner.1) fun hfr => ?_
        · exact Bool.eq_false_iff.2 fun hw => hopen (h.shuts _ (Pc.shuts_of_woke hw)).2
        · rw [hpc]
          exact (Nat.add_assoc _ _ _).symm
        · exact absurd (by simp [(h.freed hfr).2.1]) hopen
      | some irq =>
        exact h.move (q := .leave c 0) rfl hshuts rfl (by rw [hpc]; rfl) rfl rfl rfl
          (.inl ⟨rfl, by rw [hpc]; rfl⟩) (fun _ hnone => absurd hnone howner.1) fun _ => ⟨rfl, rfl⟩
    · have hfree : s.owner = none ∨ s.owner = some t := by
        by_cases hnone : s.owner = none
        · exact .inl hnone
        · exact .inr (not_not.1 fun hsome => howner ⟨hnone, hsome⟩)
      rw [State.locked_of_free hgate hfree]
      exact h.move (q := .leave c 1) rfl hshuts rfl (by rw [hpc]; rfl) rfl rfl rfl
        (.inl ⟨rfl, by rw [hpc]; rfl⟩) (fun _ hnone => absurd hnone (Option.some_ne_none t))
        fun _ => ⟨rfl, rfl⟩
  · rw [State.locked_of_le hgate]
    refine h.move (q := .leave c (-1)) rfl hshuts rfl (by rw [hpc]; rfl) rfl rfl rfl
      (.inl ⟨rfl, by rw [hpc]; rfl⟩) (fun hzero => ?_) fun _ => ⟨rfl, rfl⟩
    exact absurd ((h.closed_iff hcard).1 hgate) (by simp [hzero])

omit hcard in
theorem Gate.down (h : Gate m s) {c : Call} (hpc : s.pc t = .sleep c) (hsem : 0 < s.sem) :
    Gate m ({ s with sem := s.sem - 1 }.goto t (.retry c)) := by
  refine h.move (q := .retry c) rfl (by rw [hpc]; rfl) rfl (by rw [hpc]; rfl) rfl rfl rfl
    (.inl ⟨rfl, ?_⟩) (fun _ _ _ => ?_) fun hfr => ?_
  · rw [hpc]
    exact Nat.sub_add_cancel hsem
  · exact Nat.add_pos_right _ (count_pos (t := t) (by rw [goto_pc_self]; rfl))
  · have hnone := ((h.freed hfr).2.2 t).2
    rw [hpc] at hnone
    exact Bool.noConfusion hnone

omit hcard in
theorem Gate.leave (h : Gate m s) {c : Call} {ret : ℤ} (hpc : s.pc t = .leave c ret) :
    Gate m (s.leave t c ret) := by
  have hplain : ∀ ctx, (Pc.ofCtx ctx).plain := by
    intro ctx
    cases ctx <;> exact ⟨rfl, rfl⟩
  have hq := hplain (c.got ret)
  have hsame := Pc.asleep_of_inside hq.1
  have hpos : 0 < count Pc.inside s.pc := count_pos (t := t) (by rw [hpc]; rfl)
  refine h.move (q := .ofCtx (c.got ret)) rfl (by rw [hpc]; rfl) hq.2 ?_ rfl rfl rfl
    (.inl ⟨rfl, by rw [hpc, hsame.1]; rfl⟩) (fun hh ho hlt => ?_) fun _ => hsame.symm
  · rw [hpc, hq.1]
    refine Nat.sub_add_cancel ?_
    rw [h.gate]
    exact Nat.le_add_left_of_le hpos
  · have htries : count Pc.tries (s.leave t c ret).pc = count Pc.tries s.pc :=
      count_update_of_eq (by rw [hpc, hsame.2]; rfl)
    rw [htries]
    exact h.wakes hh ho hlt

end Closed

/-- The thread having the CPU gives it back. -/
theorem Gate.release (h : Gate m s) (hold : (s.pc t).plain) (hq : q.plain)
    (hwoke : (s.pc m.idle).woke = false) : Gate m (s.release.goto t q) := by
  have hsame := Pc.asleep_of_inside hold.1
  have hsame' := Pc.asleep_of_inside hq.1
  by_cases hpos : 0 < s.sleepers
  · have heq : s.release = { s with
        sleepers := s.sleepers - 1, sem := s.sem + 1, count := 0, owner := none,
        interrupts := s.interrupts.tail } := by
      simp [State.release, hpos]
    rw [heq]
    refine h.move rfl hold.2 hq.2 ?_ rfl rfl rfl (.inr ⟨hwoke, ?_⟩) (fun _ _ _ => ?_)
      fun _ => hsame'.symm
    · rw [hold.1, hq.1]
      rfl
    · rw [hsame.1, hsame'.1]
      change s.sem + 1 + (s.sleepers - 1) + 0 = s.sem + s.sleepers + 0
      omega
    · exact Nat.add_pos_left (Nat.succ_pos s.sem) _
  · have heq : s.release =
        { s with count := 0, owner := none, interrupts := s.interrupts.tail } := by
      simp [State.release, hpos]
    rw [heq]
    refine h.move rfl hold.2 hq.2 ?_ rfl rfl rfl (.inl ⟨rfl, ?_⟩) (fun _ _ hlt => absurd hlt hpos)
      fun _ => hsame'.symm
    · rw [hold.1, hq.1]
      rfl
    · rw [hsame.1, hsame'.1]
      rfl

omit [DecidableEq θ] in
theorem Gate.lklCpuShutdown (h : Gate m s) (hopen : s.freed = false)
    (hbound : maxThreads * (s.halts + 2) ≤ 2 ^ 32) : Gate m s.lklCpuShutdown := by
  refine ⟨?_, fun t ht => ⟨(h.shuts t ht).1, Nat.succ_pos _⟩, h.asleep,
    fun hzero => absurd hzero (Nat.succ_ne_zero _),
    fun hfr => Bool.noConfusion (hopen.symm.trans hfr), h.halted, h.shutdownSem, hbound⟩
  change s.shutdownGate + maxThreads = maxThreads * (s.halts + 1) + count Pc.inside s.pc
  rw [h.gate, Nat.mul_succ]
  omega

/-- The idle task goes on shutting the CPU down. -/
theorem Gate.shut (h : Gate m s) (hpc : s'.pc = Function.update s.pc m.idle q)
    (hinside : (s.pc m.idle).inside = false) (hq : q.shuts = true)
    (hgate : s'.shutdownGate = s.shutdownGate) (hhalts : s'.halts = s.halts) (hpos : 0 < s.halts)
    (hasleep : s'.sem + m.waiting s' = s.sem + m.waiting s)
    (hfreed : s'.freed = true → q = .halted ∧ s.halts = 1 ∧ count Pc.inside s.pc = 0)
    (hhalted : q = .halted → s'.freed = true) (hsem : s'.shutdownSem = s'.freed.toNat) :
    Gate m s' := by
  have hq' : q.inside = false := by cases q <;> simp_all [Pc.inside, Pc.shuts]
  have hsame := Pc.asleep_of_inside hinside
  have hsame' := Pc.asleep_of_inside hq'
  have hcount : count Pc.inside s'.pc = count Pc.inside s.pc := by
    rw [hpc, count_update_of_eq (hq'.trans hinside.symm)]
  refine ⟨?_, fun t ht => ?_, ?_, fun hzero => ?_, fun hfr => ?_, fun hidle => hhalted ?_,
    hsem, hhalts ▸ h.bound⟩
  · rw [hgate, hhalts, h.gate, hcount]
  · rw [hhalts]
    by_cases htidle : t = m.idle
    · exact ⟨htidle, hpos⟩
    · rw [hpc, Function.update_of_ne htidle] at ht
      exact h.shuts t ht
  · rw [hasleep, hpc, count_update_of_eq (hsame'.1.trans hsame.1.symm), h.asleep]
  · exact absurd (hhalts.symm.trans hzero) hpos.ne'
  · obtain ⟨rfl, hone, hnone⟩ := hfreed hfr
    refine ⟨by rw [hpc, Function.update_self], hhalts.trans hone, fun t => ?_⟩
    have ht := count_eq_zero.1 (hcount.trans hnone) t
    exact (Pc.asleep_of_inside ht).symm
  · rwa [hpc, Function.update_self] at hidle

/-! ## The events -/

omit [Fintype θ] in
/-- Nobody is shutting the CPU down while another thread has it. -/
theorem Gate.not_shuts (hbaton : Baton m s p) (ht : (s.pc t).ctx ≠ [])
    (hshuts : (s.pc t).shuts = false) : (s.pc m.idle).shuts = false := by
  refine Bool.eq_false_iff.2 fun hidle => ?_
  have hctx : (s.pc m.idle).ctx ≠ [] := by
    cases hpc : s.pc m.idle <;> simp_all [Pc.shuts, Pc.ctx]
  obtain rfl : m.idle = t := Place.code.inj ((hbaton.eq_code hctx).symm.trans (hbaton.eq_code ht))
  exact Bool.noConfusion (hshuts.symm.trans hidle)

theorem Gate.put (h : Gate m s) (hbaton : Baton m s (.code t)) {b : Bool} {ctx : List Bool}
    (hpc : s.pc t = .kernel (b :: ctx)) (resched : Option (Task θ)) (hlevel : s.level = 0) :
    Gate m (m.lklCpuPut s t ctx resched) := by
  have hold : (s.pc t).plain := by rw [hpc]; exact Pc.plain_kernel _
  rw [hbaton.put_eq hpc resched hlevel]
  split_ifs with hirqs
  · exact h.plain (q := .runIrqs ctx) ⟨id, rfl, rfl, rfl, rfl, rfl, rfl⟩ rfl hold ⟨rfl, rfl⟩
  · cases ctx with
    | nil =>
      cases resched with
      | none =>
        refine h.release hold (m.plain_rest t) (Pc.woke_of_shuts ?_)
        exact Gate.not_shuts hbaton ((hbaton.ctx t).2 rfl) hold.2
      | some next =>
        refine h.plain ((frame_threadSchedJb m s _ s.runnable next).goto t (m.rest t)) ?_ hold
          (m.plain_rest t)
        exact congrArg (Function.update · t _) (m.threadSchedJb_pc s next)
    | cons b' ctx' =>
      exact h.plain (q := .kernel (b' :: ctx')) ⟨id, rfl, rfl, rfl, rfl, rfl, rfl⟩ rfl hold
        (Pc.plain_kernel _)

theorem Gate.switchToHostTask (h : Gate m s) (hold : (s.pc t).plain) (task next : Task θ) :
    Gate m (m.switchToHostTask s t task next) := by
  obtain heq | ⟨tid, r, heq⟩ := m.switchToHostTask_cases s t task next
  · rwa [heq]
  · rw [heq]
    refine h.plain ((frame_threadSchedJb m s tid r next).goto t task.parked) ?_ hold
      task.plain_parked
    exact congrArg (Function.update · t _) (m.threadSchedJb_pc _ next)

omit [DecidableEq θ] in
/-- Nothing changes but who runs what. -/
theorem Gate.stay (h : Gate m s) (hf : Frame s s') (hpc : s'.pc = s.pc) : Gate m s' := by
  obtain ⟨howner, hgate, hhalts, hsem, hsleepers, hfreed, hshutdownSem⟩ := hf
  refine ⟨?_, ?_, ?_, fun hzero hnone => ?_, ?_, ?_, ?_, ?_⟩
  · rw [hgate, hhalts, hpc, h.gate]
  · rw [hhalts, hpc]
    exact h.shuts
  · rw [Machine.waiting, hsem, hsleepers, hpc]
    exact h.asleep
  · rw [hsleepers, hsem, hpc]
    exact h.wakes (hhalts ▸ hzero) (howner hnone)
  · rw [hfreed, hhalts, hpc]
    exact h.freed
  · rw [hpc, hfreed]
    exact h.halted
  · rw [hshutdownSem, hfreed, h.shutdownSem]
  · rw [hhalts]
    exact h.bound

theorem Gate.step (h : Gate m s) (hbaton : Baton m s p) (hcard : Fintype.card θ < maxThreads)
    {l : Event θ} (hl : m.CanDo s l) : Gate m (m.next s l) := by
  cases l with
  | call t irq ctx =>
    refine h.plain (q := .enter ⟨irq, ctx⟩) ⟨id, rfl, rfl, rfl, rfl, rfl, rfl⟩ rfl ?_ ⟨rfl, rfl⟩
    rw [hl.1]
    cases ctx <;> exact ⟨rfl, rfl⟩
  | enter t c =>
    have hl : s.pc t = .enter c := hl
    exact h.gateEvent hcard (by rw [hl]; rfl) (by rw [hl]; rfl) (by rw [hl]; rfl)
  | retry t c =>
    have hl : s.pc t = .retry c := hl
    exact h.gateEvent hcard (by rw [hl]; rfl) (by rw [hl]; rfl) (by rw [hl]; rfl)
  | lock t c => exact h.locked hcard hl
  | down t c => exact h.down hl.1 hl.2
  | leave t c ret => exact h.leave hl
  | put t b ctx resched =>
    obtain ⟨hpc, hlevel, -⟩ := hl
    obtain rfl := hbaton.eq_code (by rw [hpc]; exact List.cons_ne_nil b ctx)
    exact h.put hbaton hpc resched hlevel
  | runIrqs t ctx =>
    have hl : s.pc t = .runIrqs ctx := hl
    exact h.plain (q := .kernel (true :: ctx)) ⟨id, rfl, rfl, rfl, rfl, rfl, rfl⟩ rfl
      (by rw [hl]; exact ⟨rfl, rfl⟩) (Pc.plain_kernel _)
  | irqEnter t b ctx | irqExit t b ctx | irqRestore t b ctx enabled | makeTask t
  | wake t b ctx u | kill t u => exact h.stay ⟨id, rfl, rfl, rfl, rfl, rfl, rfl⟩ rfl
  | newHostTask t next | switchToHostTask t next =>
    exact h.switchToHostTask (by rw [hl.1]; exact Pc.plain_kernel _) _ next
  | schedule t b next =>
    change Gate m (m.schedule s t b next)
    unfold Machine.schedule
    split_ifs with hnext
    · exact h
    · refine h.plain ((frame_switchTo m s _ _ next).goto t s.current.parked) ?_
        (by rw [hl.1]; exact Pc.plain_kernel _) s.current.plain_parked
      exact congrArg (Function.update · t _) (m.switchTo_pc _ next)
  | resume t task =>
    refine h.plain ⟨id, rfl, rfl, rfl, rfl, rfl, rfl⟩ rfl (by rw [hl.1]; exact task.plain_parked) ?_
    split_ifs <;> exact ⟨rfl, rfl⟩
  | fork t u =>
    exact h.plain (q := .parked) ⟨id, rfl, rfl, rfl, rfl, rfl, rfl⟩ rfl
      (by rw [hl.2.1]; exact ⟨rfl, rfl⟩) ⟨rfl, rfl⟩
  | shutdown t =>
    refine h.lklCpuShutdown (Bool.eq_false_iff.2 fun hfr => ?_) hl.2.2
    have hshuts := Gate.not_shuts hbaton (t := t) (by rw [hl.1]; exact List.cons_ne_nil false [])
      (by rw [hl.1]; rfl)
    rw [(h.freed hfr).1] at hshuts
    exact Bool.noConfusion hshuts
  | reboot t next =>
    refine h.plain (q := .out) ((frame_threadSchedJb m s _ s.runnable next).goto t .out) ?_
      (by rw [hl.1]; exact Pc.plain_kernel _) ⟨rfl, rfl⟩
    exact congrArg (Function.update · t _) (m.threadSchedJb_pc s next)
  | idle =>
    have hl : s.pc m.idle = .kernel [false] := hl.1
    change Gate m (m.archCpuIdle s)
    unfold Machine.archCpuIdle
    split_ifs with hclosed
    · refine h.shut (q := .waking) rfl (by rw [hl]; rfl) rfl rfl rfl
        ((h.closed_iff hcard).1 hclosed) ?_ (fun hfr => ?_) Pc.noConfusion
        h.shutdownSem
      · rw [waiting_of_pc hl, waiting_of_pc (goto_pc_self s m.idle .waking)]
        rfl
      · have hidle := (h.freed hfr).1
        rw [hl] at hidle
        exact Pc.noConfusion hidle
    · exact h.plain (q := .kernel [true]) ⟨id, rfl, rfl, rfl, rfl, rfl, rfl⟩ rfl
        (by rw [hl]; exact Pc.plain_kernel _) (Pc.plain_kernel _)
  | resumeIdle =>
    exact h.plain (q := .kernel [false]) ⟨id, rfl, rfl, rfl, rfl, rfl, rfl⟩ rfl
      (by rw [hl.1]; exact ⟨rfl, rfl⟩) (Pc.plain_kernel _)
  | wakeAll =>
    have hl : s.pc m.idle = .waking := hl
    refine h.shut (q := .spinning) rfl (by rw [hl]; rfl) rfl rfl rfl
      (h.shuts m.idle (by rw [hl]; rfl)).2 ?_ (fun hfr => ?_) Pc.noConfusion h.shutdownSem
    · rw [waiting_of_pc hl, waiting_of_pc (s := m.next s .wakeAll) (q := .spinning)
        (goto_pc_self _ _ _)]
      rfl
    · have hidle := (h.freed hfr).1
      rw [hl] at hidle
      exact Pc.noConfusion hidle
  | cleanup =>
    obtain ⟨hpc, hle⟩ := hl
    have hpos := (h.shuts m.idle (by rw [hpc]; rfl)).2
    have hopen : s.freed = false := Bool.eq_false_iff.2 fun hfr =>
      Pc.noConfusion (hpc.symm.trans (h.freed hfr).1)
    have hfreed : (m.next s .cleanup).freed = true := rfl
    have hsem : (m.next s .cleanup).shutdownSem = 1 := by
      change s.shutdownSem + 1 = 1
      rw [h.shutdownSem, hopen]
      rfl
    refine h.shut (q := .halted) rfl (by rw [hpc]; rfl) rfl rfl rfl hpos ?_ (fun _ => ?_)
      (fun _ => hfreed) (by rw [hsem, hfreed]; rfl)
    · rw [waiting_of_pc hpc, waiting_of_pc (s := m.next s .cleanup) (q := .halted)
        (goto_pc_self _ _ _)]
      rfl
    · have hgate := h.gate
      have hone : s.halts = 1 := by
        by_contra hne
        have htwo : maxThreads * 2 ≤ maxThreads * s.halts := Nat.mul_le_mul_left _ (by omega)
        unfold maxThreads at *
        omega
      rw [hone] at hgate
      exact ⟨rfl, hone, by omega⟩

theorem gate_init (m : Machine θ) (starter : θ) : Gate m (m.init starter) := by
  have hpc : ∀ t, ((m.init starter).pc t).plain := by
    intro t
    simp only [Machine.init]
    split_ifs <;> exact ⟨rfl, rfl⟩
  have hidle : (m.init starter).pc m.idle = .parked := if_pos rfl
  refine ⟨?_, fun t ht => ?_, ?_, fun _ _ hpos => absurd hpos (Nat.lt_irrefl 0),
    fun hfr => Bool.noConfusion hfr, fun hhalted => ?_, rfl,
    (by decide : maxThreads * (0 + 1) ≤ 2 ^ 32)⟩
  · rw [count_eq_zero.2 fun t => (hpc t).1]
    rfl
  · exact Bool.noConfusion ((hpc t).2.symm.trans ht)
  · rw [waiting_of_pc hidle]
    exact count_eq_zero.2 fun t => (Pc.asleep_of_inside (hpc t).1).1
  · exact Pc.noConfusion (hidle.symm.trans hhalted)

theorem exists_baton_gate {starter : θ} (hcard : Fintype.card θ < maxThreads)
    (hs : m.system.Reachable (m.init starter) s) : ∃ p, Baton m s p ∧ Gate m s :=
  hs.invariant (P := fun s => ∃ p, Baton m s p ∧ Gate m s)
    ⟨.free, baton_init m starter, gate_init m starter⟩ fun _ _ ⟨_, hbaton, h⟩ hl =>
      let ⟨p', hbaton'⟩ := hbaton.step hl.1.2 hl.2
      ⟨p', hbaton', h.step hbaton hcard hl.1.2⟩

/-- The gate is an `unsigned int`, which does not overflow. -/
theorem shutdownGate_lt {starter : θ} (hcard : Fintype.card θ < maxThreads)
    (hs : m.system.Reachable (m.init starter) s) : s.shutdownGate < 2 ^ 32 := by
  obtain ⟨p, -, h⟩ := exists_baton_gate hcard hs
  have hle := count_le_card Pc.inside s.pc
  have hbound := h.bound
  rw [Nat.mul_succ] at hbound
  rw [h.gate]
  omega

/-! ## Sleepers -/

omit [Fintype θ] in
theorem exists_lock_run (hbug : s.bug = false) {c : Call} (hpc : s.pc t = .lock c)
    (hopen : s.shutdownGate < maxThreads) (hfree : s.owner = none) :
    ∃ ls, ls.length ≤ 1 ∧ m.system.IsRun s ls ∧ (m.system.run s ls).owner = some t := by
  refine ⟨[.lock t c], le_rfl, ⟨⟨⟨hbug, hpc⟩, trivial⟩, trivial⟩, ?_⟩
  change (s.locked t c).owner = some t
  rw [State.locked_of_free hopen (.inl hfree)]
  rfl

omit [Fintype θ] in
theorem exists_retry_run (hbug : s.bug = false) {c : Call} (hpc : s.pc t = .retry c)
    (hopen : s.shutdownGate < maxThreads) (hfree : s.owner = none) :
    ∃ ls, ls.length ≤ 2 ∧ m.system.IsRun s ls ∧ (m.system.run s ls).owner = some t := by
  have heq : s.gate t c 0 = s.goto t (.lock c) := by
    simp [State.gate, Nat.not_le.2 hopen]
  obtain ⟨ls, hlength, hrun, howner⟩ := exists_lock_run (m := m) (s := s.goto t (.lock c)) hbug
    (goto_pc_self s t _) hopen hfree
  refine ⟨.retry t c :: ls, Nat.succ_le_succ hlength, ⟨⟨⟨hbug, hpc⟩, trivial⟩, ?_⟩, ?_⟩
  · change m.system.IsRun (s.gate t c 0) ls
    rwa [heq]
  · change (m.system.run (s.gate t c 0) ls).owner = some t
    rwa [heq]

/-- As long as the CPU has not been shut down, no wakeup is lost: if the CPU is free and a
    thread sleeps, waiting for it, then one of those waiting can get it. -/
theorem sleeper_gets_cpu {starter : θ} (hcard : Fintype.card θ < maxThreads)
    (hs : m.system.Reachable (m.init starter) s)
    (hopen : s.halts = 0) (hfree : s.owner = none) (ht : (s.pc t).asleep = true) :
    ∃ u ls, ((s.pc u).asleep = true ∨ (s.pc u).tries = true) ∧ ls.length ≤ 3 ∧
      m.system.IsRun s ls ∧ (m.system.run s ls).owner = some u := by
  obtain ⟨p, hbaton, h⟩ := exists_baton_gate hcard hs
  have hgate : s.shutdownGate < maxThreads := by
    by_contra hclosed
    exact absurd ((h.closed_iff hcard).1 (Nat.not_lt.1 hclosed)) (by simp [hopen])
  have hbug := hbaton.bug
  by_cases hsem : 0 < s.sem
  · -- The thread is woken, and tries again.
    obtain ⟨c, hpc⟩ : ∃ c, s.pc t = .sleep c := by
      cases hpc : s.pc t <;> simp [hpc, Pc.asleep] at ht
      exact ⟨_, rfl⟩
    obtain ⟨ls, hlength, hrun, howner⟩ := exists_retry_run (m := m)
      (s := { s with sem := s.sem - 1 }.goto t (.retry c)) hbug (goto_pc_self _ t _) hgate hfree
    exact ⟨t, .down t c :: ls, .inl ht, Nat.succ_le_succ hlength,
      ⟨⟨⟨hbug, hpc, hsem⟩, trivial⟩, hrun⟩, howner⟩
  · -- Another thread has been woken.
    have hsleepers : 0 < s.sleepers := by
      have hpos := count_pos ht
      have hasleep := h.asleep
      rw [Machine.waiting] at hasleep
      split_ifs at hasleep <;> omega
    have htries := h.wakes hopen hfree hsleepers
    rw [Nat.eq_zero_of_not_pos hsem, Nat.zero_add] at htries
    obtain ⟨u, hu⟩ := exists_of_count_pos htries
    cases hpc : s.pc u with
    | lock c =>
      obtain ⟨ls, hlength, hrun, howner⟩ := exists_lock_run (m := m) hbug hpc hgate hfree
      exact ⟨u, ls, .inr hu, hlength.trans (by decide), hrun, howner⟩
    | retry c =>
      obtain ⟨ls, hlength, hrun, howner⟩ := exists_retry_run (m := m) hbug hpc hgate hfree
      exact ⟨u, ls, .inr hu, hlength.trans (by decide), hrun, howner⟩
    | _ => simp [hpc, Pc.tries] at hu

/-- A thread gets the CPU, another one sleeps, and the first one gives it back. -/
def sampleSleep : List (Event SampleThread) :=
  sampleGet .first ++ [.call .second none [], .enter .second ⟨none, []⟩,
    .lock .second ⟨none, []⟩, .put .first false [] none]

theorem isRun_sampleSleep : sampleMachine.system.IsRun (sampleMachine.init .first) sampleSleep :=
  ⟨⟨⟨rfl, rfl, fun _ => rfl⟩, trivial⟩, ⟨⟨rfl, rfl⟩, trivial⟩, ⟨⟨rfl, rfl⟩, trivial⟩,
    ⟨⟨rfl, rfl⟩, trivial⟩, ⟨⟨rfl, rfl, fun _ => rfl⟩, trivial⟩, ⟨⟨rfl, rfl⟩, trivial⟩,
    ⟨⟨rfl, rfl⟩, trivial⟩,
    ⟨⟨rfl, rfl, rfl, fun _ => .inl rfl, fun _ hu => absurd hu (Option.not_mem_none _)⟩,
      (Option.some_ne_none _).symm⟩, trivial⟩

theorem sleeper_gets_cpu_sample :
    let s := sampleMachine.system.run (sampleMachine.init .first) sampleSleep
    ∃ u ls, ((s.pc u).asleep = true ∨ (s.pc u).tries = true) ∧ ls.length ≤ 3 ∧
      sampleMachine.system.IsRun s ls ∧ (sampleMachine.system.run s ls).owner = some u :=
  sleeper_gets_cpu (t := .second) (by decide) (System.reachable_run isRun_sampleSleep) rfl rfl rfl

/-! ## Shutting down -/

/-- When the lock and the semaphores have been freed, nothing uses them any more. -/
theorem not_usesCpu_of_freed {starter : θ} (hcard : Fintype.card θ < maxThreads)
    (hs : m.system.Reachable (m.init starter) s)
    (hfreed : s.freed = true) {l : Event θ} (hl : m.system.Enabled s l) : l.usesCpu = false := by
  obtain ⟨p, hbaton, h⟩ := exists_baton_gate hcard hs
  obtain ⟨hidle, -, hnone⟩ := h.freed hfreed
  -- The idle task has the CPU, so nobody else is in code of the kernel.
  obtain rfl := hbaton.eq_code (t := m.idle) (by rw [hidle]; exact List.cons_ne_nil false [])
  have hkernel : ∀ t b ctx, s.pc t ≠ .kernel (b :: ctx) := by
    intro t b ctx hpc
    obtain rfl : m.idle = t :=
      Place.code.inj (hbaton.eq_code (by rw [hpc]; exact List.cons_ne_nil b ctx))
    exact Pc.noConfusion (hidle.symm.trans hpc)
  obtain ⟨⟨-, hl⟩, -⟩ := hl
  cases l with
  | lock t c => exact absurd (hnone t).1 (by rw [show s.pc t = _ from hl]; exact Bool.noConfusion)
  | down t c => exact absurd (hnone t).2 (by rw [hl.1]; exact Bool.noConfusion)
  | put t b ctx resched => exact absurd hl.1 (hkernel t b ctx)
  | newHostTask t next => exact absurd hl.1 (hkernel t false [])
  | switchToHostTask t next => exact absurd hl.1 (hkernel t false [])
  | schedule t b next => exact absurd hl.1 (hkernel t false [])
  | reboot t next => exact absurd hl.1 (hkernel t false [])
  | idle => exact absurd hl.1 (hkernel m.idle false [])
  | resumeIdle => exact Pc.noConfusion (hidle.symm.trans hl.1)
  | wakeAll => exact Pc.noConfusion (hidle.symm.trans hl)
  | cleanup => exact Pc.noConfusion (hidle.symm.trans hl.1)
  | _ => rfl

/-- A thread in its task has the CPU, another one sleeps, and the first one shuts the CPU down. The
    idle task wakes the other one. -/
def sampleShutdown : List (Event SampleThread) :=
  sampleSwitch .first ++ [.resume .first (.own .first), .call .second none [],
    .enter .second ⟨none, []⟩, .lock .second ⟨none, []⟩, .shutdown .first,
    .reboot .first (.own .idle), .resume .idle (.own .idle), .idle, .wakeAll]

theorem isRun_sampleShutdown :
    sampleMachine.system.IsRun (sampleMachine.init .first) sampleShutdown := by
  refine System.isRun_append.2 ⟨isRun_sampleSwitch (by decide), ?_⟩
  exact ⟨⟨⟨rfl, rfl, by decide, .inl rfl⟩, trivial⟩, ⟨⟨rfl, rfl, fun _ => rfl⟩, trivial⟩,
    ⟨⟨rfl, rfl⟩, trivial⟩, ⟨⟨rfl, rfl⟩, trivial⟩, ⟨⟨rfl, rfl, rfl, by decide⟩, trivial⟩,
    ⟨⟨rfl, rfl, rfl, rfl, rfl, .inr ⟨rfl, by decide⟩⟩, trivial⟩,
    ⟨⟨rfl, rfl, by decide, .inl rfl⟩, trivial⟩, ⟨⟨rfl, rfl, rfl⟩, trivial⟩, ⟨⟨rfl, rfl⟩, trivial⟩,
    trivial⟩

/-- The other thread leaves, and the CPU is freed. -/
def sampleCleanup : List (Event SampleThread) :=
  [.down .second ⟨none, []⟩, .retry .second ⟨none, []⟩, .leave .second ⟨none, []⟩ (-2), .cleanup]

theorem isRun_sampleCleanup : sampleMachine.system.IsRun
    (sampleMachine.system.run (sampleMachine.init .first) sampleShutdown) sampleCleanup :=
  ⟨⟨⟨rfl, rfl, by decide⟩, trivial⟩, ⟨⟨rfl, rfl⟩, trivial⟩, ⟨⟨rfl, rfl⟩, trivial⟩,
    ⟨⟨rfl, rfl, by decide⟩, trivial⟩, trivial⟩

theorem not_usesCpu_of_freed_sample : (Event.call SampleThread.first none []).usesCpu = false :=
  not_usesCpu_of_freed (m := sampleMachine) (by decide)
    ((System.reachable_run isRun_sampleShutdown).trans (System.reachable_run isRun_sampleCleanup))
    rfl ⟨⟨rfl, rfl, fun _ => rfl⟩, trivial⟩

end Cpu

end NodeLkl
