import NodeLkl.Arch.Cpu

/-!
# Handing the CPU over

At any time, the CPU is in one place (`Place`): free, in the code a thread runs, or
on its way to a thread, in the semaphore that the thread waits at. What the state
says about it, the owner and the number of calls by which they have got the CPU, the
contexts of the threads, the semaphores, the current task, fits that place (`Baton`),
and every event takes the CPU from its place to one of the places (`Baton.step`), if the
run is orderly (`State.Orderly`).

* `mutual_exclusion`: one thread at a time runs the code of the kernel, and the checks
  of `lkl_cpu_put`, `lkl_cpu_change_owner` and `lkl_idle_tail_schedule` never fail.
* `owner_woken`: a CPU that has been handed over arrives.
* `exists_two_with_cpu`: a thread that blocks as `host0`, while another one is recorded
  to be its thread, is not kept apart from that one.
-/

namespace NodeLkl

namespace Cpu

/-- Where the CPU is: free, with a thread, or on its way to the thread of a task, in the
    semaphore of the task, or in that of the idle task. -/
inductive Place (θ : Type*)
  | free
  | code (t : θ)
  | sched (u : Task θ)
  | idle
  deriving DecidableEq

variable {θ : Type*}

/-- The owner of the CPU, by its place. -/
def Machine.ownerOf (m : Machine θ) (s : State θ) : Place θ → Option θ
  | .free => none
  | .code t => some t
  | .sched u => some (s.thread u)
  | .idle => some m.idle

/-- The number of calls by which the owner has got the CPU. -/
def State.depth (s : State θ) : Place θ → ℕ
  | .free => 0
  | .code t => (s.pc t).ctx.length
  | .sched _ | .idle => 1

/-- The thread is in a call to get the CPU. -/
def Pc.calls : Pc → Bool
  | .enter _ | .retry _ | .lock _ | .sleep _ | .leave _ _ => true
  | _ => false

/-- The thread is not doing anything: it is waiting for its task to run, or gone. -/
def Pc.rests : Pc → Bool
  | .parked | .parkedHost0 | .idling | .exited => true
  | _ => false

theorem Task.rests_parked (u : Task θ) : u.parked.rests = true := by
  cases u <;> rfl

theorem Task.ctx_parked (u : Task θ) : u.parked.ctx = [] := by
  cases u <;> rfl

theorem Task.calls_parked (u : Task θ) : u.parked.calls = false := by
  cases u <;> rfl

/-- The current task may lend its context to another thread: it is that of a host thread, or
    the idle task, which is idling. -/
def Machine.Lent (m : Machine θ) (s : State θ) : Prop :=
  m.hostTask s.current = true ∨ s.current = .own m.idle ∧ s.pc m.idle = .idling

variable [DecidableEq θ]

/-- The CPU is in the place `p`. -/
structure Baton (m : Machine θ) (s : State θ) (p : Place θ) : Prop where
  bug : s.bug = false
  owner : s.owner = m.ownerOf s p
  count : s.count = s.depth p
  interrupts : s.interrupts.length = s.count
  /-- A thread is in code of the kernel if it has the CPU. -/
  ctx : ∀ t, (s.pc t).ctx ≠ [] ↔ p = .code t
  /-- A semaphore is up if the CPU is in it, or its thread is to exit. -/
  schedSem : ∀ u, s.gone u = false → s.schedSem u = if p = .sched u then 1 else 0
  idleSem : s.idleSem = if p = .idle then 1 else 0
  sched : ∀ u, p = .sched u → s.pc (s.thread u) = u.parked ∧ s.gone u = false ∧ s.current = u
  idle : p = .idle → s.pc m.idle = .idling ∧ s.current = .own m.idle
  idlePending : s.idlePending = true ↔
    s.pc m.idle = .idling ∨ (s.pc m.idle).ctx.getLast? = some true
  lent : p = .free → m.Lent s
  /-- The owner runs in its own task, or, if it is a host thread, in one it has been lent. -/
  own : ∀ t, p = .code t → s.current = .own t ∨ m.host t = true ∧ m.Lent s
  /-- The threads of the tasks that can run wait for it, except for the current one. -/
  runnable : ∀ u, s.runnable u = true →
    u ≠ .own m.idle ∧ (s.current = u ∨ s.pc (s.thread u) = u.parked ∧ s.gone u = false)
  /-- Only the thread `host0` is recorded to have waits at its semaphore. -/
  host0 : ∀ t, s.pc t = .parkedHost0 → t = s.host0Tid ∧ m.host t = true
  waits : s.current = .own m.idle ∨ s.pc m.idle = .parked ∨ s.pc m.idle = .idling
  dead : ∀ t, s.dead t = true → t ≠ m.idle ∧ (s.pc t = .parked ∨ s.pc t = .exited)
  caller : ∀ t, (s.pc t).calls = true → (s.pc t).ctx = [] → m.host t = true

variable {m : Machine θ} {s s' : State θ} {p : Place θ} {t : θ} {q : Pc}

/-- The two states are the same, but for the owner of the CPU, where threads are, and what
    has nothing to do with who has the CPU. -/
structure Same (s s' : State θ) : Prop where
  bug : s'.bug = s.bug
  schedSem : s'.schedSem = s.schedSem
  idleSem : s'.idleSem = s.idleSem
  current : s'.current = s.current
  host0Tid : s'.host0Tid = s.host0Tid
  runnable : s'.runnable = s.runnable
  dead : s'.dead = s.dead

omit [DecidableEq θ] in
theorem State.thread_congr (h : s'.host0Tid = s.host0Tid) (u : Task θ) :
    s'.thread u = s.thread u := by
  cases u
  exacts [h, rfl]

omit [DecidableEq θ] in
theorem State.gone_congr (h : s'.dead = s.dead) (u : Task θ) : s'.gone u = s.gone u := by
  cases u
  exacts [rfl, congrFun h _]

omit [DecidableEq θ] in
/-- A thread waits at the semaphore of one task only. -/
theorem State.eq_of_parked {u v : Task θ} (hthread : s.thread u = s.thread v)
    (hparked : u.parked = v.parked) : u = v := by
  cases u <;> cases v <;> simp_all [Task.parked, State.thread]

@[simp]
theorem goto_pc_self (s : State θ) (t : θ) (q : Pc) : (s.goto t q).pc t = q := by
  simp [State.goto]

theorem goto_pc_of_ne (s : State θ) {t u : θ} (q : Pc) (hu : u ≠ t) :
    (s.goto t q).pc u = s.pc u := by
  simp [State.goto, hu]

omit [DecidableEq θ] in
theorem Machine.ne_idle (hhost : m.host t = true) : t ≠ m.idle := by
  rintro rfl
  exact Bool.noConfusion (m.host_idle.symm.trans hhost)

omit [DecidableEq θ] in
/-- A thread that goes on leaves the current task as it is. -/
theorem Machine.Lent.of_goes (h : m.Lent s) (hcurrent : s'.current = s.current)
    (hother : ∀ u, u ≠ t → s'.pc u = s.pc u) (hrests : (s.pc t).rests = false) : m.Lent s' := by
  rcases h with hhost | ⟨hcur, hpc⟩
  · exact .inl (hcurrent ▸ hhost)
  · refine .inr ⟨hcurrent.trans hcur, ?_⟩
    rw [hother, hpc]
    rintro rfl
    simp [hpc, Pc.rests] at hrests

/-- Whether the idle task is pending is the same if its thread goes on, keeping what it was
    called for, or idles. -/
theorem Baton.pending_iff (h : Baton m s p) (hpending : s'.idlePending = s.idlePending)
    (hself : s'.pc t = q) (hother : ∀ u, u ≠ t → s'.pc u = s.pc u)
    (hrests : (s.pc t).rests = false)
    (hidle : t = m.idle → q.ctx.getLast? = (s.pc t).ctx.getLast? ∧ q.ctx ≠ [] ∨
      q = .idling ∧ (s.pc t).ctx.getLast? = some true) :
    s'.idlePending = true ↔
      s'.pc m.idle = .idling ∨ (s'.pc m.idle).ctx.getLast? = some true := by
  rw [hpending, h.idlePending]
  by_cases hu : m.idle = t
  · have hidling : s.pc t ≠ .idling := fun hpc => by simp [hpc, Pc.rests] at hrests
    rw [hu, hself, or_iff_right hidling]
    rcases hidle hu.symm with ⟨hlast, hne⟩ | ⟨rfl, hlast⟩
    · rw [hlast, or_iff_right]
      rintro rfl
      exact hne rfl
    · exact iff_of_true hlast (.inl rfl)
  · rw [hother _ hu]

/-- A thread goes on, having the CPU or not, getting it or giving it back. -/
theorem Baton.shift (p' : Place θ) (h : Baton m s p) (hs : Same s s') (hself : s'.pc t = q)
    (hother : ∀ u, u ≠ t → s'.pc u = s.pc u) (hrests : (s.pc t).rests = false)
    (hp : p' = p ∨ p = .free ∧ p' = .code t ∨ p = .code t ∧ p' = .free)
    (howner : s'.owner = m.ownerOf s' p') (hcount : s'.count = s'.depth p')
    (hinterrupts : s'.interrupts.length = s'.count) (hparked : q ≠ .parkedHost0)
    (hctx : q.ctx ≠ [] ↔ p' = .code t) (hlent : p' = .free → m.Lent s')
    (hown : p' = .code t → s.current = .own t ∨ m.host t = true ∧ m.Lent s')
    (hpending : s'.idlePending = true ↔
      s'.pc m.idle = .idling ∨ (s'.pc m.idle).ctx.getLast? = some true)
    (hcaller : q.calls = true → q.ctx = [] → m.host t = true) : Baton m s' p' := by
  have hcode : ∀ u, u ≠ t → (p' = .code u ↔ p = .code u) := by
    intro u hu
    rcases hp with rfl | ⟨rfl, rfl⟩ | ⟨rfl, rfl⟩ <;> simp [hu.symm]
  have hsched : ∀ u, p' = .sched u ↔ p = .sched u := by
    intro u
    rcases hp with rfl | ⟨rfl, rfl⟩ | ⟨rfl, rfl⟩ <;> simp
  have hplace : p' = .idle ↔ p = .idle := by
    rcases hp with rfl | ⟨rfl, rfl⟩ | ⟨rfl, rfl⟩ <;> simp
  -- The threads that rest are other ones.
  have hstill : ∀ {u r}, s.pc u = r → r.rests = true → s'.pc u = r := by
    rintro u r rfl hr
    exact hother u fun hu => Bool.noConfusion (hrests.symm.trans (hu ▸ hr))
  refine
    { bug := hs.bug.trans h.bug
      owner := howner
      count := hcount
      interrupts := hinterrupts
      ctx := fun u => ?_
      schedSem := fun u hu => ?_
      idleSem := ?_
      sched := fun u hu => ?_
      idle := fun hu => ?_
      idlePending := hpending
      lent := hlent
      own := fun u hu => ?_
      runnable := fun u hu => ?_
      host0 := fun u hu => ?_
      waits := ?_
      dead := fun u hu => ?_
      caller := fun u hu => ?_ }
  · by_cases hut : u = t
    · rw [hut, hself, hctx]
    · rw [hother u hut, h.ctx, hcode u hut]
  · rw [State.gone_congr hs.dead] at hu
    rw [hs.schedSem, h.schedSem u hu]
    exact if_congr (hsched u).symm rfl rfl
  · rw [hs.idleSem, h.idleSem]
    exact if_congr hplace.symm rfl rfl
  · obtain ⟨hpc, hgone, hcur⟩ := h.sched u ((hsched u).1 hu)
    rw [State.thread_congr hs.host0Tid, State.gone_congr hs.dead]
    exact ⟨hstill hpc u.rests_parked, hgone, hs.current.trans hcur⟩
  · obtain ⟨hpc, hcur⟩ := h.idle (hplace.1 hu)
    exact ⟨hstill hpc rfl, hs.current.trans hcur⟩
  · rw [hs.current]
    by_cases hut : u = t
    · subst hut
      exact hown hu
    · exact (h.own u ((hcode u hut).1 hu)).imp_right
        (.imp_right (·.of_goes hs.current hother hrests))
  · obtain ⟨hne, hcur | ⟨hpc, hgone⟩⟩ := h.runnable u (hs.runnable ▸ hu)
    · exact ⟨hne, .inl (hs.current.trans hcur)⟩
    · rw [State.thread_congr hs.host0Tid, State.gone_congr hs.dead]
      exact ⟨hne, .inr ⟨hstill hpc u.rests_parked, hgone⟩⟩
  · rw [hs.host0Tid]
    by_cases hut : u = t
    · rw [hut, hself] at hu
      exact absurd hu hparked
    · exact h.host0 u ((hother u hut).symm.trans hu)
  · rcases h.waits with hcur | hpc | hpc
    · exact .inl (hs.current.trans hcur)
    · exact .inr (.inl (hstill hpc rfl))
    · exact .inr (.inr (hstill hpc rfl))
  · obtain ⟨hne, hpc | hpc⟩ := h.dead u (hs.dead ▸ hu)
    · exact ⟨hne, .inl (hstill hpc rfl)⟩
    · exact ⟨hne, .inr (hstill hpc rfl)⟩
  · by_cases hut : u = t
    · rw [hut, hself] at hu ⊢
      exact hcaller hu
    · rw [hother u hut] at hu ⊢
      exact h.caller u hu

/-- Where the CPU is when it has been handed over. -/
def Machine.handed (m : Machine θ) (s : State θ) (next : Task θ) : Place θ :=
  if next = .own m.idle ∧ s.idlePending = true then .idle else .sched next

/-- The CPU has been handed over to the thread of the task `next`. -/
structure Handed (m : Machine θ) (s s' : State θ) (next : Task θ) : Prop where
  bug : s'.bug = s.bug
  owner : s'.owner = some (s.thread next)
  count : s'.count = s.count
  interrupts : s'.interrupts = s.interrupts
  schedSem : ∀ u, s'.schedSem u = s.schedSem u + if m.handed s next = .sched u then 1 else 0
  idleSem : s'.idleSem = s.idleSem + if m.handed s next = .idle then 1 else 0
  idlePending : s'.idlePending = s.idlePending
  current : s'.current = next
  host0Tid : s'.host0Tid = s.host0Tid
  dead : s'.dead = s.dead

/-- The owner of the CPU hands it over to a thread that waits for it, and goes on. -/
theorem Baton.hand {next : Task θ} (h : Baton m s (.code t)) (hs : Handed m s s' next)
    (hcount : s.count = 1) (hself : s'.pc t = q) (hother : ∀ u, u ≠ t → s'.pc u = s.pc u)
    (hq : q.ctx = []) (hcalls : q.calls = false)
    (hhost0 : q = .parkedHost0 → t = s.host0Tid ∧ m.host t = true)
    (hidle : t = m.idle → q = if s.idlePending then .idling else .parked)
    (hnext : s'.pc (s.thread next) = next.parked ∧ s.gone next = false ∨
      next = .own m.idle ∧ s'.pc m.idle = .idling)
    (hr : ∀ u, s'.runnable u = true →
      u ≠ .own m.idle ∧ s'.pc (s.thread u) = u.parked ∧ s.gone u = false) :
    Baton m s' (m.handed s next) := by
  have hctx : ∀ u, (s'.pc u).ctx = [] := by
    intro u
    by_cases hu : u = t
    · rw [hu, hself, hq]
    · rw [hother u hu]
      by_contra hne
      exact hu (Place.code.inj ((h.ctx u).1 hne)).symm
  have hpending : s.idlePending = true ↔ s'.pc m.idle = .idling := by
    by_cases hu : m.idle = t
    · rw [hu, hself, hidle hu.symm]
      split_ifs with hp <;> simp [hp]
    · rw [hother _ hu, h.idlePending, or_iff_left]
      rw [← hother _ hu, hctx]
      simp
  have hplace : m.handed s next = .idle ∧ next = .own m.idle ∧ s'.pc m.idle = .idling ∨
      m.handed s next = .sched next ∧ s'.pc (s.thread next) = next.parked ∧
        s.gone next = false := by
    rcases hnext with ⟨hpc, hgone⟩ | ⟨rfl, hpc⟩
    · refine .inr ⟨if_neg ?_, hpc, hgone⟩
      rintro ⟨rfl, hp⟩
      exact Pc.noConfusion ((hpending.1 hp).symm.trans hpc)
    · exact .inl ⟨if_pos ⟨rfl, hpending.2 hpc⟩, rfl, hpc⟩
  refine
    { bug := hs.bug.trans h.bug
      owner := ?_
      count := ?_
      interrupts := by rw [hs.interrupts, hs.count, h.interrupts]
      ctx := fun u => ?_
      schedSem := fun u hu => ?_
      idleSem := ?_
      sched := fun u hu => ?_
      idle := fun hu => ?_
      idlePending := ?_
      lent := fun hu => ?_
      own := fun u hu => ?_
      runnable := fun u hu => ?_
      host0 := fun u hu => ?_
      waits := ?_
      dead := fun u hu => ?_
      caller := fun u hu => ?_ }
  · rw [hs.owner]
    rcases hplace with ⟨hp, rfl, -⟩ | ⟨hp, -⟩
    · rw [hp]
      rfl
    · rw [hp, Machine.ownerOf, State.thread_congr hs.host0Tid]
  · rw [hs.count, hcount]
    rcases hplace with ⟨hp, -⟩ | ⟨hp, -⟩ <;> rw [hp] <;> rfl
  · refine iff_of_false (not_not.2 (hctx u)) ?_
    rcases hplace with ⟨hp, -⟩ | ⟨hp, -⟩ <;> simp [hp]
  · rw [State.gone_congr hs.dead] at hu
    rw [hs.schedSem, h.schedSem u hu, if_neg (by simp), Nat.zero_add]
  · rw [hs.idleSem, h.idleSem, if_neg (by simp), Nat.zero_add]
  · rcases hplace with ⟨hp, -⟩ | ⟨hp, hpc, hgone⟩
    · simp [hp] at hu
    · obtain rfl : next = u := by simpa [hp] using hu
      rw [State.thread_congr hs.host0Tid, State.gone_congr hs.dead]
      exact ⟨hpc, hgone, hs.current⟩
  · rcases hplace with ⟨hp, rfl, hpc⟩ | ⟨hp, -⟩
    · exact ⟨hpc, hs.current⟩
    · simp [hp] at hu
  · rw [hs.idlePending, hpending, hctx]
    simp
  · rcases hplace with ⟨hp, -⟩ | ⟨hp, -⟩ <;> simp [hp] at hu
  · rcases hplace with ⟨hp, -⟩ | ⟨hp, -⟩ <;> simp [hp] at hu
  · rw [State.thread_congr hs.host0Tid, State.gone_congr hs.dead]
    exact (hr u hu).imp_right .inr
  · rw [hs.host0Tid]
    by_cases hut : u = t
    · rw [hut, hself] at hu
      exact hut ▸ hhost0 hu
    · exact h.host0 u ((hother u hut).symm.trans hu)
  · refine .inr ?_
    by_cases hu : m.idle = t
    · rw [hu, hself, hidle hu.symm]
      split_ifs <;> simp
    · rw [hother _ hu]
      -- A thread running in the context of the idle task is a host thread.
      by_cases hcur : s.current = .own m.idle
      · rcases h.own t rfl with hown | ⟨-, hhost | hlent⟩
        · exact absurd (Task.own.inj (hcur.symm.trans hown)) hu
        · rw [hcur] at hhost
          exact absurd rfl (Machine.ne_idle hhost)
        · exact .inr hlent.2
      · exact h.waits.resolve_left hcur
  · obtain ⟨hne, hpc⟩ := h.dead u (hs.dead ▸ hu)
    have hut : u ≠ t := by
      rintro rfl
      rcases hpc with hpc | hpc <;> exact (h.ctx u).2 rfl (by rw [hpc]; rfl)
    exact ⟨hne, by rwa [hother u hut]⟩
  · by_cases hut : u = t
    · rw [hut, hself, hcalls] at hu
      exact Bool.noConfusion hu
    · rw [hother u hut] at hu ⊢
      exact h.caller u hu

@[simp]
theorem Machine.switchTo_pc (m : Machine θ) (s : State θ) (next : Task θ) :
    (m.switchTo s next).pc = s.pc := by
  simp only [switchTo, State.lklCpuChangeOwner, State.lklBug]
  split_ifs <;> rfl

@[simp]
theorem Machine.switchTo_runnable (m : Machine θ) (s : State θ) (next : Task θ) :
    (m.switchTo s next).runnable = s.runnable := by
  simp only [switchTo, State.lklCpuChangeOwner, State.lklBug]
  split_ifs <;> rfl

theorem Machine.threadSchedJb_pc (m : Machine θ) (s : State θ) (next : Task θ) :
    (m.threadSchedJb s next).pc = s.pc := by
  unfold Machine.threadSchedJb
  split_ifs
  · exact m.switchTo_pc _ next
  · rfl
  · rfl
  · exact m.switchTo_pc _ next

theorem Machine.handed_switchTo (m : Machine θ) (s : State θ) (r : Task θ → Bool) (next : Task θ)
    (hcount : s.count = 1) :
    Handed m s ((m.switchTo { s with runnable := r } next).goto t q) next := by
  have howner : { s with runnable := r, current := next }.lklCpuChangeOwner (s.thread next) =
      { s with runnable := r, current := next, owner := some (s.thread next) } :=
    if_neg (by simp [hcount])
  have hthread : State.thread { s with runnable := r } next = s.thread next :=
    State.thread_congr rfl next
  simp only [switchTo, hthread, howner]
  by_cases hidle : next = .own m.idle ∧ s.idlePending = true
  · have hplace : m.handed s next = .idle := if_pos hidle
    rw [if_pos hidle]
    exact ⟨rfl, rfl, rfl, rfl, fun u => by simp [hplace, State.goto],
      by simp [hplace, State.goto], rfl, rfl, rfl, rfl⟩
  · have hplace : m.handed s next = .sched next := if_neg hidle
    rw [if_neg hidle]
    refine ⟨rfl, rfl, rfl, rfl, fun u => ?_, by simp [hplace, State.goto], rfl, rfl, rfl, rfl⟩
    simp only [hplace, State.goto, Place.sched.injEq, Function.update_apply, eq_comm (a := u)]
    split_ifs with hu
    · rw [hu]
    · rfl

/-- The thread the CPU was handed over to has been woken. -/
theorem Baton.arrive (task : Task θ) (h : Baton m s p) (htask : s.thread task = t)
    (hp : p = .sched task ∨ p = .idle ∧ task = .own m.idle)
    (hbug : s'.bug = s.bug) (howner : s'.owner = s.owner) (hcount : s'.count = s.count)
    (hinterrupts : s'.interrupts = s.interrupts) (hcurrent : s'.current = s.current)
    (hhost0 : s'.host0Tid = s.host0Tid) (hrunnable : s'.runnable = s.runnable)
    (hdead : s'.dead = s.dead) (hsched : ∀ u, s.gone u = false → s'.schedSem u = 0)
    (hidleSem : s'.idleSem = 0)
    (hpending : s'.idlePending = if t = m.idle then false else s.idlePending)
    (hself : s'.pc t = .kernel [false]) (hother : ∀ u, u ≠ t → s'.pc u = s.pc u) :
    Baton m s' (.code t) := by
  have hcur : s.current = task := by
    rcases hp with rfl | ⟨rfl, rfl⟩
    exacts [(h.sched task rfl).2.2, (h.idle rfl).2]
  have hcode : ∀ u, (s.pc u).ctx = [] := by
    intro u
    by_contra hne
    rcases hp with rfl | ⟨rfl, rfl⟩ <;> simpa using (h.ctx u).1 hne
  have hgone : s.dead t = false := by
    refine Bool.eq_false_iff.2 fun hd => ?_
    obtain ⟨hidle, hpc⟩ := h.dead t hd
    rcases hp with rfl | ⟨rfl, rfl⟩
    · obtain ⟨hparked, hnot, -⟩ := h.sched task rfl
      rw [htask] at hparked
      cases task with
      | host0 => rcases hpc with hpc | hpc <;> exact Pc.noConfusion (hparked.symm.trans hpc)
      | own u => exact Bool.noConfusion (hnot.symm.trans (htask ▸ hd))
    · exact hidle htask.symm
  -- The thread runs in its own task, or is a host thread that runs as `host0`.
  have hown : task = .own t ∨ task = .host0 ∧ m.host t = true := by
    cases task with
    | host0 =>
      rcases hp with rfl | ⟨-, hne⟩
      · refine .inr ⟨rfl, (h.host0 t ?_).2⟩
        rw [← htask]
        exact (h.sched .host0 rfl).1
      · simp at hne
    | own u => exact .inl (congrArg Task.own htask)
  have hne : ∀ u, u ≠ task → s.pc (s.thread u) = u.parked → s.thread u ≠ t := by
    intro u hu hpc heq
    rcases hp with rfl | ⟨rfl, rfl⟩
    · refine hu (State.eq_of_parked (heq.trans htask.symm) ?_)
      rw [← hpc, heq, ← htask, (h.sched task rfl).1]
    · rw [heq, ← htask, show s.pc (s.thread (.own m.idle)) = .idling from (h.idle rfl).1] at hpc
      cases u <;> exact Pc.noConfusion hpc
  refine
    { bug := hbug.trans h.bug
      owner := ?_
      count := ?_
      interrupts := by rw [hinterrupts, hcount, h.interrupts]
      ctx := fun u => ?_
      schedSem := fun u hu => ?_
      idleSem := ?_
      sched := fun u hu => ?_
      idle := fun hu => ?_
      idlePending := ?_
      lent := fun hu => ?_
      own := fun u hu => ?_
      runnable := fun u hu => ?_
      host0 := fun u hu => ?_
      waits := ?_
      dead := fun u hu => ?_
      caller := fun u hu => ?_ }
  · rw [howner, h.owner]
    rcases hp with rfl | ⟨rfl, rfl⟩ <;> exact congrArg some htask
  · rw [hcount, h.count, State.depth, hself]
    rcases hp with rfl | ⟨rfl, rfl⟩ <;> rfl
  · by_cases hut : u = t
    · simp [hut, hself, Pc.ctx]
    · rw [hother u hut]
      exact iff_of_false (not_not.2 (hcode u)) fun heq => hut (Place.code.inj heq).symm
  · rw [State.gone_congr hdead] at hu
    rw [hsched u hu, if_neg (by simp)]
  · rw [hidleSem, if_neg (by simp)]
  · simp at hu
  · simp at hu
  · rw [hpending]
    by_cases ht : t = m.idle
    · subst ht
      simp [hself, Pc.ctx]
    · rw [if_neg ht, h.idlePending, hother _ (Ne.symm ht)]
  · simp at hu
  · obtain rfl := Place.code.inj hu
    rw [hcurrent, hcur]
    refine hown.imp_right fun ⟨htask, hhost⟩ => ⟨hhost, .inl ?_⟩
    rw [hcurrent, hcur, htask]
    rfl
  · obtain ⟨hidle, hor⟩ := h.runnable u (hrunnable ▸ hu)
    refine ⟨hidle, ?_⟩
    rw [hcurrent, hcur, State.thread_congr hhost0, State.gone_congr hdead]
    by_cases hu : u = task
    · exact .inl hu.symm
    · obtain ⟨hpc, hgone⟩ := hor.resolve_left fun heq => hu (heq.symm.trans hcur)
      exact .inr ⟨(hother _ (hne u hu hpc)).trans hpc, hgone⟩
  · rw [hhost0]
    by_cases hut : u = t
    · rw [hut, hself] at hu
      exact Pc.noConfusion hu
    · exact h.host0 u ((hother u hut).symm.trans hu)
  · rw [hcurrent]
    by_cases ht : t = m.idle
    · rw [hcur]
      refine .inl (hown.elim (fun heq => ht ▸ heq) fun ⟨_, hhost⟩ => ?_)
      exact absurd ht (Machine.ne_idle hhost)
    · rw [hother _ (Ne.symm ht)]
      exact h.waits
  · have hut : u ≠ t := by
      rintro rfl
      rw [hdead, hgone] at hu
      exact Bool.noConfusion hu
    rw [hother u hut]
    exact h.dead u (hdead ▸ hu)
  · by_cases hut : u = t
    · rw [hut, hself] at hu
      exact Bool.noConfusion hu
    · rw [hother u hut] at hu ⊢
      exact h.caller u hu

theorem Baton.resume {task : Task θ} (h : Baton m s p) (hpc : s.pc t = task.parked)
    (hsem : 0 < s.schedSem task) (hgone : s.gone task = false)
    (htask : task = .own t ∨ task = .host0) : Baton m (s.resume t task) (.code t) := by
  obtain rfl : p = .sched task := by
    by_contra hp
    rw [h.schedSem task hgone, if_neg hp] at hsem
    exact Nat.lt_irrefl 0 hsem
  have hthread : s.thread task = t := by
    rcases htask with rfl | rfl
    · rfl
    · exact (h.host0 t hpc).1.symm
  refine h.arrive task hthread (.inl rfl) rfl rfl rfl rfl rfl rfl rfl rfl (fun u hu => ?_) ?_ ?_ ?_
    fun u hu => goto_pc_of_ne _ _ hu
  · have hold := h.schedSem u hu
    change Function.update s.schedSem task (s.schedSem task - 1) u = 0
    by_cases hut : u = task
    · subst hut
      rw [Function.update_self, hold, if_pos rfl]
    · rw [Function.update_of_ne hut, hold]
      exact if_neg fun heq => hut (Place.sched.inj heq).symm
  · exact h.idleSem.trans (if_neg (by simp))
  · change s.idlePending = _
    split_ifs with ht
    · rw [Bool.eq_false_iff, ne_eq, h.idlePending, ← ht, hpc, task.ctx_parked]
      cases task <;> simp [Task.parked]
    · rfl
  · simp [State.resume, hgone]

theorem Baton.resumeIdle (h : Baton m s p) (hsem : 0 < s.idleSem) :
    Baton m (m.resumeIdle s) (.code m.idle) := by
  obtain rfl : p = .idle := by
    by_contra hp
    rw [h.idleSem, if_neg hp] at hsem
    exact Nat.lt_irrefl 0 hsem
  refine h.arrive (.own m.idle) rfl (.inr ⟨rfl, rfl⟩) rfl rfl rfl rfl rfl rfl rfl rfl
    (fun u hu => ?_) ?_ ?_ (goto_pc_self _ _ _) fun u hu => goto_pc_of_ne _ _ hu
  · exact (h.schedSem u hu).trans (if_neg (by simp))
  · change s.idleSem - 1 = 0
    rw [h.idleSem, if_pos rfl]
  · rw [if_pos rfl]
    rfl

/-- Something happens to a thread `t`, and its task, that has nothing to do with the CPU. -/
theorem Baton.tend (h : Baton m s p) (hp : p ≠ .sched (.own t)) (ht : t ≠ m.idle)
    (hbug : s'.bug = s.bug) (howner : s'.owner = s.owner) (hcount : s'.count = s.count)
    (hinterrupts : s'.interrupts = s.interrupts) (hcurrent : s'.current = s.current)
    (hhost0 : s'.host0Tid = s.host0Tid) (hidleSem : s'.idleSem = s.idleSem)
    (hpending : s'.idlePending = s.idlePending)
    (hpc : s.pc t = .out ∨ s.pc t = .parked) (hpc' : s'.pc t = .parked ∨ s'.pc t = .exited)
    (hsem : s'.dead t = false → s'.schedSem (.own t) = 0)
    (hrunnable : s'.runnable (.own t) = true →
      s.current = .own t ∨ s'.pc t = .parked ∧ s'.dead t = false)
    (hother : ∀ u, u ≠ t → s'.pc u = s.pc u ∧ s'.dead u = s.dead u)
    (htasks : ∀ u, u ≠ .own t → s'.schedSem u = s.schedSem u ∧ s'.runnable u = s.runnable u) :
    Baton m s' p := by
  have hctx : (s.pc t).ctx = [] := by rcases hpc with hpc | hpc <;> rw [hpc] <;> rfl
  have hctx' : (s'.pc t).ctx = [] := by rcases hpc' with hpc | hpc <;> rw [hpc] <;> rfl
  have hcode : p ≠ .code t := fun heq => (h.ctx t).2 heq hctx
  have hidle : s'.pc m.idle = s.pc m.idle := (hother _ (Ne.symm ht)).1
  have hlent : m.Lent s' ↔ m.Lent s := by rw [Machine.Lent, Machine.Lent, hcurrent, hidle]
  have hthread : ∀ u, s'.thread u = s.thread u := State.thread_congr hhost0
  have hgone : ∀ u, u ≠ .own t → s'.gone u = s.gone u := by
    intro u hu
    cases u with
    | host0 => rfl
    | own v => exact (hother v fun heq => hu (heq ▸ rfl)).2
  -- The thread does not wait at the semaphore of another task.
  have hwaits : ∀ u, u ≠ .own t → s.pc (s.thread u) = u.parked → s.thread u ≠ t := by
    rintro u hu hparked heq
    cases u with
    | host0 =>
      rw [heq] at hparked
      rcases hpc with hpc | hpc <;> exact Pc.noConfusion (hpc.symm.trans hparked)
    | own v => exact hu (congrArg Task.own heq)
  refine
    { bug := hbug.trans h.bug
      owner := ?_
      count := ?_
      interrupts := by rw [hinterrupts, hcount, h.interrupts]
      ctx := fun u => ?_
      schedSem := fun u hu => ?_
      idleSem := hidleSem.trans h.idleSem
      sched := fun u hu => ?_
      idle := fun hu => by rw [hidle, hcurrent]; exact h.idle hu
      idlePending := by rw [hpending, hidle]; exact h.idlePending
      lent := fun hu => hlent.2 (h.lent hu)
      own := fun u hu => by rw [hcurrent, hlent]; exact h.own u hu
      runnable := fun u hu => ?_
      host0 := fun u hu => ?_
      waits := by rw [hcurrent, hidle]; exact h.waits
      dead := fun u hu => ?_
      caller := fun u hu => ?_ }
  · rw [howner, h.owner]
    cases p with
    | sched u => exact congrArg some (hthread u).symm
    | free | code u | idle => rfl
  · rw [hcount, h.count]
    cases p with
    | code u =>
      have hut : u ≠ t := fun heq => hcode (heq ▸ rfl)
      simp only [State.depth, (hother u hut).1]
    | free | sched u | idle => rfl
  · by_cases hut : u = t
    · subst hut
      exact iff_of_false (not_not.2 hctx') hcode
    · rw [(hother u hut).1, h.ctx]
  · by_cases hut : u = .own t
    · subst hut
      rw [hsem hu, if_neg hp]
    · rw [(htasks u hut).1, h.schedSem u (hgone u hut ▸ hu)]
  · have hut : u ≠ .own t := fun heq => hp (heq ▸ hu)
    obtain ⟨hparked, hrest⟩ := h.sched u hu
    rw [hthread, hgone u hut, hcurrent, (hother _ (hwaits u hut hparked)).1]
    exact ⟨hparked, hrest⟩
  · rw [hcurrent]
    by_cases hut : u = .own t
    · subst hut
      exact ⟨fun heq => ht (Task.own.inj heq), hrunnable hu⟩
    · obtain ⟨hne, hor⟩ := h.runnable u ((htasks u hut).2 ▸ hu)
      refine ⟨hne, hor.imp_right fun ⟨hparked, hnot⟩ => ?_⟩
      rw [hthread, hgone u hut, (hother _ (hwaits u hut hparked)).1]
      exact ⟨hparked, hnot⟩
  · rw [hhost0]
    by_cases hut : u = t
    · rw [hut] at hu
      rcases hpc' with hpc | hpc <;> exact Pc.noConfusion (hpc.symm.trans hu)
    · exact h.host0 u ((hother u hut).1.symm.trans hu)
  · by_cases hut : u = t
    · subst hut
      exact ⟨ht, hpc'⟩
    · obtain ⟨hpc, hd⟩ := hother u hut
      rw [hpc]
      exact h.dead u (hd ▸ hu)
  · by_cases hut : u = t
    · subst hut
      rcases hpc' with hpc | hpc <;> rw [hpc] at hu <;> exact Bool.noConfusion hu
    · rw [(hother u hut).1] at hu ⊢
      exact h.caller u hu

theorem Baton.exit (h : Baton m s p) (hpc : s.pc t = .parked) (hdead : s.dead t = true) :
    Baton m (s.resume t (.own t)) p := by
  have hself : (s.resume t (.own t)).pc t = .exited := by simp [State.resume, State.gone, hdead]
  have hrest : (s.resume t (.own t)).dead t = true := hdead
  refine h.tend (t := t) (fun hp => ?_) (h.dead t hdead).1 rfl rfl rfl rfl rfl rfl rfl rfl
    (.inr hpc) (.inr hself) (fun hu => ?_) (fun hu => ?_)
    (fun u hu => ⟨goto_pc_of_ne _ _ hu, rfl⟩) fun u hu => ⟨Function.update_of_ne hu _ _, rfl⟩
  · exact Bool.noConfusion ((h.sched _ hp).2.1.symm.trans hdead)
  · exact Bool.noConfusion (hrest.symm.trans hu)
  · exact .inl ((h.runnable _ hu).2.resolve_right fun hr =>
      Bool.noConfusion (hr.2.symm.trans hdead))

theorem Baton.wake (h : Baton m s p) {u : Task θ} (hparked : s.Parked u) (hgone : s.gone u = false)
    (hu : u ≠ .own m.idle) : Baton m (s.setRunnable u true) p := by
  have hpc : s.pc (s.thread u) = u.parked := by
    cases u with
    | host0 =>
      obtain ⟨t, ht⟩ := hparked
      rw [State.thread, ← (h.host0 t ht).1]
      exact ht
    | own t => exact hparked
  refine { h with owner := ?_, count := ?_, runnable := fun v hv => ?_ }
  · cases p <;> exact h.owner
  · cases p <;> exact h.count
  · change Function.update s.runnable u true v = true at hv
    by_cases heq : v = u
    · subst heq
      exact ⟨hu, .inr ⟨hpc, hgone⟩⟩
    · rw [Function.update_of_ne heq] at hv
      exact h.runnable v hv

theorem Baton.fork (h : Baton m s p) (hpc : s.pc t = .out) (hdead : s.dead t = false)
    (ht : t ≠ m.idle) : Baton m ((s.setRunnable (.own t) true).goto t .parked) p := by
  have hself : ((s.setRunnable (.own t) true).goto t .parked).pc t = .parked := goto_pc_self _ _ _
  have hp : p ≠ .sched (.own t) := fun heq => Pc.noConfusion (hpc.symm.trans (h.sched _ heq).1)
  exact h.tend (t := t) hp ht rfl rfl rfl rfl rfl rfl rfl rfl (.inl hpc) (.inl hself)
    (fun hu => (h.schedSem (.own t) hu).trans (if_neg hp)) (fun _ => .inr ⟨hself, hdead⟩)
    (fun u hu => ⟨goto_pc_of_ne _ _ hu, rfl⟩) fun u hu => ⟨rfl, Function.update_of_ne hu _ _⟩

theorem Baton.kill (h : Baton m s p) (hpc : s.pc t = .parked)
    (hrunnable : s.runnable (.own t) = false) (hcurrent : s.current ≠ .own t) (ht : t ≠ m.idle) :
    Baton m (s.killThread t) p := by
  have hp : p ≠ .sched (.own t) := fun heq => hcurrent (h.sched _ heq).2.2
  have hdead : (s.killThread t).dead t = true := by simp [State.killThread]
  exact h.tend (t := t) hp ht rfl rfl rfl rfl rfl rfl rfl rfl (.inr hpc) (.inl hpc)
    (fun hu => Bool.noConfusion (hdead.symm.trans hu))
    (fun hu => Bool.noConfusion (hrunnable.symm.trans hu))
    (fun u hu => ⟨rfl, Function.update_of_ne hu _ _⟩)
    fun u hu => ⟨Function.update_of_ne hu _ _, rfl⟩

/-- A thread goes on, with as many calls as before. -/
theorem Baton.move (h : Baton m s p) (hs : Same s s') (howner : s'.owner = s.owner)
    (hpending : s'.idlePending = s.idlePending) (hcount : s'.count = s.count)
    (hinterrupts : s'.interrupts.length = s.interrupts.length)
    (hself : s'.pc t = q) (hother : ∀ u, u ≠ t → s'.pc u = s.pc u)
    (hrests : (s.pc t).rests = false) (hrests' : q.rests = false)
    (hlength : q.ctx.length = (s.pc t).ctx.length)
    (hlast : t = m.idle → q.ctx.getLast? = (s.pc t).ctx.getLast?)
    (hhost : q.ctx = [] → m.host t = true) : Baton m s' p := by
  have hne : q.ctx ≠ [] ↔ (s.pc t).ctx ≠ [] := by
    rw [← List.length_pos_iff, ← List.length_pos_iff, hlength]
  have hlent : m.Lent s → m.Lent s' := (·.of_goes hs.current hother hrests)
  refine h.shift p hs hself hother hrests (.inl rfl) ?_ ?_
    (by rw [hinterrupts, hcount, h.interrupts]) ?_ (hne.trans (h.ctx t))
    (fun hp => hlent (h.lent hp)) (fun hp => (h.own t hp).imp_right (.imp_right hlent))
    (h.pending_iff hpending hself hother hrests fun ht => .inl ⟨hlast ht, fun hq => ?_⟩)
    fun _ => hhost
  · rw [howner, h.owner]
    cases p with
    | sched u => exact congrArg some (State.thread_congr hs.host0Tid u).symm
    | free | code u | idle => rfl
  · rw [hcount, h.count]
    cases p with
    | code u =>
      simp only [State.depth]
      by_cases hut : u = t
      · rw [hut, hself, hlength]
      · rw [hother u hut]
    | free | sched u | idle => rfl
  · rintro rfl
    exact Bool.noConfusion hrests'
  · exact Machine.ne_idle (hhost hq) ht

/-- A thread goes on in the same context. -/
theorem Baton.goto (h : Baton m s p) (hs : Same s s') (howner : s'.owner = s.owner)
    (hpending : s'.idlePending = s.idlePending) (hcount : s'.count = s.count)
    (hinterrupts : s'.interrupts.length = s.interrupts.length)
    (hpc : s'.pc = Function.update s.pc t q) (hrests : (s.pc t).rests = false)
    (hrests' : q.rests = false) (hctx : q.ctx = (s.pc t).ctx)
    (hhost : q.ctx = [] → m.host t = true) : Baton m s' p :=
  h.move hs howner hpending hcount hinterrupts (hpc ▸ Function.update_self t q s.pc)
    (fun _ hu => hpc ▸ Function.update_of_ne hu q s.pc) hrests hrests' (by rw [hctx])
    (fun _ => by rw [hctx]) hhost

/-- A thread that locks the CPU gets it, if it is free, or its own. -/
theorem Baton.take (h : Baton m s p) {c : Call} (hpc : s.pc t = .lock c)
    (howner : s.owner = none ∨ s.owner = some t) :
    Baton m ((s.got t).goto t (.leave c 1)) (.code t) := by
  have hctx : (s.pc t).ctx = c.ctx := by rw [hpc]; rfl
  have hp : p = .free ∨ p = .code t := by
    rw [h.owner] at howner
    cases p with
    | free => exact .inl rfl
    | code u => exact .inr (by simpa [Machine.ownerOf] using howner)
    | sched u =>
      obtain rfl : s.thread u = t := by simpa [Machine.ownerOf] using howner
      have hrests := u.rests_parked
      rw [← (h.sched u rfl).1, hpc] at hrests
      exact Bool.noConfusion hrests
    | idle =>
      obtain rfl : m.idle = t := by simpa [Machine.ownerOf] using howner
      exact Pc.noConfusion (hpc.symm.trans (h.idle rfl).1)
  have hhost : p = .free → c.ctx = [] ∧ m.host t = true := by
    rintro rfl
    have hnil : (s.pc t).ctx = [] := by
      by_contra hne
      simpa using (h.ctx t).1 hne
    exact ⟨hctx ▸ hnil, h.caller t (by rw [hpc]; rfl) hnil⟩
  set s' := (s.got t).goto t (.leave c 1)
  have hself : s'.pc t = .leave c 1 := goto_pc_self _ _ _
  have hother : ∀ u, u ≠ t → s'.pc u = s.pc u := fun u hu => goto_pc_of_ne _ _ hu
  have hrests : (s.pc t).rests = false := by rw [hpc]; rfl
  have hlent : m.Lent s → m.Lent s' := (·.of_goes rfl hother hrests)
  refine h.shift (.code t) ⟨rfl, rfl, rfl, rfl, rfl, rfl, rfl⟩ hself hother hrests
    (hp.elim (fun hp => .inr (.inl ⟨hp, rfl⟩)) (fun hp => .inl hp.symm)) rfl ?_
    (congrArg Nat.succ h.interrupts) Pc.noConfusion (by simp [Pc.ctx, Call.got])
    (fun hp => by simp at hp) (fun _ => ?_)
    (h.pending_iff rfl hself hother hrests fun ht => .inl ⟨?_, by simp [Pc.ctx, Call.got]⟩)
    fun _ hnil => by simp [Pc.ctx, Call.got] at hnil
  · rw [State.depth, hself]
    change s.count + 1 = _
    rw [h.count]
    rcases hp with hp | hp
    · simp [hp, State.depth, Pc.ctx, Call.got, (hhost hp).1]
    · simp only [hp, State.depth, hctx]
      rfl
  · rcases hp with hp | hp
    · exact .inr ⟨(hhost hp).2, hlent (h.lent hp)⟩
    · exact (h.own t hp).imp_right (.imp_right hlent)
  · have hne : c.ctx ≠ [] := by
      rcases hp with hp | hp
      · exact absurd ht (Machine.ne_idle (hhost hp).2)
      · exact hctx ▸ (h.ctx t).2 hp
    rw [hctx]
    exact List.getLast?_cons_of_ne_nil hne

theorem Baton.not_gone (h : Baton m s (.code t)) {u : Task θ} (hu : s.thread u = t) :
    s.gone u = false := by
  cases u with
  | host0 => rfl
  | own v =>
    obtain rfl : v = t := hu
    refine Bool.eq_false_iff.2 fun hdead => ?_
    rcases (h.dead v hdead).2 with hpc | hpc <;> exact (h.ctx v).2 rfl (by rw [hpc]; rfl)

theorem Baton.pc_ne_parked (h : Baton m s (.code t)) (u : Task θ) : s.pc t ≠ u.parked :=
  fun hpc => (h.ctx t).2 rfl (hpc ▸ u.ctx_parked)

/-- The scheduler switches from the owner of the CPU to another task it picks; what can run is
    what could, and possibly a task whose thread is the owner. -/
theorem Baton.switch {next : Task θ} {r r' : Task θ → Bool} (h : Baton m s (.code t))
    (hcount : s.count = 1) (hq : q.ctx = []) (hcalls : q.calls = false)
    (hhost0 : q = .parkedHost0 → t = s.host0Tid ∧ m.host t = true)
    (hidle : t = m.idle → q = if s.idlePending then .idling else .parked)
    (hr : ∀ u, r u = true → s.runnable u = true ∨ s.thread u = t ∧ u ≠ .own m.idle ∧ q = u.parked)
    (hr' : ∀ u, r' u = true → r u = true ∧ (u = s.current → s.thread u = t ∧ q = u.parked))
    (hpicks : m.Picks { s with runnable := r } next) (hnext : next ≠ s.current) :
    Baton m ((m.switchTo { s with runnable := r' } next).goto t q) (m.handed s next) := by
  set s' := (m.switchTo { s with runnable := r' } next).goto t q
  have hself : s'.pc t = q := goto_pc_self _ _ _
  have hother : ∀ u, u ≠ t → s'.pc u = s.pc u := fun u hu =>
    (goto_pc_of_ne _ _ hu).trans (congrFun (m.switchTo_pc _ next) u)
  have hparked : ∀ u, r u = true → (u = s.current → s.thread u = t ∧ q = u.parked) →
      u ≠ .own m.idle ∧ s'.pc (s.thread u) = u.parked ∧ s.gone u = false := by
    intro u hu hcur
    by_cases hut : s.thread u = t
    · rcases hr u hu with hold | ⟨-, hne, rfl⟩
      · obtain ⟨hne, hown | ⟨hpc, -⟩⟩ := h.runnable u hold
        · rw [hut]
          exact ⟨hne, hself.trans (hcur hown.symm).2, h.not_gone hut⟩
        · exact absurd (hut ▸ hpc) (h.pc_ne_parked u)
      · rw [hut]
        exact ⟨hne, hself, h.not_gone hut⟩
    · obtain ⟨hne, hown | hpc⟩ := h.runnable u ((hr u hu).resolve_right fun hor => hut hor.1)
      · exact absurd (hcur hown.symm).1 hut
      · exact ⟨hne, (hother _ hut).trans hpc.1, hpc.2⟩
  refine h.hand (m.handed_switchTo s r' next hcount) hcount hself hother hq hcalls hhost0 hidle ?_
    fun u hu => ?_
  · rcases hpicks with ⟨-, hrun⟩ | ⟨rfl, -⟩
    · exact .inl (hparked next hrun fun heq => absurd heq hnext).2
    · have hut : m.idle ≠ t := by
        rintro rfl
        rcases h.own _ rfl with hown | ⟨hhost, -⟩
        · exact hnext hown.symm
        · exact Machine.ne_idle hhost rfl
      change s'.pc m.idle = .parked ∧ _ ∨ _
      rw [hother _ hut]
      rcases h.waits with hcur | hpc | hpc
      · exact absurd hcur.symm hnext
      · exact .inl ⟨hpc, Bool.eq_false_iff.2 fun hdead => (h.dead _ hdead).1 rfl⟩
      · exact .inr ⟨rfl, hpc⟩
  · have hu' : r' u = true :=
      (congrFun (m.switchTo_runnable { s with runnable := r' } next) u).symm.trans hu
    exact hparked u (hr' u hu').1 (hr' u hu').2

/-- A thread with the CPU calls the scheduler from a context that may be left at once: that of
    a host task, or of the idle task. -/
theorem Baton.schedJb {next : Task θ} {r : Task θ → Bool} (h : Baton m s (.code t))
    (hcount : s.count = 1) (hq : q.ctx = []) (hcalls : q.calls = false)
    (hhost0 : q = .parkedHost0 → t = s.host0Tid ∧ m.host t = true)
    (hidle : t = m.idle → q = if s.idlePending then .idling else .parked)
    (hr : ∀ u, r u = true → s.runnable u = true ∨
      u ≠ s.current ∧ s.thread u = t ∧ u ≠ .own m.idle ∧ q = u.parked)
    (hpicks : m.Picks { s with runnable := r } next) (hnext : next ≠ s.current)
    (hjb : m.hostTask s.current = true ∨ s.current = .own m.idle ∧ s.idlePending = true) :
    Baton m ((m.threadSchedJb { s with runnable := r } next).goto t q) (m.handed s next) := by
  have hr' : ∀ u, r u = true →
      s.runnable u = true ∨ s.thread u = t ∧ u ≠ .own m.idle ∧ q = u.parked :=
    fun u hu => (hr u hu).imp_right And.right
  by_cases hhost : m.hostTask s.current = true
  · rw [Machine.threadSchedJb, if_pos hhost]
    refine h.switch hcount hq hcalls hhost0 hidle hr' (fun u hu => ?_) hpicks hnext
    rw [Function.update_apply] at hu
    split_ifs at hu with heq
    exact ⟨hu, fun hcur => absurd hcur heq⟩
  · obtain ⟨hcur, hpending⟩ := hjb.resolve_left hhost
    rw [Machine.threadSchedJb, if_neg hhost, if_neg (by simp [hcur, hpending]), if_neg hnext]
    refine h.switch hcount hq hcalls hhost0 hidle hr' (fun u hu => ⟨hu, fun heq => ?_⟩) hpicks hnext
    rcases hr u hu with hold | ⟨hne, -⟩
    · exact absurd (heq.trans hcur) (h.runnable u hold).1
    · exact absurd heq hne

/-! ## The events -/

theorem Baton.gate (h : Baton m s p) {c : Call} {n : ℕ}
    (hpc : s.pc t = .enter c ∨ s.pc t = .retry c) : Baton m (s.gate t c n) p := by
  have hctx : (s.pc t).ctx = c.ctx := by rcases hpc with hpc | hpc <;> rw [hpc] <;> rfl
  have hq : (if maxThreads ≤ s.shutdownGate then Pc.leave c (-2) else .lock c).ctx = c.ctx := by
    split_ifs <;> rfl
  refine h.goto ⟨rfl, rfl, rfl, rfl, rfl, rfl, rfl⟩ rfl rfl rfl rfl rfl ?_ (by split_ifs <;> rfl)
    (hq.trans hctx.symm) fun hnil => h.caller t ?_ (by rwa [hctx, ← hq])
  · rcases hpc with hpc | hpc <;> rw [hpc] <;> rfl
  · rcases hpc with hpc | hpc <;> rw [hpc] <;> rfl

theorem State.locked_of_le {c : Call} (hgate : maxThreads ≤ s.shutdownGate) :
    s.locked t c = s.goto t (.leave c (-1)) := by
  simp [State.locked, State.cpuTryGetLock, hgate]

theorem State.locked_of_free {c : Call} (hgate : s.shutdownGate < maxThreads)
    (howner : s.owner = none ∨ s.owner = some t) :
    s.locked t c = (s.got t).goto t (.leave c 1) := by
  have htry : s.cpuTryGetLock t = (1, s.got t) := by
    rw [State.cpuTryGetLock, if_neg (Nat.not_le.2 hgate), if_neg]
    exact fun hne => howner.elim hne.1 hne.2
  simp only [State.locked, htry]
  exact if_neg one_ne_zero

theorem State.locked_of_busy {c : Call} (hgate : s.shutdownGate < maxThreads)
    (howner : s.owner ≠ none ∧ s.owner ≠ some t) : s.locked t c =
      match c.irq with
      | none => { s with sleepers := s.sleepers + 1 }.goto t (.sleep c)
      | some irq =>
        { s with pending := irq :: s.pending, irqsPending := true }.goto t (.leave c 0) := by
  have htry : s.cpuTryGetLock t = (0, s) := by
    rw [State.cpuTryGetLock, if_neg (Nat.not_le.2 hgate), if_pos howner]
  unfold State.locked
  rw [htry]
  cases c.irq <;> rfl

theorem Baton.locked (h : Baton m s p) {c : Call} (hpc : s.pc t = .lock c) :
    ∃ p', Baton m (s.locked t c) p' := by
  have hctx : c.ctx = (s.pc t).ctx := by rw [hpc]; rfl
  have hrests : (s.pc t).rests = false := by rw [hpc]; rfl
  have hhost : c.ctx = [] → m.host t = true :=
    fun hnil => h.caller t (by rw [hpc]; rfl) (hctx.symm.trans hnil)
  rcases Nat.lt_or_ge s.shutdownGate maxThreads with hgate | hgate
  · by_cases howner : s.owner ≠ none ∧ s.owner ≠ some t
    · refine ⟨p, ?_⟩
      rw [State.locked_of_busy hgate howner]
      cases c.irq with
      | none =>
        exact h.goto (q := .sleep c) ⟨rfl, rfl, rfl, rfl, rfl, rfl, rfl⟩ rfl rfl rfl rfl rfl hrests
          rfl hctx hhost
      | some irq =>
        exact h.goto (q := .leave c 0) ⟨rfl, rfl, rfl, rfl, rfl, rfl, rfl⟩ rfl rfl rfl rfl rfl
          hrests rfl hctx hhost
    · have hfree : s.owner = none ∨ s.owner = some t := by
        by_cases hnone : s.owner = none
        · exact .inl hnone
        · exact .inr (not_not.1 fun hsome => howner ⟨hnone, hsome⟩)
      rw [State.locked_of_free hgate hfree]
      exact ⟨_, h.take hpc hfree⟩
  · rw [State.locked_of_le hgate]
    exact ⟨p, h.goto (q := .leave c (-1)) ⟨rfl, rfl, rfl, rfl, rfl, rfl, rfl⟩ rfl rfl rfl rfl rfl
      hrests rfl hctx hhost⟩

theorem Baton.eq_code (h : Baton m s p) (hctx : (s.pc t).ctx ≠ []) : p = .code t :=
  (h.ctx t).1 hctx

/-- What `lkl_cpu_put` does, in a context, when there are no interrupts to run. -/
def Machine.given (m : Machine θ) (s : State θ) (t : θ) : List Bool → Option (Task θ) → State θ
  | [], some next => (m.threadSchedJb s next).goto t (m.rest t)
  | [], none => s.release.goto t (m.rest t)
  | b :: ctx, _ => s.less.goto t (.kernel (b :: ctx))

section Put

variable {b : Bool} {ctx : List Bool} (h : Baton m s (.code t)) (hpc : s.pc t = .kernel (b :: ctx))

include h hpc

theorem Baton.count_eq : s.count = ctx.length + 1 := by
  rw [h.count, State.depth, hpc]
  rfl

/-- A call that is in no interrupt, and got the CPU first, is all there is to be in one. -/
theorem Baton.not_inInterrupt (hctx : ctx = []) (hlevel : s.level = 0) :
    s.inInterrupt = false := by
  subst hctx
  have hlength : s.interrupts.length = 1 := h.interrupts.trans (h.count_eq hpc)
  obtain ⟨n, hn⟩ := List.length_eq_one_iff.1 hlength
  obtain rfl : n = 0 := by simpa [State.level, hn] using hlevel
  simp [State.inInterrupt, hn]

theorem Baton.put_eq (resched : Option (Task θ)) (hlevel : s.level = 0) :
    m.lklCpuPut s t ctx resched =
      if s.irqsPending ∧ s.irqsEnabled then
        { s with irqsPending := false }.goto t (.runIrqs ctx)
      else m.given s t ctx resched := by
  have hcount := h.count_eq hpc
  have howner : s.owner = some t := h.owner
  have hbug : ¬(s.count = 0 ∨ s.owner ≠ some t) := by simp [hcount, howner]
  unfold Machine.lklCpuPut
  rw [if_neg hbug]
  refine if_congr Iff.rfl rfl ?_
  cases ctx with
  | nil =>
    have hinterrupt := h.not_inInterrupt hpc rfl hlevel
    cases resched <;> simp [Machine.countDown, Machine.given, hcount, hinterrupt]
  | cons b' ctx' => cases resched <;> simp [Machine.countDown, Machine.given, hcount, Pc.ofCtx]

omit h hpc in
theorem Machine.rest_of_idle (hlast : m.host t = true ∨ t = m.idle ∧ b = true)
    (ht : t = m.idle) : m.rest t = .idling ∧ b = true := by
  subst ht
  exact ⟨if_pos rfl, (hlast.resolve_left fun hhost => Machine.ne_idle hhost rfl).2⟩

omit h hpc in
theorem Machine.rest_cases (m : Machine θ) (t : θ) : m.rest t = .idling ∨ m.rest t = .out := by
  unfold Machine.rest
  split_ifs
  exacts [.inl rfl, .inr rfl]

omit h hpc in
theorem Machine.rest_spec (m : Machine θ) (t : θ) :
    (m.rest t).ctx = [] ∧ (m.rest t).calls = false ∧ m.rest t ≠ .parkedHost0 := by
  rcases m.rest_cases t with hq | hq <;> rw [hq] <;> exact ⟨rfl, rfl, Pc.noConfusion⟩

theorem Baton.release (hlast : m.host t = true ∨ t = m.idle ∧ b = true) (hctx : ctx = []) :
    Baton m (s.release.goto t (m.rest t)) .free := by
  subst hctx
  have hrests : (s.pc t).rests = false := by rw [hpc]; rfl
  obtain ⟨hq, hcalls, hparked⟩ := m.rest_spec t
  have hother : ∀ u, u ≠ t → (s.release.goto t (m.rest t)).pc u = s.pc u := by
    intro u hu
    rw [goto_pc_of_ne _ _ hu, State.release]
    split_ifs <;> rfl
  have hs : Same s (s.release.goto t (m.rest t)) := by
    unfold State.release
    split_ifs <;> exact ⟨rfl, rfl, rfl, rfl, rfl, rfl, rfl⟩
  have hpending : (s.release.goto t (m.rest t)).idlePending = s.idlePending := by
    unfold State.release
    split_ifs <;> rfl
  have hinterrupts : (s.release.goto t (m.rest t)).interrupts = s.interrupts.tail := by
    unfold State.release
    split_ifs <;> rfl
  have hidle := Machine.rest_of_idle hlast
  refine h.shift .free hs (goto_pc_self _ _ _) hother hrests (.inr (.inr ⟨rfl, rfl⟩)) rfl rfl ?_
    hparked (by simp [hq]) (fun _ => ?_) (fun hp => by simp at hp)
    (h.pending_iff hpending (goto_pc_self _ _ _) hother hrests fun ht => .inr ⟨(hidle ht).1, ?_⟩)
    fun hcalls' => Bool.noConfusion (hcalls.symm.trans hcalls')
  · rw [hinterrupts, List.length_tail, h.interrupts, h.count_eq hpc]
    rfl
  · rcases h.own t rfl with hcur | ⟨-, hlent⟩
    · rcases hlast with hhost | ⟨ht, -⟩
      · exact .inl (by rw [hs.current, hcur, Machine.hostTask, hhost])
      · refine .inr ⟨hs.current.trans (hcur.trans (congrArg Task.own ht)), ?_⟩
        rw [← ht, goto_pc_self, (hidle ht).1]
    · exact hlent.of_goes hs.current hother hrests
  · rw [hpc, (hidle ht).2]
    rfl

theorem Baton.putResched {next : Task θ} (hlast : m.host t = true ∨ t = m.idle ∧ b = true)
    (hctx : ctx = []) (hpicks : m.Picks s next) (hnext : next ≠ s.current) :
    Baton m ((m.threadSchedJb s next).goto t (m.rest t)) (m.handed s next) := by
  subst hctx
  obtain ⟨hq, hcalls, hparked⟩ := m.rest_spec t
  have hpending : t = m.idle → s.idlePending = true := fun ht =>
    h.idlePending.2 (.inr (by rw [← ht, hpc, (Machine.rest_of_idle hlast ht).2]; rfl))
  refine h.schedJb (h.count_eq hpc) hq hcalls (absurd · hparked) (fun ht => ?_)
    (fun u hu => .inl hu) hpicks hnext ?_
  · rw [(Machine.rest_of_idle hlast ht).1, hpending ht]
    rfl
  · rcases h.own t rfl with hcur | ⟨-, hhost | ⟨hcur, hidling⟩⟩
    · rw [hcur]
      exact hlast.imp_right fun ⟨ht, _⟩ => ⟨congrArg Task.own ht, hpending ht⟩
    · exact .inl hhost
    · exact .inr ⟨hcur, h.idlePending.2 (.inl hidling)⟩

theorem Baton.countDown {b' : Bool} {ctx' : List Bool} (hctx : ctx = b' :: ctx') :
    Baton m (s.less.goto t (.kernel (b' :: ctx'))) (.code t) := by
  subst hctx
  have hrests : (s.pc t).rests = false := by rw [hpc]; rfl
  have hother : ∀ u, u ≠ t → (s.less.goto t (.kernel (b' :: ctx'))).pc u = s.pc u :=
    fun u hu => goto_pc_of_ne _ _ hu
  have hcount := h.count_eq hpc
  refine h.shift (.code t) ⟨rfl, rfl, rfl, rfl, rfl, rfl, rfl⟩ (goto_pc_self _ _ _) hother hrests
    (.inl rfl) h.owner ?_ ?_ Pc.noConfusion (by simp [Pc.ctx]) (fun hp => by simp at hp)
    (fun _ => (h.own t rfl).imp_right (.imp_right (·.of_goes rfl hother hrests)))
    (h.pending_iff rfl (goto_pc_self _ _ _) hother hrests fun _ => .inl ⟨?_, by simp [Pc.ctx]⟩)
    fun hcalls => Bool.noConfusion hcalls
  · rw [State.depth, goto_pc_self]
    change s.count - 1 = _
    rw [hcount]
    rfl
  · change s.interrupts.tail.length = s.count - 1
    rw [List.length_tail, h.interrupts]
  · rw [hpc]
    exact (List.getLast?_cons_cons (l := ctx')).symm

theorem Baton.put (resched : Option (Task θ)) (hlevel : s.level = 0)
    (hlast : ctx = [] → m.host t = true ∨ t = m.idle ∧ b = true)
    (hpicks : ∀ next ∈ resched, m.Picks s next) (horderly : ctx = [] → resched ≠ some s.current) :
    ∃ p', Baton m (m.lklCpuPut s t ctx resched) p' := by
  have hrests : (s.pc t).rests = false := by rw [hpc]; rfl
  rw [h.put_eq hpc resched hlevel]
  split_ifs with hirqs
  · refine ⟨_, h.move (q := .runIrqs ctx) ⟨rfl, rfl, rfl, rfl, rfl, rfl, rfl⟩ rfl rfl rfl rfl
      (goto_pc_self _ _ _) (fun u hu => goto_pc_of_ne _ _ hu) hrests rfl (by rw [hpc]; rfl)
      (fun ht => ?_) fun hnil => by simp [Pc.ctx] at hnil⟩
    rw [hpc]
    cases ctx with
    | nil => rw [(Machine.rest_of_idle (hlast rfl) ht).2]; rfl
    | cons b' ctx' => simp [Pc.ctx]
  · cases ctx with
    | nil =>
      cases resched with
      | none => exact ⟨_, h.release hpc (hlast rfl) rfl⟩
      | some next =>
        exact ⟨_, h.putResched hpc (hlast rfl) rfl (hpicks next rfl)
          fun heq => horderly rfl (congrArg some heq)⟩
    | cons b' ctx' => exact ⟨_, h.countDown hpc rfl⟩

end Put

/-- A thread in a task that is not the current one switches to it: what can run is what could,
    and the task. -/
theorem Baton.jump (task : Task θ) {next : Task θ} (h : Baton m s (.code t))
    (hpc : s.pc t = .kernel [false]) (hhost : m.host t = true) (htask : s.thread task = t)
    (hcur : s.current ≠ task) (hpicks : m.Picks (s.setRunnable task true) next) :
    Baton m ((m.threadSchedJb (s.setRunnable task true) next).goto t task.parked)
      (m.handed s next) := by
  have hidle : t ≠ m.idle := Machine.ne_idle hhost
  have hne : task ≠ .own m.idle := by
    rintro rfl
    exact hidle htask.symm
  have hnext : next ≠ s.current := by
    rcases hpicks with ⟨hne, -⟩ | ⟨-, hnone⟩
    · exact hne
    · exact absurd (hnone task (by simp [State.setRunnable])).symm hcur
  refine h.schedJb (h.count_eq hpc) task.ctx_parked task.calls_parked (fun hq => ?_)
    (fun ht => absurd ht hidle) (fun u hu => ?_) hpicks hnext ?_
  · cases task with
    | host0 => exact ⟨htask.symm, hhost⟩
    | own u => exact Pc.noConfusion hq
  · rw [Function.update_apply] at hu
    split_ifs at hu with heq
    · subst heq
      exact .inr ⟨Ne.symm hcur, htask, hne, rfl⟩
    · exact .inl hu
  · rcases h.own t rfl with heq | ⟨-, hlent | ⟨hidle, hidling⟩⟩
    · exact .inl (heq ▸ hhost)
    · exact .inl hlent
    · exact .inr ⟨hidle, h.idlePending.2 (.inl hidling)⟩

theorem Machine.switchToHostTask_own {next : Task θ} (hcur : s.current ≠ .own t) :
    m.switchToHostTask s t (.own t) next =
      (m.threadSchedJb (s.setRunnable (.own t) true) next).goto t .parked := by
  rw [Machine.switchToHostTask, if_neg hcur, if_neg (by simp)]
  rfl

theorem Machine.switchToHostTask_host0 {next : Task θ} (hcur : s.current ≠ .host0) :
    m.switchToHostTask s t .host0 next =
      (m.threadSchedJb ({ s with host0Tid := t }.setRunnable .host0 true) next).goto t
        .parkedHost0 := by
  rw [Machine.switchToHostTask, if_neg hcur, if_pos rfl]
  rfl

/-- A thread goes on in its task, or calls the scheduler and waits for it. -/
theorem Machine.switchToHostTask_cases (m : Machine θ) (s : State θ) (t : θ)
    (task next : Task θ) : m.switchToHostTask s t task next = s ∨
      ∃ tid r, m.switchToHostTask s t task next =
        (m.threadSchedJb { s with host0Tid := tid, runnable := r } next).goto t task.parked := by
  unfold Machine.switchToHostTask
  split_ifs
  · exact .inl rfl
  · exact .inr ⟨t, _, rfl⟩
  · exact .inr ⟨s.host0Tid, _, rfl⟩

theorem Baton.switchToHostTask {next : Task θ} (h : Baton m s (.code t))
    (hpc : s.pc t = .kernel [false]) (hhost : m.host t = true)
    (hpicks : s.current ≠ .own t → m.Picks (s.setRunnable (.own t) true) next) :
    ∃ p', Baton m (m.switchToHostTask s t (.own t) next) p' := by
  by_cases hcur : s.current = .own t
  · rw [Machine.switchToHostTask, if_pos hcur]
    exact ⟨_, h⟩
  · rw [Machine.switchToHostTask_own hcur]
    exact ⟨_, h.jump (.own t) hpc hhost rfl hcur (hpicks hcur)⟩

/-- When nobody waits at the semaphore of `host0`, it may get another thread. -/
theorem Baton.setHost0Tid (h : Baton m s (.code t)) (hcur : s.current ≠ .host0)
    (hparked : ¬s.Parked .host0) (u : θ) : Baton m { s with host0Tid := u } (.code t) := by
  refine { h with sched := fun v hv => ?_, runnable := fun v hv => ?_, host0 := fun v hv => ?_ }
  · simp at hv
  · obtain ⟨hne, hor⟩ := h.runnable v hv
    cases v with
    | host0 => exact absurd ⟨_, (hor.resolve_left hcur).1⟩ hparked
    | own w => exact ⟨hne, hor⟩
  · exact absurd ⟨v, hv⟩ hparked

theorem Baton.newHostTask {next : Task θ} (h : Baton m s (.code t))
    (hpc : s.pc t = .kernel [false]) (hhost : m.host t = true)
    (hparked : s.current = .host0 ∨ ¬s.Parked .host0)
    (hpicks : s.current ≠ .host0 → m.Picks (s.setRunnable .host0 true) next) :
    ∃ p', Baton m (m.switchToHostTask s t .host0 next) p' := by
  by_cases hcur : s.current = .host0
  · rw [Machine.switchToHostTask, if_pos hcur]
    exact ⟨_, h⟩
  · have h' := h.setHost0Tid hcur (hparked.resolve_left hcur) t
    rw [Machine.switchToHostTask_host0 hcur]
    exact ⟨_, h'.jump .host0 hpc hhost rfl hcur (hpicks hcur)⟩

theorem Baton.schedule {next : Task θ} {b : Bool} (h : Baton m s (.code t))
    (hpc : s.pc t = .kernel [false])
    (hcur : s.current = .own t ∨ s.current = .host0 ∧ m.host t = true)
    (htid : s.current = .host0 → s.host0Tid = t) (hb : b = true → t ≠ m.idle)
    (hpicks : next = s.current ∨ m.Picks (s.setRunnable s.current b) next) :
    ∃ p', Baton m (m.schedule s t b next) p' := by
  have hthread : s.thread s.current = t := by
    rcases hcur with hcur | ⟨hcur, -⟩
    · rw [hcur]
      rfl
    · rw [hcur]
      exact htid hcur
  unfold Machine.schedule
  split_ifs with hnext
  · exact ⟨_, h⟩
  · refine ⟨_, h.switch (h.count_eq hpc) s.current.ctx_parked s.current.calls_parked (fun hq => ?_)
      (fun ht => ?_) (fun u hu => ?_) (fun u hu => ⟨hu, ?_⟩) (hpicks.resolve_left hnext) hnext⟩
    · rcases hcur with hcur | ⟨hcur, hhost⟩
      · rw [hcur] at hq
        exact Pc.noConfusion hq
      · exact ⟨(htid hcur).symm, hhost⟩
    · have hpending : s.idlePending = false := by
        rw [Bool.eq_false_iff, ne_eq, h.idlePending, ← ht, hpc]
        simp [Pc.ctx]
      rcases hcur with hcur | ⟨-, hhost⟩
      · rw [hpending, hcur]
        rfl
      · exact absurd ht (Machine.ne_idle hhost)
    · rw [Function.update_apply] at hu
      split_ifs at hu with heq
      · subst heq
        refine .inr ⟨hthread, fun hidle => hb hu ?_, rfl⟩
        rw [← hthread, hidle]
        rfl
      · exact .inl hu
    · rintro rfl
      exact ⟨hthread, rfl⟩

theorem Baton.reboot {next : Task θ} (h : Baton m s (.code t)) (hpc : s.pc t = .kernel [false])
    (hcur : s.current = .own t) (hhost : m.host t = true) (hpicks : m.Picks s next) :
    Baton m ((m.threadSchedJb s next).goto t .out) (m.handed s next) := by
  have hidle : t ≠ m.idle := Machine.ne_idle hhost
  have hnext : next ≠ s.current := by
    rcases hpicks with ⟨hne, -⟩ | ⟨rfl, -⟩
    · exact hne
    · rw [hcur]
      exact fun heq => hidle (Task.own.inj heq).symm
  refine h.schedJb (h.count_eq hpc) rfl rfl Pc.noConfusion (fun ht => absurd ht hidle)
    (fun u hu => .inl hu) hpicks hnext (.inl ?_)
  rw [hcur]
  exact hhost

theorem Baton.archCpuIdle (h : Baton m s (.code m.idle)) (hpc : s.pc m.idle = .kernel [false]) :
    Baton m (m.archCpuIdle s) (.code m.idle) := by
  have hrests : (s.pc m.idle).rests = false := by rw [hpc]; rfl
  unfold Machine.archCpuIdle
  split_ifs with hgate
  · exact h.goto (q := .waking) ⟨rfl, rfl, rfl, rfl, rfl, rfl, rfl⟩ rfl rfl rfl rfl rfl hrests rfl
      (by rw [hpc]; rfl) fun hnil => by simp [Pc.ctx] at hnil
  · set s' := { s.archLocalIrqRestore true with idlePending := true }.goto m.idle
      (.kernel [true])
    have hself : s'.pc m.idle = .kernel [true] := goto_pc_self _ _ _
    have hother : ∀ u, u ≠ m.idle → s'.pc u = s.pc u := fun u hu => goto_pc_of_ne _ _ hu
    refine h.shift (.code m.idle) ⟨rfl, rfl, rfl, rfl, rfl, rfl, rfl⟩ hself hother hrests (.inl rfl)
      h.owner ?_ h.interrupts Pc.noConfusion
      (by simp [Pc.ctx]) (fun hp => by simp at hp)
      (fun _ => (h.own _ rfl).imp_right (.imp_right (·.of_goes rfl hother hrests)))
      (iff_of_true rfl (.inr (by rw [hself]; rfl))) fun hcalls => Bool.noConfusion hcalls
    rw [State.depth, hself]
    exact h.count_eq hpc

theorem Baton.stay (h : Baton m s p) (hs : Same s s') (howner : s'.owner = s.owner)
    (hpending : s'.idlePending = s.idlePending) (hcount : s'.count = s.count)
    (hinterrupts : s'.interrupts.length = s.interrupts.length) (hpc : s'.pc = s.pc)
    (ht : (s.pc t).ctx ≠ []) : Baton m s' p := by
  have hrests : (s.pc t).rests = false := by
    cases hpc : s.pc t <;> first | rfl | exact absurd (by rw [hpc]; rfl) ht
  exact h.goto (q := s.pc t) hs howner hpending hcount hinterrupts
    (by rw [hpc, Function.update_eq_self]) hrests hrests rfl fun hnil => absurd hnil ht

theorem Pc.ctx_ofCtx (ctx : List Bool) : (Pc.ofCtx ctx).ctx = ctx := by
  cases ctx <;> rfl

theorem Pc.rests_ofCtx (ctx : List Bool) : (Pc.ofCtx ctx).rests = false := by
  cases ctx <;> rfl

/-- Every event of an orderly run leaves the CPU in some place. -/
theorem Baton.step (h : Baton m s p) {l : Event θ} (hl : m.CanDo s l) (horderly : s.Orderly l) :
    ∃ p', Baton m (m.next s l) p' := by
  cases l with
  | call t irq ctx =>
    obtain ⟨hpc, hhost⟩ := hl
    exact ⟨p, h.goto (q := .enter ⟨irq, ctx⟩) ⟨rfl, rfl, rfl, rfl, rfl, rfl, rfl⟩ rfl rfl rfl rfl
      rfl (by rw [hpc, Pc.rests_ofCtx]) rfl (by rw [hpc, Pc.ctx_ofCtx]; rfl) hhost⟩
  | enter t c => exact ⟨p, h.gate (.inl hl)⟩
  | retry t c => exact ⟨p, h.gate (.inr hl)⟩
  | lock t c => exact h.locked hl
  | down t c =>
    have hctx : c.ctx = (s.pc t).ctx := by rw [hl.1]; rfl
    exact ⟨p, h.goto (q := .retry c) ⟨rfl, rfl, rfl, rfl, rfl, rfl, rfl⟩ rfl rfl rfl rfl rfl
      (by rw [hl.1]; rfl) rfl hctx
      fun hnil => h.caller t (by rw [hl.1]; rfl) (hctx.symm.trans hnil)⟩
  | leave t c ret =>
    have hl : s.pc t = .leave c ret := hl
    have hctx : (Pc.ofCtx (c.got ret)).ctx = (s.pc t).ctx := by rw [hl, Pc.ctx_ofCtx]; rfl
    exact ⟨p, h.goto ⟨rfl, rfl, rfl, rfl, rfl, rfl, rfl⟩ rfl rfl rfl rfl rfl (by rw [hl]; rfl)
      (Pc.rests_ofCtx _) hctx fun hnil => h.caller t (by rw [hl]; rfl) (hctx.symm.trans hnil)⟩
  | put t b ctx resched =>
    obtain ⟨hpc, hlevel, hlast, hpicks⟩ := hl
    obtain rfl := h.eq_code (by rw [hpc]; exact List.cons_ne_nil b ctx)
    refine h.put hpc resched hlevel hlast hpicks ?_
    rintro rfl
    exact horderly
  | runIrqs t ctx =>
    have hl : s.pc t = .runIrqs ctx := hl
    exact ⟨p, h.goto (q := .kernel (true :: ctx)) ⟨rfl, rfl, rfl, rfl, rfl, rfl, rfl⟩ rfl rfl rfl
      rfl rfl (by rw [hl]; rfl) rfl (by rw [hl]; rfl) fun hnil => by simp [Pc.ctx] at hnil⟩
  | irqEnter t b ctx =>
    have hl : s.pc t = .kernel (b :: ctx) := hl
    exact ⟨p, h.stay (t := t) ⟨rfl, rfl, rfl, rfl, rfl, rfl, rfl⟩ rfl rfl rfl
      (List.length_modifyHead ..) rfl (by rw [hl]; exact List.cons_ne_nil b ctx)⟩
  | irqExit t b ctx =>
    exact ⟨p, h.stay (t := t) ⟨rfl, rfl, rfl, rfl, rfl, rfl, rfl⟩ rfl rfl rfl
      (List.length_modifyHead ..) rfl (by rw [hl.1]; exact List.cons_ne_nil b ctx)⟩
  | irqRestore t b ctx enabled =>
    have hl : s.pc t = .kernel (b :: ctx) := hl
    exact ⟨p, h.stay (t := t) ⟨rfl, rfl, rfl, rfl, rfl, rfl, rfl⟩ rfl rfl rfl rfl rfl
      (by rw [hl]; exact List.cons_ne_nil b ctx)⟩
  | newHostTask t next =>
    obtain ⟨hpc, -, hhost, -, hpicks⟩ := hl
    obtain rfl := h.eq_code (by rw [hpc]; exact List.cons_ne_nil false [])
    exact h.newHostTask hpc hhost horderly hpicks
  | makeTask t =>
    exact ⟨p, h.stay (t := t) ⟨rfl, rfl, rfl, rfl, rfl, rfl, rfl⟩ rfl rfl rfl rfl rfl
      (by rw [hl.1]; exact List.cons_ne_nil false [])⟩
  | switchToHostTask t next =>
    obtain ⟨hpc, -, hhost, -, hpicks⟩ := hl
    obtain rfl := h.eq_code (by rw [hpc]; exact List.cons_ne_nil false [])
    exact h.switchToHostTask hpc hhost hpicks
  | schedule t b next =>
    obtain ⟨hpc, -, hcur, hb, hpicks⟩ := hl
    obtain rfl := h.eq_code (by rw [hpc]; exact List.cons_ne_nil false [])
    exact h.schedule hpc (hcur.imp_right fun ⟨hcur, hhost, _⟩ => ⟨hcur, hhost⟩) horderly hb hpicks
  | resume t task =>
    obtain ⟨hpc, hsem, htask⟩ := hl
    cases hgone : s.gone task with
    | false => exact ⟨_, h.resume hpc hsem hgone htask⟩
    | true =>
      rcases htask with rfl | rfl
      · exact ⟨_, h.exit hpc hgone⟩
      · exact Bool.noConfusion hgone
  | wake t b ctx u => exact ⟨_, h.wake hl.2.1 hl.2.2.1 hl.2.2.2⟩
  | fork t u => exact ⟨_, h.fork hl.2.1 hl.2.2.1 hl.2.2.2.2⟩
  | kill t u => exact ⟨_, h.kill hl.2.1 hl.2.2.2.1 hl.2.2.2.2.1 hl.2.2.2.2.2.2⟩
  | shutdown t =>
    exact ⟨p, h.stay (t := t) ⟨rfl, rfl, rfl, rfl, rfl, rfl, rfl⟩ rfl rfl rfl rfl rfl
      (by rw [hl.1]; exact List.cons_ne_nil false [])⟩
  | reboot t next =>
    obtain ⟨hpc, -, hcur, hhost, hpicks⟩ := hl
    obtain rfl := h.eq_code (by rw [hpc]; exact List.cons_ne_nil false [])
    exact ⟨_, h.reboot hpc hcur hhost hpicks⟩
  | idle =>
    obtain rfl := h.eq_code (t := m.idle) (by rw [hl.1]; exact List.cons_ne_nil false [])
    exact ⟨_, h.archCpuIdle hl.1⟩
  | resumeIdle => exact ⟨_, h.resumeIdle hl.2⟩
  | wakeAll =>
    have hl : s.pc m.idle = .waking := hl
    exact ⟨p, h.goto (q := .spinning) ⟨rfl, rfl, rfl, rfl, rfl, rfl, rfl⟩ rfl rfl rfl rfl rfl
      (by rw [hl]; rfl) rfl (by rw [hl]; rfl) fun hnil => by simp [Pc.ctx] at hnil⟩
  | cleanup =>
    exact ⟨p, h.goto (q := .halted) ⟨rfl, rfl, rfl, rfl, rfl, rfl, rfl⟩ rfl rfl rfl rfl rfl
      (by rw [hl.1]; rfl) rfl (by rw [hl.1]; rfl) fun hnil => by simp [Pc.ctx] at hnil⟩

theorem baton_init (m : Machine θ) (starter : θ) : Baton m (m.init starter) .free := by
  have hpc : ∀ t, (m.init starter).pc t = .parked ∨ (m.init starter).pc t = .out := by
    intro t
    simp only [Machine.init]
    split_ifs
    exacts [.inl rfl, .inr rfl]
  have hctx : ∀ t, ((m.init starter).pc t).ctx = [] := fun t => by
    rcases hpc t with hq | hq <;> rw [hq] <;> rfl
  have hidle : (m.init starter).pc m.idle = .parked := if_pos rfl
  refine
    { bug := rfl
      owner := rfl
      count := rfl
      interrupts := rfl
      ctx := fun t => iff_of_false (not_not.2 (hctx t)) (by simp)
      schedSem := fun u _ => (if_neg (by simp)).symm
      idleSem := (if_neg (by simp)).symm
      sched := fun u hp => by simp at hp
      idle := fun hp => by simp at hp
      idlePending := iff_of_false Bool.noConfusion (by rw [hidle]; simp [Pc.ctx])
      lent := fun _ => .inl rfl
      own := fun t hp => by simp at hp
      runnable := fun u hu => Bool.noConfusion hu
      host0 := fun t ht => ?_
      waits := .inr (.inl hidle)
      dead := fun t ht => Bool.noConfusion ht
      caller := fun t hcalls => ?_ }
  · rcases hpc t with hq | hq <;> exact Pc.noConfusion (hq.symm.trans ht)
  · rcases hpc t with hq | hq <;> rw [hq] at hcalls <;> exact Bool.noConfusion hcalls

theorem exists_baton {starter : θ} (hs : m.system.Reachable (m.init starter) s) :
    ∃ p, Baton m s p :=
  hs.invariant (P := fun s => ∃ p, Baton m s p) ⟨.free, baton_init m starter⟩
    fun _ _ ⟨_, h⟩ hl => h.step hl.1.2 hl.2

/-- A thread has the CPU: it is in a call of the kernel, that has not given it back yet. -/
def State.HasCpu (s : State θ) (t : θ) : Prop := (s.pc t).ctx ≠ []

/-- In orderly runs, at most one thread has the CPU, as often as it counts, and there are no bugs:
    no CPU is put that was not got, or handed over in an interrupt, and the idle task is idle when
    another thread runs in its context. -/
theorem mutual_exclusion {starter : θ}
    (hs : (m.kernel.restrict State.Orderly).Reachable (m.init starter) s) :
    s.bug = false ∧ ∀ t, s.HasCpu t →
      s.owner = some t ∧ s.count = (s.pc t).ctx.length ∧ ∀ u, s.HasCpu u → u = t := by
  obtain ⟨p, h⟩ := exists_baton hs
  refine ⟨h.bug, fun t ht => ?_⟩
  obtain rfl := h.eq_code ht
  exact ⟨h.owner, h.count, fun u hu => (Place.code.inj (h.eq_code hu)).symm⟩

/-- The threads of a kernel with two host threads. -/
inductive SampleThread
  | idle
  | first
  | second
  deriving DecidableEq

instance : Fintype SampleThread :=
  ⟨{.idle, .first, .second}, fun t => by cases t <;> simp⟩

instance : Fintype (Task SampleThread) :=
  ⟨{.host0, .own .idle, .own .first, .own .second}, fun u => by
    rcases u with _ | (_ | _ | _) <;> simp⟩

def sampleMachine : Machine SampleThread where
  idle := .idle
  host t := t ≠ .idle
  host_idle := rfl

/-- A thread gets the CPU when it is free. -/
def sampleGet (t : SampleThread) : List (Event SampleThread) :=
  [.call t none [], .enter t ⟨none, []⟩, .lock t ⟨none, []⟩, .leave t ⟨none, []⟩ 1]

theorem isRun_sampleGet :
    sampleMachine.system.IsRun (sampleMachine.init .first) (sampleGet .second) :=
  ⟨⟨⟨rfl, rfl, fun _ => rfl⟩, trivial⟩, ⟨⟨rfl, rfl⟩, trivial⟩, ⟨⟨rfl, rfl⟩, trivial⟩,
    ⟨⟨rfl, rfl⟩, trivial⟩, trivial⟩

theorem mutual_exclusion_sample :
    let s := sampleMachine.system.run (sampleMachine.init .first) (sampleGet .second)
    s.HasCpu .second ∧ s.bug = false ∧ ∀ t, s.HasCpu t →
      s.owner = some t ∧ s.count = (s.pc t).ctx.length ∧ ∀ u, s.HasCpu u → u = t :=
  ⟨List.cons_ne_nil false [], mutual_exclusion (System.reachable_run isRun_sampleGet)⟩

/-- In orderly runs, a CPU with an owner that does not have it is on its way to it: the owner is
    waiting, and has been woken. -/
theorem owner_woken {starter : θ}
    (hs : (m.kernel.restrict State.Orderly).Reachable (m.init starter) s)
    (howner : s.owner = some t) (ht : ¬s.HasCpu t) :
    ∃ l, m.system.Enabled s l ∧ (m.next s l).pc t = .kernel [false] := by
  obtain ⟨p, h⟩ := exists_baton hs
  rw [h.owner] at howner
  cases p with
  | free => simp [Machine.ownerOf] at howner
  | code u =>
    obtain rfl : u = t := by simpa [Machine.ownerOf] using howner
    exact absurd ((h.ctx u).2 rfl) ht
  | sched u =>
    obtain rfl : s.thread u = t := by simpa [Machine.ownerOf] using howner
    obtain ⟨hpc, hgone, -⟩ := h.sched u rfl
    refine ⟨.resume (s.thread u) u, ⟨⟨h.bug, hpc, ?_, ?_⟩, trivial⟩, ?_⟩
    · rw [h.schedSem u hgone, if_pos rfl]
      exact Nat.one_pos
    · cases u
      exacts [.inr rfl, .inl rfl]
    · simp [Machine.next, State.resume, hgone]
  | idle =>
    obtain rfl : m.idle = t := by simpa [Machine.ownerOf] using howner
    refine ⟨.resumeIdle, ⟨⟨h.bug, (h.idle rfl).1, ?_⟩, trivial⟩, goto_pc_self _ _ _⟩
    rw [h.idleSem, if_pos rfl]
    exact Nat.one_pos

/-- A thread gets the CPU, makes its task, as `host0`, and switches to it. -/
def sampleSwitch (t : SampleThread) : List (Event SampleThread) :=
  sampleGet t ++ [.newHostTask t .host0, .makeTask t, .switchToHostTask t (.own t)]

theorem isRun_sampleSwitch {t : SampleThread} (ht : t ≠ .idle) :
    sampleMachine.system.IsRun (sampleMachine.init .first) (sampleSwitch t) := by
  cases t with
  | idle => exact absurd rfl ht
  | first | second =>
    exact ⟨⟨⟨rfl, rfl, fun _ => rfl⟩, trivial⟩, ⟨⟨rfl, rfl⟩, trivial⟩, ⟨⟨rfl, rfl⟩, trivial⟩,
      ⟨⟨rfl, rfl⟩, trivial⟩, ⟨⟨rfl, rfl, rfl, rfl, rfl, fun hne => absurd rfl hne⟩, .inl rfl⟩,
      ⟨⟨rfl, rfl, rfl, rfl, rfl, rfl⟩, trivial⟩,
      ⟨⟨rfl, rfl, rfl, rfl, rfl, fun _ => .inl ⟨by decide, rfl⟩⟩, trivial⟩, trivial⟩

theorem owner_woken_sample :
    let s := sampleMachine.system.run (sampleMachine.init .first) (sampleSwitch .second)
    ∃ l, sampleMachine.system.Enabled s l ∧ (sampleMachine.next s l).pc .second = .kernel [false] :=
  owner_woken (System.reachable_run (isRun_sampleSwitch (by decide))) rfl (not_not.2 rfl)

/-- A thread blocks as `host0`, which is recorded to have the thread that started the kernel. That
    one wakes it, gives the CPU back, and calls the kernel again. -/
def sampleBlocked : List (Event SampleThread) :=
  sampleGet .second ++ ([.schedule .second false (.own .idle), .resume .idle (.own .idle), .idle,
    .put .idle true [] none] ++ (sampleGet .first ++ ([.wake .first false [] .host0,
    .put .first false [] (some .host0), .resume .second .host0] ++ sampleGet .first)))

/-- In runs that are not orderly, two threads may have the CPU: the one that runs as `host0`, and
    the one it is recorded to have, which the CPU was handed over to. -/
theorem exists_two_with_cpu :
    ∃ s, sampleMachine.kernel.Reachable (sampleMachine.init .first) s ∧
      s.HasCpu .first ∧ s.HasCpu .second := by
  have hrun : sampleMachine.kernel.IsRun (sampleMachine.init .first) sampleBlocked :=
    ⟨⟨rfl, rfl, fun _ => rfl⟩, ⟨rfl, rfl⟩, ⟨rfl, rfl⟩, ⟨rfl, rfl⟩,
      ⟨rfl, rfl, rfl, .inr ⟨rfl, rfl, rfl⟩, Bool.noConfusion, .inr (.inr ⟨rfl, by decide⟩)⟩,
      ⟨rfl, rfl, by decide, .inl rfl⟩, ⟨rfl, rfl, rfl⟩,
      ⟨rfl, rfl, rfl, fun _ => .inr ⟨rfl, rfl⟩, fun _ hu => absurd hu (Option.not_mem_none _)⟩,
      ⟨rfl, rfl, fun _ => rfl⟩, ⟨rfl, rfl⟩, ⟨rfl, rfl⟩, ⟨rfl, rfl⟩,
      ⟨rfl, rfl, ⟨.second, rfl⟩, rfl, by decide⟩,
      ⟨rfl, rfl, rfl, fun _ => .inl rfl, fun u hu => by
        obtain rfl := Option.mem_some_iff.1 hu
        exact .inl ⟨by decide, rfl⟩⟩,
      ⟨rfl, rfl, by decide, .inr rfl⟩,
      ⟨rfl, rfl, fun _ => rfl⟩, ⟨rfl, rfl⟩, ⟨rfl, rfl⟩, ⟨rfl, rfl⟩, trivial⟩
  exact ⟨_, System.reachable_run hrun, List.cons_ne_nil false [], List.cons_ne_nil false []⟩

end Cpu

end NodeLkl
