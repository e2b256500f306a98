import NodeLkl.Base.Mailbox

/-!
# Halting the kernel

A thread running in LKL owns its only CPU. A block request is made by the thread
owning the CPU, which keeps it while its closure is run on the main loop
(`run_on_default_loop`, `NodeLkl.Base.Mailbox`), and then until JavaScript calls
its callback (`js_sem`, `NodeLkl.Loop.Requests`). The threads are those of the
kernel (`K`), and the worker, which runs the operations of the queue, each by
system calls, and then delivers its result through `run_on_default_loop`.

`haltKernelSync` blocks the main thread: it waits for the CPU, halts the kernel,
and closes the handle through which the main loop is signalled.

* `Safe`: the main thread does not wait for the CPU while its owner needs the main
  thread, and no thread needs the main loop once the handle is closed.
* `safe_of_orderly`: this holds in every run in which the kernel is halted when no
  operation is queued or running, and no block request is made, and none is made or
  added afterwards.
* `Deadlock.run`: otherwise, the two threads may wait for each other forever.
-/

namespace NodeLkl

namespace Halt

/-- Where a thread is: out of a native function, in one but out of LKL (the
    worker), waiting for the CPU, having it, making a block request, waiting for
    its callback, delivering a result (the worker). -/
inductive Pc
  | idle
  | working
  | waitCpu
  | running
  | requesting
  | waitJs
  | delivering
  deriving DecidableEq

/-- Where the main thread is: in its loop, in `haltKernel`, waiting for the CPU or
    having it, or in its loop after it. -/
inductive MainPc
  | loop
  | waitCpu
  | halting
  | closed
  deriving DecidableEq

/-- The owner of the CPU. -/
inductive Owner (T : Type*)
  | free
  | main
  | thread (t : T)

/-- The threads: those of the kernel, and the worker (`none`). -/
abbrev Thread (K : Type*) := Option K

structure State (K : Type*) where
  main : MainPc
  owner : Owner (Thread K)
  ops : ℕ
  pc : Thread K → Pc
  box : Mailbox (Thread K) Unit
  jsSem : Thread K → ℕ

variable {K : Type*}

/-- Initially, nothing is running. -/
def init : State K where
  main := .loop
  owner := .free
  ops := 0
  pc _ := .idle
  box := .init
  jsSem _ := 0

/-- The events. Operations are added and started; a thread enters LKL, gets the
    CPU, makes a block request (whose closure is run, and whose callback is called),
    releases the CPU; the worker delivers a result; the kernel is halted. -/
inductive Event (K : Type*)
  | addOperation
  | start
  | enter (t : Thread K)
  | acquire (t : Thread K)
  | request (t : Thread K)
  | box (e : Mailbox.Event (Thread K) Unit)
  | wait (t : Thread K)
  | callback (t : Thread K)
  | finish (t : Thread K)
  | release (t : Thread K)
  | refused (t : Thread K)
  | deliver
  | delivered
  | halt
  | haltAcquire
  | haltYield
  | close

/-- Where a thread is out of LKL. -/
def base : Thread K → Pc
  | none => .working
  | some _ => .idle

variable [DecidableEq K]

/-- The threads, and the main thread. The main loop runs closures, and callbacks,
    unless the main thread is in `haltKernel`, or the handle is closed. A thread
    entering LKL after it has been halted is refused the CPU. -/
def system (K : Type*) [DecidableEq K] : System (State K) (Event K) where
  Enabled s
    | .addOperation => s.main = .loop ∨ s.main = .closed
    | .start => (s.main = .loop ∨ s.main = .closed) ∧ 0 < s.ops ∧ s.pc none = .idle
    | .enter t => s.pc t = base t
    | .acquire t => s.pc t = .waitCpu ∧ s.owner = .free
    | .request t => s.pc t = .running ∧ s.owner = .thread t
    | .box e => e.Inner ∧ (Mailbox.system (Thread K) Unit).Enabled s.box e ∧
        (e.OfMain → s.main = .loop)
    | .wait t => s.pc t = .requesting ∧ s.box.pc t = .out
    -- the callback may be called before the thread waits for it
    | .callback t => s.main = .loop ∧ s.jsSem t = 0 ∧
        (s.pc t = .waitJs ∨ (s.pc t = .requesting ∧ s.box.passed t = s.box.ran t))
    | .finish t => s.pc t = .waitJs ∧ 0 < s.jsSem t
    | .release t => s.pc t = .running ∧ s.owner = .thread t
    | .refused t => s.pc t = .waitCpu ∧ s.main = .closed
    | .deliver => s.pc none = .working
    | .delivered => s.pc none = .delivering ∧ s.box.pc none = .out
    | .halt => s.main = .loop
    | .haltAcquire => s.main = .waitCpu ∧ s.owner = .free
    | .haltYield => s.main = .halting
    | .close => s.main = .halting
  next s
    | .addOperation => { s with ops := s.ops + 1 }
    | .start => { s with ops := s.ops - 1, pc := Function.update s.pc none .working }
    | .enter t => { s with pc := Function.update s.pc t .waitCpu }
    | .acquire t => { s with owner := .thread t, pc := Function.update s.pc t .running }
    | .request t => { s with
        pc := Function.update s.pc t .requesting
        box := (Mailbox.system (Thread K) Unit).next s.box (.enter t ()) }
    | .box e => { s with box := (Mailbox.system (Thread K) Unit).next s.box e }
    | .wait t => { s with pc := Function.update s.pc t .waitJs }
    | .callback t => { s with jsSem := Function.update s.jsSem t 1 }
    | .finish t => { s with
        pc := Function.update s.pc t .running
        jsSem := Function.update s.jsSem t 0 }
    | .release t => { s with owner := .free, pc := Function.update s.pc t (base t) }
    | .refused t => { s with pc := Function.update s.pc t (base t) }
    | .deliver => { s with
        pc := Function.update s.pc none .delivering
        box := (Mailbox.system (Thread K) Unit).next s.box (.enter none ()) }
    | .delivered => { s with pc := Function.update s.pc none .idle }
    | .halt => { s with main := .waitCpu }
    | .haltAcquire => { s with main := .halting, owner := .main }
    -- LKL schedules other threads while it shuts down
    | .haltYield => { s with main := .waitCpu, owner := .free }
    | .close => { s with main := .closed }

/-- The thread `t` needs the main thread: it is in `run_on_default_loop`, or waits
    for its callback. -/
def NeedsMain (s : State K) (t : Thread K) : Prop :=
  s.box.pc t ≠ .out ∨ (s.pc t = .waitJs ∧ s.jsSem t = 0)

/-- Halting strands no thread. -/
structure Safe (s : State K) : Prop where
  /-- The main thread does not wait for the CPU while its owner needs it. -/
  halting : s.main = .waitCpu → ∀ t, s.owner = .thread t → ¬NeedsMain s t
  /-- Once the handle is closed, no thread needs the main loop. -/
  closed : s.main = .closed → ∀ t, ¬NeedsMain s t

/-- No operation is queued or running, and no block request is made. -/
def Quiesced (s : State K) : Prop :=
  s.ops = 0 ∧ s.pc none = .idle ∧ ∀ t, s.pc t ≠ .requesting ∧ s.pc t ≠ .waitJs

/-- The kernel is halted when nothing is going on; no operation is added, and no
    block request is made, afterwards. -/
def Orderly (s : State K) : Event K → Prop
  | .halt => Quiesced s
  | .request _ => s.main = .loop
  | .addOperation => s.main = .loop
  | _ => True

/-! ## The invariant -/

variable {s : State K}

/-- A thread in `run_on_default_loop` is making a block request, or delivering a
    result. -/
structure Coupled (s : State K) : Prop where
  box : s.box.Inv
  call : ∀ t, s.box.pc t ≠ .out → s.pc t = .requesting ∨ (t = none ∧ s.pc t = .delivering)

omit [DecidableEq K] in
theorem coupled_init : Coupled (init : State K) := ⟨Mailbox.inv_init, fun _ h => absurd rfl h⟩

namespace Coupled

omit [DecidableEq K] in
theorem out_of_pc (h : Coupled s) {t : Thread K} (hr : s.pc t ≠ .requesting)
    (hd : s.pc t ≠ .delivering) : s.box.pc t = .out := by
  by_contra hout
  rcases h.call t hout with ht | ⟨-, ht⟩
  · exact hr ht
  · exact hd ht

/-- A thread which is not in `run_on_default_loop` moves. -/
theorem update {s' : State K} (h : Coupled s) {t : Thread K} {p : Pc} (ht : s.box.pc t = .out)
    (hbox : s'.box = s.box) (hpc : s'.pc = Function.update s.pc t p) : Coupled s' := by
  refine ⟨hbox ▸ h.box, fun u hu => ?_⟩
  rw [hbox] at hu
  have hut : u ≠ t := by
    rintro rfl
    exact hu ht
  simpa only [hpc, Function.update_of_ne hut] using h.call u hu

/-- A thread enters `run_on_default_loop`. -/
theorem enter (h : Coupled s) {t : Thread K} {p : Pc} (ht : s.box.pc t = .out)
    (hp : p = .requesting ∨ (t = none ∧ p = .delivering)) :
    Coupled { s with
      pc := Function.update s.pc t p
      box := (Mailbox.system (Thread K) Unit).next s.box (.enter t ()) } := by
  refine ⟨h.box.enter () ht, fun u hu => ?_⟩
  by_cases hut : u = t
  · subst hut
    simpa only [Function.update_self] using hp
  · have hu' : s.box.pc u ≠ .out := fun hout => hu ((Function.update_of_ne hut ..).trans hout)
    simpa only [Function.update_of_ne hut] using h.call u hu'

theorem next (h : Coupled s) {e : Event K} (he : (system K).Enabled s e) :
    Coupled ((system K).next s e) := by
  cases e with
  | start => exact h.update (h.out_of_pc (by simp [he.2.2]) (by simp [he.2.2])) rfl rfl
  | enter t =>
    have ht : s.pc t = base t := he
    refine h.update (h.out_of_pc ?_ ?_) rfl rfl <;> cases t <;> simp [ht, base]
  | acquire t => exact h.update (h.out_of_pc (by simp [he.1]) (by simp [he.1])) rfl rfl
  | request t => exact h.enter (h.out_of_pc (by simp [he.1]) (by simp [he.1])) (.inl rfl)
  | box e =>
    obtain ⟨hinner, he, -⟩ := he
    refine ⟨h.box.next he, fun u hu => h.call u fun hout => hu ?_⟩
    exact Mailbox.out_next hinner hout
  | wait t => exact h.update he.2 rfl rfl
  | finish t => exact h.update (h.out_of_pc (by simp [he.1]) (by simp [he.1])) rfl rfl
  | release t => exact h.update (h.out_of_pc (by simp [he.1]) (by simp [he.1])) rfl rfl
  | refused t => exact h.update (h.out_of_pc (by simp [he.1]) (by simp [he.1])) rfl rfl
  | deliver =>
    have ht : s.pc none = .working := he
    exact h.enter (h.out_of_pc (by simp [ht]) (by simp [ht])) (.inr ⟨rfl, rfl⟩)
  | delivered => exact h.update he.2 rfl rfl
  | _ => exact ⟨h.box, h.call⟩

end Coupled

/-- Once nothing is going on, threads move without needing the main thread. -/
theorem Quiesced.update {s' : State K} (h : Quiesced s) (t : Thread K) (p : Pc)
    (ht : s.pc t ≠ .idle ∨ t ≠ none) (hr : p ≠ .requesting) (hw : p ≠ .waitJs)
    (hops : s'.ops = s.ops) (hpc : s'.pc = Function.update s.pc t p) : Quiesced s' := by
  obtain ⟨hzero, hidle, hall⟩ := h
  have hne : none ≠ t := by
    rintro rfl
    exact ht.elim (fun hne => hne hidle) fun hne => hne rfl
  refine ⟨hops.trans hzero, by rw [hpc, Function.update_of_ne hne, hidle], fun u => ?_⟩
  by_cases hut : u = t
  · subst hut
    simpa only [hpc, Function.update_self] using ⟨hr, hw⟩
  · simpa only [hpc, Function.update_of_ne hut] using hall u

/-- Nothing goes on any more in an orderly run, once the kernel is being halted. -/
theorem Quiesced.next (h : Quiesced s) (hmain : s.main ≠ .loop) {e : Event K}
    (he : (system K).Enabled s e) (ho : Orderly s e) : Quiesced ((system K).next s e) := by
  obtain ⟨hzero, hidle, hall⟩ := id h
  have hbase : ∀ t : Thread K, base t ≠ .requesting ∧ base t ≠ .waitJs := by
    rintro (_ | k) <;> simp [base]
  cases e with
  | addOperation => exact absurd ho hmain
  | request t => exact absurd ho hmain
  | start => exact absurd hzero (Nat.ne_of_gt he.2.1)
  | enter t =>
    have ht : s.pc t = base t := he
    refine h.update t .waitCpu ?_ nofun nofun rfl rfl
    cases t with
    | none => exact .inl (by simp [ht, base])
    | some k => exact .inr nofun
  | acquire t => exact h.update t .running (.inl (by simp [he.1])) nofun nofun rfl rfl
  | box e => exact h
  | wait t => exact absurd he.1 (hall t).1
  | callback t => exact h
  | finish t => exact absurd he.1 (hall t).2
  | release t => exact h.update t _ (.inl (by simp [he.1])) (hbase t).1 (hbase t).2 rfl rfl
  | refused t => exact h.update t _ (.inl (by simp [he.1])) (hbase t).1 (hbase t).2 rfl rfl
  | deliver => exact absurd he (by simp [system, hidle])
  | delivered => exact absurd he.1 (by simp [hidle])
  | halt | haltAcquire | haltYield | close => exact h

omit [DecidableEq K] in
theorem safe_of_quiesced (h : Coupled s) (hq : s.main ≠ .loop → Quiesced s) : Safe s := by
  have hneeds : s.main ≠ .loop → ∀ t, ¬NeedsMain s t := by
    intro hmain t hneeds
    obtain ⟨-, hidle, hall⟩ := hq hmain
    rcases hneeds with hout | ⟨ht, -⟩
    · rcases h.call t hout with ht | ⟨rfl, ht⟩
      · exact (hall t).1 ht
      · simp [hidle] at ht
    · exact (hall t).2 ht
  exact ⟨fun hmain t _ => hneeds (by simp [hmain]) t, fun hmain t => hneeds (by simp [hmain]) t⟩

/-- Halting strands no thread, in every run in which the kernel is halted when no
    operation is queued or running, and no block request is made, and neither is
    afterwards. -/
theorem safe_of_orderly {es : List (Event K)} (hrun : (system K).IsRun init es)
    (ho : (system K).Along Orderly init es) : Safe ((system K).run init es) := by
  have hrestrict := System.isRun_restrict.2 ⟨hrun, ho⟩
  have hinv : Coupled ((system K).run init es) ∧
      (((system K).run init es).main ≠ .loop → Quiesced ((system K).run init es)) := by
    refine (System.reachable_run hrestrict).invariant
      (P := fun s => Coupled s ∧ (s.main ≠ .loop → Quiesced s))
      ⟨coupled_init, fun h => absurd rfl h⟩ fun s e h he => ?_
    refine ⟨h.1.next he.1, fun hmain => ?_⟩
    by_cases hloop : s.main = .loop
    · -- the kernel begins to be halted
      cases e with
      | halt => exact he.2
      | haltAcquire => exact absurd he.1.1 (by simp [hloop])
      | haltYield | close => exact absurd he.1 (by simp [system, hloop])
      | _ => exact absurd hloop hmain
    · exact (h.2 hloop).next hloop he.1 he.2
  exact safe_of_quiesced hinv.1 hinv.2

/-- An operation making a block request, and halting the kernel after it. -/
def haltIdle : List (Event Unit) :=
  [.addOperation, .start, .enter none, .acquire none, .request none, .box (.lock none),
    .box (.store none), .box (.send none), .box .wake, .box .ret, .box .post, .box (.acquire none),
    .box (.unlock none), .wait none, .callback none, .finish none, .release none, .deliver,
    .box (.lock none), .box (.store none), .box (.send none), .box .wake, .box .ret, .box .post,
    .box (.acquire none), .box (.unlock none), .delivered, .halt, .haltAcquire, .close]

theorem safe_haltIdle : (system Unit).IsRun init haltIdle ∧
    (system Unit).Along Orderly init haltIdle ∧ Safe ((system Unit).run init haltIdle) := by
  have hrun : (system Unit).IsRun init haltIdle := by
    refine ⟨.inl rfl, ⟨.inl rfl, Nat.one_pos, rfl⟩, rfl, ⟨rfl, rfl⟩, ⟨rfl, rfl⟩,
      ⟨trivial, ⟨rfl, _, rfl⟩, nofun⟩, ⟨trivial, ⟨_, rfl⟩, nofun⟩, ⟨trivial, ⟨_, rfl⟩, nofun⟩,
      ⟨trivial, ⟨rfl, rfl⟩, fun _ => rfl⟩, ⟨trivial, ⟨_, _, rfl⟩, fun _ => rfl⟩,
      ⟨trivial, ⟨_, rfl⟩, fun _ => rfl⟩, ⟨trivial, ⟨Nat.one_pos, _, rfl⟩, nofun⟩,
      ⟨trivial, ⟨_, rfl⟩, nofun⟩, ⟨rfl, rfl⟩, ⟨rfl, rfl, .inl rfl⟩, ⟨rfl, Nat.one_pos⟩,
      ⟨rfl, rfl⟩, rfl, ?_⟩
    exact ⟨⟨trivial, ⟨rfl, _, rfl⟩, nofun⟩, ⟨trivial, ⟨_, rfl⟩, nofun⟩,
      ⟨trivial, ⟨_, rfl⟩, nofun⟩, ⟨trivial, ⟨rfl, rfl⟩, fun _ => rfl⟩,
      ⟨trivial, ⟨_, _, rfl⟩, fun _ => rfl⟩, ⟨trivial, ⟨_, rfl⟩, fun _ => rfl⟩,
      ⟨trivial, ⟨Nat.one_pos, _, rfl⟩, nofun⟩, ⟨trivial, ⟨_, rfl⟩, nofun⟩, ⟨rfl, rfl⟩, rfl,
      ⟨rfl, rfl⟩, rfl, trivial⟩
  have ho : (system Unit).Along Orderly init haltIdle := by
    refine ⟨rfl, trivial, trivial, trivial, rfl, trivial, trivial, trivial, trivial, trivial,
      trivial, trivial, trivial, trivial, trivial, trivial, trivial, trivial, trivial, trivial,
      trivial, trivial, trivial, trivial, trivial, trivial, trivial, ⟨rfl, rfl, ?_⟩, trivial,
      trivial, trivial⟩
    rintro (_ | ⟨⟩) <;> exact ⟨nofun, nofun⟩
  exact ⟨hrun, ho, safe_of_orderly hrun ho⟩

/-- The main thread waits for the CPU, and the owner of the CPU for its closure to
    be run. -/
structure Deadlock (s : State K) (t : Thread K) : Prop where
  main : s.main = .waitCpu
  owner : s.owner = .thread t
  pc : s.pc t = .requesting
  ran : s.box.passed t ≠ s.box.ran t

/-- Neither goes on. -/
theorem Deadlock.next {t : Thread K} (h : Deadlock s t) (hc : Coupled s) {e : Event K}
    (he : (system K).Enabled s e) : Deadlock ((system K).next s e) t := by
  obtain ⟨hmain, howner, hpc, hran⟩ := h
  -- another thread moves
  have hother : ∀ {u : Thread K} {p : Pc}, s.pc u ≠ .requesting →
      Function.update s.pc u p t = .requesting := by
    intro u p hu
    have htu : t ≠ u := by
      rintro rfl
      exact hu hpc
    rw [Function.update_of_ne htu, hpc]
  cases e with
  | addOperation => exact ⟨hmain, howner, hpc, hran⟩
  | start => exact ⟨hmain, howner, hother (by simp [he.2.2]), hran⟩
  | enter u =>
    have hu : s.pc u = base u := he
    exact ⟨hmain, howner, hother (by cases u <;> simp [hu, base]), hran⟩
  | acquire u => exact absurd he.2 (by simp [howner])
  | request u =>
    obtain rfl : t = u := by simpa [howner] using he.2
    exact absurd he.1 (by simp [hpc])
  | box e =>
    obtain ⟨hinner, he, hofMain⟩ := he
    have hwake : e ≠ .wake := by
      rintro rfl
      simp [hofMain trivial] at hmain
    refine ⟨hmain, howner, hpc, ?_⟩
    simpa only [system, Mailbox.passed_next hinner, Mailbox.ran_next hwake] using hran
  | wait u =>
    have hut : u ≠ t := by
      rintro rfl
      exact hran (hc.box.passed_eq_ran he.2)
    refine ⟨hmain, howner, ?_, hran⟩
    simp only [system, Function.update_of_ne hut.symm, hpc]
  | callback u => exact absurd he.1 (by simp [hmain])
  | finish u => exact ⟨hmain, howner, hother (by simp [he.1]), hran⟩
  | release u =>
    obtain rfl : t = u := by simpa [howner] using he.2
    exact absurd he.1 (by simp [hpc])
  | refused u => exact absurd he.2 (by simp [hmain])
  | deliver =>
    have hnone : s.pc none = .working := he
    have hne : t ≠ none := by
      rintro rfl
      simp [hpc] at hnone
    refine ⟨hmain, howner, hother (by simp [hnone]), ?_⟩
    exact fun heq => hran ((Function.update_of_ne hne ..).symm.trans heq)
  | delivered => exact ⟨hmain, howner, hother (by simp [he.1]), hran⟩
  | halt => exact absurd he (by simp [system, hmain])
  | haltAcquire => exact absurd he.2 (by simp [howner])
  | haltYield | close => exact absurd he (by simp [system, hmain])

theorem Deadlock.run {t : Thread K} (h : Deadlock s t) (hc : Coupled s) {es : List (Event K)}
    (hrun : (system K).IsRun s es) : Deadlock ((system K).run s es) t := by
  induction es generalizing s with
  | nil => exact h
  | cons e es ih => exact ih (h.next hc hrun.1) (hc.next hrun.1) hrun.2

/-- Halting the kernel while an operation makes a block request. -/
def haltBusy : List (Event Unit) :=
  [.addOperation, .start, .enter none, .acquire none, .request none, .box (.lock none),
    .box (.store none), .box (.send none), .halt]

/-- The main thread waits for the worker, and the worker for the main thread,
    whatever happens then. -/
theorem not_safe_haltBusy : (system Unit).IsRun init haltBusy ∧
    ¬Safe ((system Unit).run init haltBusy) ∧
    ∀ es, (system Unit).IsRun ((system Unit).run init haltBusy) es →
      ((system Unit).run ((system Unit).run init haltBusy) es).main = .waitCpu := by
  have hrun : (system Unit).IsRun init haltBusy :=
    ⟨.inl rfl, ⟨.inl rfl, Nat.one_pos, rfl⟩, rfl, ⟨rfl, rfl⟩, ⟨rfl, rfl⟩,
      ⟨trivial, ⟨rfl, _, rfl⟩, nofun⟩, ⟨trivial, ⟨_, rfl⟩, nofun⟩, ⟨trivial, ⟨_, rfl⟩, nofun⟩,
      rfl, trivial⟩
  have hcoupled : Coupled ((system Unit).run init haltBusy) :=
    (System.reachable_run hrun).invariant coupled_init fun _ _ h he => h.next he
  have hdead : Deadlock ((system Unit).run init haltBusy) none := ⟨rfl, rfl, rfl, nofun⟩
  refine ⟨hrun, fun h => h.halting rfl none rfl (.inl nofun), fun es hes => ?_⟩
  exact (hdead.run hcoupled hes).main

end Halt

end NodeLkl
