import NodeLkl.Base.System
import NodeLkl.Base.Threads

/-!
# The CPU of the kernel

The kernel is a library: its code is run by threads of the host, one at a time. A
thread has to get the CPU first (`lkl_cpu_get`, or `lkl_cpu_try_run_irq` for
interrupts), and gives it back afterwards (`lkl_cpu_put`). Inside, the scheduler of
the kernel may hand the CPU over to the thread of another task (`__switch_to`), which
waits for it at a semaphore of its own.

* A thread that owns the CPU may get it again, in an interrupt: the calls by which
  it has got it are its context (`Pc.ctx`), with the mark `true` on those that are
  giving it back.
* The tasks of *host* threads, which call the kernel, are woken when they have got
  the CPU (`switch_to_host_task`); until then, and in interrupts, they run in the
  context of the task that was there when the CPU was given back.
* The task of a host thread is made when it first calls the kernel, by the thread itself,
  which runs as `host0` meanwhile (`new_host_task`). All of them share that task, and the
  thread it is recorded to have is not always the one that runs as it (`State.thread`).
* The *idle* task gives back the CPU when there is nothing to run, and waits at its
  idle semaphore. When the kernel has been shut down, it frees the lock and the
  semaphores (`arch_cpu_idle`).

What is in the critical sections of the lock of the CPU is one event. Which tasks
run, and when, is up to the scheduler: it picks one of those that can run
(`Machine.Picks`).

Not everything that may happen keeps the threads apart. The *orderly* runs
(`State.Orderly`) are those where threads make their tasks one at a time, without
blocking in `host0` when it is not theirs, and where a task that is to be rescheduled finds
another one to run.
-/

namespace NodeLkl

namespace Cpu

def maxThreads : ℕ := 1000000

/-- A call of `lkl_cpu_get`, or of `lkl_cpu_try_run_irq` for an interrupt, in a context: the
    calls that have got the CPU before, in the same thread. -/
structure Call where
  irq : Option ℕ
  ctx : List Bool

/-- The context a call returns to, with its result. -/
def Call.got (c : Call) (ret : ℤ) : List Bool := if ret = 1 then false :: c.ctx else c.ctx

/-- Where a thread is: outside of the kernel, in a call to get the CPU (about to go
    through the gate, to do so once more, to lock, sleeping, about to go back through the
    gate), in code of the kernel, in `lkl_cpu_put`, about to run interrupts, at the semaphore
    of its task, at that of `host0`, at that of the idle task; in the idle task, about to wake
    the sleepers, to free the lock, having done so; or it has exited. -/
inductive Pc
  | out
  | enter (c : Call)
  | retry (c : Call)
  | lock (c : Call)
  | sleep (c : Call)
  | leave (c : Call) (ret : ℤ)
  | kernel (ctx : List Bool)
  | runIrqs (ctx : List Bool)
  | parked
  | parkedHost0
  | idling
  | waking
  | spinning
  | halted
  | exited

/-- Being in a context is being outside of the kernel, or in its code. -/
def Pc.ofCtx : List Bool → Pc
  | [] => .out
  | b :: ctx => .kernel (b :: ctx)

/-- The calls by which a thread has got the CPU, the last one first. -/
def Pc.ctx : Pc → List Bool
  | .enter c | .retry c | .lock c | .sleep c => c.ctx
  | .leave c ret => c.got ret
  | .kernel ctx => ctx
  | .runIrqs ctx => true :: ctx
  | .waking | .spinning | .halted => [false]
  | .out | .parked | .parkedHost0 | .idling | .exited => []

/-- The tasks: those of the threads, and `host0`, which threads of the host make theirs from. -/
inductive Task (θ : Type*)
  | host0
  | own (t : θ)
  deriving DecidableEq

/-- Waiting at the semaphore of a task. -/
def Task.parked {θ : Type*} : Task θ → Pc
  | .host0 => .parkedHost0
  | .own _ => .parked

/-- The threads of the kernel: that of the idle task, and those of the host. -/
structure Machine (θ : Type*) where
  idle : θ
  host : θ → Bool
  host_idle : host idle = false

/-- A task has the flag `TIF_HOST_THREAD`. -/
def Machine.hostTask {θ : Type*} (m : Machine θ) : Task θ → Bool
  | .host0 => true
  | .own t => m.host t

/-- The state of the CPU, of the tasks and of their threads. Of the host threads, those that have
    made their tasks are known (`hasTask`), and the one `host0` is recorded to have
    (`host0Tid`). For each of the calls that have got the CPU, there is the number of interrupts
    it is in. The interrupts set pending because the CPU was not free are recorded until
    interrupts are run, and so is the number of calls of `lkl_cpu_shutdown`. -/
structure State (θ : Type*) where
  shutdownGate : ℕ
  irqsPending : Bool
  sleepers : ℕ
  count : ℕ
  owner : Option θ
  sem : ℕ
  idleSem : ℕ
  idlePending : Bool
  shutdownSem : ℕ
  freed : Bool
  current : Task θ
  host0Tid : θ
  hasTask : θ → Bool
  schedSem : Task θ → ℕ
  dead : θ → Bool
  runnable : Task θ → Bool
  irqsEnabled : Bool
  interrupts : List ℕ
  bug : Bool
  pc : θ → Pc
  pending : List ℕ
  halts : ℕ

variable {θ : Type*} [DecidableEq θ]

/-- `lkl_bug`, which does not return. -/
def State.lklBug (s : State θ) : State θ := { s with bug := true }

/-- The thread `t` goes to `q`. -/
def State.goto (s : State θ) (t : θ) (q : Pc) : State θ :=
  { s with pc := Function.update s.pc t q }

def State.setRunnable (s : State θ) (u : Task θ) (b : Bool) : State θ :=
  { s with runnable := Function.update s.runnable u b }

/-- The thread a task is recorded to have, its `tid`. -/
def State.thread (s : State θ) : Task θ → θ
  | .host0 => s.host0Tid
  | .own t => t

/-- The thread of a task is to exit. -/
def State.gone (s : State θ) : Task θ → Bool
  | .host0 => false
  | .own t => s.dead t

/-- A thread waits at the semaphore of a task. -/
def State.Parked (s : State θ) : Task θ → Prop
  | .host0 => ∃ t, s.pc t = .parkedHost0
  | .own t => s.pc t = .parked

/-- `in_interrupt` -/
def State.inInterrupt (s : State θ) : Bool := s.interrupts.any (· != 0)

/-- The interrupts the innermost call is in. -/
def State.level (s : State θ) : ℕ := s.interrupts.headD 0

/-! ## Getting the CPU -/

/-- `__cpu_try_get_lock`, up to the lock. -/
def State.gate (s : State θ) (t : θ) (c : Call) (n : ℕ) : State θ :=
  let q := if maxThreads ≤ s.shutdownGate then .leave c (-2) else .lock c
  { s with shutdownGate := s.shutdownGate + n }.goto t q

/-- The thread has got the CPU, once more, or for the first time. -/
def State.got (s : State θ) (t : θ) : State θ :=
  { s with owner := some t, count := s.count + 1, interrupts := 0 :: s.interrupts }

/-- `__cpu_try_get_lock`, with the lock: its result. -/
def State.cpuTryGetLock (s : State θ) (t : θ) : ℤ × State θ :=
  if maxThreads ≤ s.shutdownGate then (-1, s)
  else if s.owner ≠ none ∧ s.owner ≠ some t then (0, s)
  else (1, s.got t)

/-- What `lkl_cpu_get` and `lkl_cpu_try_run_irq` do with the lock. -/
def State.locked (s : State θ) (t : θ) (c : Call) : State θ :=
  let (ret, s) := s.cpuTryGetLock t
  if ret = 0 then
    match c.irq with
    | none => { s with sleepers := s.sleepers + 1 }.goto t (.sleep c)
    | some irq =>
      { s with pending := irq :: s.pending, irqsPending := true }.goto t (.leave c ret)
  else s.goto t (.leave c ret)

/-- The last part of `__cpu_try_get_unlock`. -/
def State.leave (s : State θ) (t : θ) (c : Call) (ret : ℤ) : State θ :=
  { s with shutdownGate := s.shutdownGate - 1 }.goto t (.ofCtx (c.got ret))

/-! ## Handing it over -/

def State.lklCpuChangeOwner (s : State θ) (owner : θ) : State θ :=
  if 1 < s.count then s.lklBug else { s with owner := some owner }

variable (m : Machine θ)

/-- `__switch_to`, up to what the previous thread does then. -/
def Machine.switchTo (s : State θ) (next : Task θ) : State θ :=
  let wakeupIdle := next = .own m.idle ∧ s.idlePending
  let s := { s with current := next }.lklCpuChangeOwner (s.thread next)
  if wakeupIdle then { s with idleSem := s.idleSem + 1 }
  else { s with schedSem := Function.update s.schedSem next (s.schedSem next + 1) }

/-- `thread_sched_jb`, which `schedule` returns from at once, having switched to `next`. -/
def Machine.threadSchedJb (s : State θ) (next : Task θ) : State θ :=
  if m.hostTask s.current then m.switchTo (s.setRunnable s.current false) next
  -- `lkl_idle_tail_schedule`
  else if ¬s.idlePending ∨ s.current ≠ .own m.idle then s.lklBug
  -- there is nothing else to run
  else if next = s.current then s
  else m.switchTo s next

/-- `switch_to_host_task`, called by the thread `t`, up to the semaphore of the task. -/
def Machine.switchToHostTask (s : State θ) (t : θ) (task next : Task θ) : State θ :=
  if s.current = task then s
  else
    let s := if task = .host0 then { s with host0Tid := t } else s
    (m.threadSchedJb (s.setRunnable task true) next).goto t task.parked

/-- `schedule`, called by the thread `t` in the current task, which can run on, or not. -/
def Machine.schedule (s : State θ) (t : θ) (runnable : Bool) (next : Task θ) : State θ :=
  if next = s.current then s
  else (m.switchTo (s.setRunnable s.current runnable) next).goto t s.current.parked

/-- The end of `__switch_to`, `switch_to_host_task` or `thread_bootstrap`: the thread has
    been woken at the semaphore of a task. -/
def State.resume (s : State θ) (t : θ) (task : Task θ) : State θ :=
  { s with schedSem := Function.update s.schedSem task (s.schedSem task - 1) }.goto t
    (if s.gone task then .exited else .kernel [false])

/-- The task of a host thread has been made, by `kernel_thread`. It can run, but nothing is
    scheduled before the thread switches to it. -/
def State.makeTask (s : State θ) (t : θ) : State θ :=
  { s with hasTask := Function.update s.hasTask t true }

/-- `kill_thread`, but for joining it. -/
def State.killThread (s : State θ) (u : θ) : State θ :=
  { s with
    dead := Function.update s.dead u true
    schedSem := Function.update s.schedSem (.own u) (s.schedSem (.own u) + 1) }

/-! ## Giving it back -/

/-- What a thread does after giving back the CPU: the idle task is in `arch_cpu_idle`. -/
def Machine.rest (t : θ) : Pc := if t = m.idle then .idling else .out

/-- The owner gives back the CPU. -/
def State.release (s : State θ) : State θ :=
  let s := if 0 < s.sleepers then { s with sleepers := s.sleepers - 1, sem := s.sem + 1 } else s
  { s with count := 0, owner := none, interrupts := s.interrupts.tail }

/-- The owner has got the CPU once less. -/
def State.less (s : State θ) : State θ :=
  { s with count := s.count - 1, interrupts := s.interrupts.tail }

/-- The end of `lkl_cpu_put`. -/
def Machine.countDown (s : State θ) (t : θ) (ctx : List Bool) : State θ :=
  if 0 < s.count - 1 then s.less.goto t (.ofCtx ctx) else s.release.goto t (m.rest t)

/-- `lkl_cpu_put`, in a context, up to `run_irqs`, if there are interrupts to run; the
    scheduler picks a task, if `need_resched`. -/
def Machine.lklCpuPut (s : State θ) (t : θ) (ctx : List Bool) (resched : Option (Task θ)) :
    State θ :=
  if s.count = 0 ∨ s.owner ≠ some t then s.lklBug
  else if s.irqsPending ∧ s.irqsEnabled then
    { s with irqsPending := false }.goto t (.runIrqs ctx)
  else match resched with
    | some next =>
      if s.count = 1 then
        if s.inInterrupt then s.lklBug else (m.threadSchedJb s next).goto t (m.rest t)
      else m.countDown s t ctx
    | none => m.countDown s t ctx

/-- `run_irqs`, called by `lkl_cpu_put`, goes on with what was pending. -/
def State.runIrqs (s : State θ) (t : θ) (ctx : List Bool) : State θ :=
  { s with pending := [] }.goto t (.kernel (true :: ctx))

/-- `arch_local_irq_restore`, which runs the interrupts that are pending. -/
def State.archLocalIrqRestore (s : State θ) (enabled : Bool) : State θ :=
  { s with
    pending := if enabled ∧ ¬s.irqsEnabled ∧ ¬s.inInterrupt then [] else s.pending
    irqsEnabled := enabled }

/-- `irq_enter`, or that of an interrupt in software. -/
def State.irqEnter (s : State θ) : State θ :=
  { s with interrupts := s.interrupts.modifyHead (· + 1) }

def State.irqExit (s : State θ) : State θ :=
  { s with interrupts := s.interrupts.modifyHead (· - 1) }

/-! ## Shutting down -/

def State.lklCpuShutdown (s : State θ) : State θ :=
  { s with shutdownGate := s.shutdownGate + maxThreads, halts := s.halts + 1 }

/-- `arch_cpu_idle`, up to the lock, or to giving back the CPU. -/
def Machine.archCpuIdle (s : State θ) : State θ :=
  if maxThreads ≤ s.shutdownGate then s.goto m.idle .waking
  else { s.archLocalIrqRestore true with idlePending := true }.goto m.idle (.kernel [true])

/-- The idle task has been woken. -/
def Machine.resumeIdle (s : State θ) : State θ :=
  { s with idleSem := s.idleSem - 1, idlePending := false }.goto m.idle (.kernel [false])

/-- `arch_cpu_idle` wakes the sleepers, after which their number is that of `unsigned int`
    below zero. -/
def Machine.wakeAll (s : State θ) : State θ :=
  { s with sem := s.sem + s.sleepers, sleepers := 2 ^ 32 - 1 }.goto m.idle .spinning

/-- `lkl_cpu_cleanup`, when nobody is past the gate. -/
def Machine.lklCpuCleanup (s : State θ) : State θ :=
  { s with shutdownSem := s.shutdownSem + 1, freed := true }.goto m.idle .halted

/-! ## The system -/

/-- The scheduler may pick the task `u`: another task than the current one, which can run, or
    the idle task, if there is none. -/
def Machine.Picks (s : State θ) (u : Task θ) : Prop :=
  u ≠ s.current ∧ s.runnable u = true ∨
    u = .own m.idle ∧ ∀ v, s.runnable v = true → v = s.current

/-- What may happen: a thread calls `lkl_cpu_get` or `lkl_cpu_try_run_irq`, and goes on
    in it; it puts the CPU, runs interrupts, enters and leaves them, enables or disables them;
    it switches to `host0` in `new_host_task`, makes its task, switches to it; it schedules, is
    woken at the semaphore of a task; it wakes a task, creates, kills another thread; it shuts
    the CPU down, and goes on to schedule; the idle task idles, is woken, wakes the sleepers,
    cleans up. -/
inductive Event (θ : Type*)
  | call (t : θ) (irq : Option ℕ) (ctx : List Bool)
  | enter (t : θ) (c : Call)
  | retry (t : θ) (c : Call)
  | lock (t : θ) (c : Call)
  | down (t : θ) (c : Call)
  | leave (t : θ) (c : Call) (ret : ℤ)
  | put (t : θ) (b : Bool) (ctx : List Bool) (resched : Option (Task θ))
  | runIrqs (t : θ) (ctx : List Bool)
  | irqEnter (t : θ) (b : Bool) (ctx : List Bool)
  | irqExit (t : θ) (b : Bool) (ctx : List Bool)
  | irqRestore (t : θ) (b : Bool) (ctx : List Bool) (enabled : Bool)
  | newHostTask (t : θ) (next : Task θ)
  | makeTask (t : θ)
  | switchToHostTask (t : θ) (next : Task θ)
  | schedule (t : θ) (runnable : Bool) (next : Task θ)
  | resume (t : θ) (task : Task θ)
  | wake (t : θ) (b : Bool) (ctx : List Bool) (u : Task θ)
  | fork (t u : θ)
  | kill (t u : θ)
  | shutdown (t : θ)
  | reboot (t : θ) (next : Task θ)
  | idle
  | resumeIdle
  | wakeAll
  | cleanup

/-- A thread runs in a task that may block: its own, or `host0`, in `new_host_task`. -/
def Machine.MayBlock (s : State θ) (t : θ) : Prop :=
  s.current = .own t ∨ s.current = .host0 ∧ m.host t = true ∧ s.hasTask t = false

/-- What may happen, unless there was a bug. Only host threads call the kernel from
    outside, and put the CPU for the last time, apart from the idle task. A call leaves the
    interrupts it has entered before it puts the CPU. Code of the kernel schedules when it is
    not in an interrupt, in its own task. The CPU is not shut down so often that the gate, an
    `unsigned int`, gets to its end. -/
def Machine.CanDo (s : State θ) : Event θ → Prop
  | .call t _ ctx => s.pc t = .ofCtx ctx ∧ (ctx = [] → m.host t = true)
  | .enter t c => s.pc t = .enter c
  | .retry t c => s.pc t = .retry c
  | .lock t c => s.pc t = .lock c
  | .down t c => s.pc t = .sleep c ∧ 0 < s.sem
  | .leave t c ret => s.pc t = .leave c ret
  | .put t b ctx resched => s.pc t = .kernel (b :: ctx) ∧ s.level = 0 ∧
      (ctx = [] → m.host t = true ∨ t = m.idle ∧ b = true) ∧ ∀ u ∈ resched, m.Picks s u
  | .runIrqs t ctx => s.pc t = .runIrqs ctx
  | .irqEnter t b ctx => s.pc t = .kernel (b :: ctx)
  | .irqExit t b ctx => s.pc t = .kernel (b :: ctx) ∧ 0 < s.level
  | .irqRestore t b ctx _ => s.pc t = .kernel (b :: ctx)
  | .newHostTask t next => s.pc t = .kernel [false] ∧ s.level = 0 ∧ m.host t = true ∧
      s.hasTask t = false ∧ (s.current ≠ .host0 → m.Picks (s.setRunnable .host0 true) next)
  | .makeTask t => s.pc t = .kernel [false] ∧ s.level = 0 ∧ m.host t = true ∧
      s.hasTask t = false ∧ s.current = .host0
  | .switchToHostTask t next => s.pc t = .kernel [false] ∧ s.level = 0 ∧ m.host t = true ∧
      s.hasTask t = true ∧ (s.current ≠ .own t → m.Picks (s.setRunnable (.own t) true) next)
  | .schedule t runnable next => s.pc t = .kernel [false] ∧ s.level = 0 ∧ m.MayBlock s t ∧
      (runnable = true → t ≠ m.idle) ∧
      (next = s.current ∨ m.Picks (s.setRunnable s.current runnable) next)
  | .resume t task => s.pc t = task.parked ∧ 0 < s.schedSem task ∧
      (task = .own t ∨ task = .host0)
  | .wake t b ctx u => s.pc t = .kernel (b :: ctx) ∧ s.Parked u ∧ s.gone u = false ∧
      u ≠ .own m.idle
  | .fork t u => s.pc t = .kernel [false] ∧ s.pc u = .out ∧ s.dead u = false ∧
      m.host u = false ∧ u ≠ m.idle
  | .kill t u => s.pc t = .kernel [false] ∧ s.pc u = .parked ∧ s.dead u = false ∧
      s.runnable (.own u) = false ∧ s.current ≠ .own u ∧ m.host u = false ∧ u ≠ m.idle
  | .shutdown t => s.pc t = .kernel [false] ∧ s.current = .own t ∧
      maxThreads * (s.halts + 2) ≤ 2 ^ 32
  | .reboot t next => s.pc t = .kernel [false] ∧ s.level = 0 ∧ s.current = .own t ∧
      m.host t = true ∧ m.Picks s next
  | .idle => s.pc m.idle = .kernel [false] ∧ s.level = 0
  | .resumeIdle => s.pc m.idle = .idling ∧ 0 < s.idleSem
  | .wakeAll => s.pc m.idle = .waking
  | .cleanup => s.pc m.idle = .spinning ∧ s.shutdownGate ≤ maxThreads

def Machine.next (s : State θ) : Event θ → State θ
  | .call t irq ctx => s.goto t (.enter ⟨irq, ctx⟩)
  | .enter t c => s.gate t c 1
  | .retry t c => s.gate t c 0
  | .lock t c => s.locked t c
  | .down t c => { s with sem := s.sem - 1 }.goto t (.retry c)
  | .leave t c ret => s.leave t c ret
  | .put t _ ctx resched => m.lklCpuPut s t ctx resched
  | .runIrqs t ctx => s.runIrqs t ctx
  | .irqEnter _ _ _ => s.irqEnter
  | .irqExit _ _ _ => s.irqExit
  | .irqRestore _ _ _ enabled => s.archLocalIrqRestore enabled
  | .newHostTask t next => m.switchToHostTask s t .host0 next
  | .makeTask t => s.makeTask t
  | .switchToHostTask t next => m.switchToHostTask s t (.own t) next
  | .schedule t runnable next => m.schedule s t runnable next
  | .resume t task => s.resume t task
  | .wake _ _ _ u => s.setRunnable u true
  | .fork _ u => (s.setRunnable (.own u) true).goto u .parked
  | .kill _ u => s.killThread u
  | .shutdown _ => s.lklCpuShutdown
  | .reboot t next => (m.threadSchedJb s next).goto t .out
  | .idle => m.archCpuIdle s
  | .resumeIdle => m.resumeIdle s
  | .wakeAll => m.wakeAll s
  | .cleanup => m.lklCpuCleanup s

/-- The threads of the machine, sharing the CPU, whatever happens. -/
def Machine.kernel : System (State θ) (Event θ) where
  Enabled s l := s.bug = false ∧ m.CanDo s l
  next := m.next

/-- What the tasks rely on:

    * `need_resched`, when the CPU is put for the last time, means that there is another task to
      run, to which the thread switches;
    * a thread that blocks in `new_host_task` is the one `host0` is recorded to have, not one
      that found `host0` to be the current task already;
    * a thread switches to `host0` when no other one is waiting at its semaphore. -/
def State.Orderly (s : State θ) : Event θ → Prop
  | .put _ _ [] resched => resched ≠ some s.current
  | .schedule t _ _ => s.current = .host0 → s.host0Tid = t
  | .newHostTask _ _ => s.current = .host0 ∨ ¬s.Parked .host0
  | _ => True

/-- The threads of the machine, sharing the CPU in an orderly way. -/
def Machine.system : System (State θ) (Event θ) := m.kernel.restrict State.Orderly

/-- When the kernel has started, the CPU is free, in `host0`, which is recorded to have the thread
    that started it, and the idle task is waiting. -/
def Machine.init (starter : θ) : State θ where
  shutdownGate := 0
  irqsPending := false
  sleepers := 0
  count := 0
  owner := none
  sem := 0
  idleSem := 0
  idlePending := false
  shutdownSem := 0
  freed := false
  current := .host0
  host0Tid := starter
  hasTask _ := false
  schedSem _ := 0
  dead _ := false
  runnable _ := false
  irqsEnabled := true
  interrupts := []
  bug := false
  pc t := if t = m.idle then .parked else .out
  pending := []
  halts := 0

end Cpu

end NodeLkl
