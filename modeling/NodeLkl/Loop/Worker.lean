import NodeLkl.Base.Mailbox

/-!
# The worker thread

Operations are added to a queue (`addOperation`), which starts them one at a
time. The method of an operation calls a native function, which puts a job (a
function, and its arguments) in a slot, `worker_info`, and signals the worker
thread (`run_on_worker_loop`). The worker, when signalled, reads the slot, runs
the function, and hands its result back to the main thread
(`run_on_default_loop`, `NodeLkl.Base.Mailbox`), where the callback of the
operation is called, and then the slot of the queue released: the next operation
may start, while the worker is still waiting for the main thread.

The queue is FIFO. It starts an operation when its slot is free, either later or
as soon as it is released. What the methods do is given by a `Client`: a method
may throw, instead of calling a native function, and so may a callback; then the
slot of the queue is not released.

* `Inv`: where the operation having the slot of the queue is (`Phase`), and what
  has been done of the operations added; every event keeps it (`Inv.next`).
* `Inv.exists_enabled`: something may happen, until all has been done, unless an
  operation is stuck (`Stuck`), which takes a method or a callback that throws
  (`not_stuck`).
* `work_next`: every event, but adding an operation, does some of the work left.
-/

namespace NodeLkl

/-- What operations do in the main thread, on a state `J`: what the method of an
    operation passes to `run_on_worker_loop`, if it does not throw, and what it
    does to the state when it is given the result. -/
structure Client (Op J Fn Args Res : Type*) where
  start : J → Op → Option (Fn × Args)
  done : J → Op → Res → J

namespace Worker

/-- An operation in the queue, with its number. -/
structure Task (Op : Type*) where
  serial : ℕ
  op : Op

/-- The operations in the order they are added. -/
def numbered {Op : Type*} (ops : List Op) : List (Task Op) :=
  ops.zipIdx.map fun p => ⟨p.2, p.1⟩

/-- A job: the arguments of a function include the callback of a task. -/
structure Job (Op Fn Args : Type*) where
  task : Task Op
  fn : Fn
  args : Args

/-- What the main thread does: nothing of what follows, being in
    `run_on_worker_loop` (about to write the function, the arguments, about to
    signal), being in the callback of an operation, having released the slot of
    the queue. -/
inductive Pc (Op Fn Args Res : Type*)
  | rest
  | writeFn (job : Job Op Fn Args)
  | writeArgs (job : Job Op Fn Args)
  | send
  | callback (t : Task Op) (r : Res)
  | released

/-- What the worker thread does: waiting, being in `worker_loop_entry` (having
    read nothing, the function), running the function, handing back its result;
    or calling a function that is not there. -/
inductive WorkerPc (Op Fn Args : Type*)
  | wait
  | woken
  | gotFn (fn : Fn)
  | run (job : Job Op Fn Args)
  | deliver
  | fault

/-- The state of the two threads. The operations added, those started, the jobs
    passed to `run_on_worker_loop`, those run, with their results, and the calls
    of callbacks, are recorded. -/
structure State (Op J Fn Args Res : Type*) where
  js : J
  tasks : List (Task Op)
  slot : Option (Task Op)
  pc : Pc Op Fn Args Res
  fn : Option Fn
  args : Option (Task Op × Args)
  pending : Bool
  worker : WorkerPc Op Fn Args
  box : Mailbox Unit (Task Op × Res)
  added : List Op
  taken : List (Task Op)
  passed : List (Job Op Fn Args)
  natives : List (Job Op Fn Args × Res)
  answers : List (Task Op × Res)

/-- The events. The queue starts an operation (`process`); the main thread is in
    `run_on_worker_loop` (`writeFn`, `writeArgs`, `send`), in a callback that
    returns or throws, or done with it (`leave`); the worker is woken up, reads the
    slot, runs a function, and goes back to its loop. -/
inductive Event (Op Res : Type*)
  | addOperation (op : Op)
  | process
  | writeFn
  | writeArgs
  | send
  | callbackReturn
  | callbackThrow
  | leave
  | wake
  | readFn
  | readArgs
  | native (r : Res)
  | box (e : Mailbox.Event Unit (Task Op × Res))
  | loop

variable {Op J Fn Args Res : Type*}

/-- Initially, no operation has been added. -/
def init (j : J) : State Op J Fn Args Res where
  js := j
  tasks := []
  slot := none
  pc := .rest
  fn := none
  args := none
  pending := false
  worker := .wait
  box := .init
  added := []
  taken := []
  passed := []
  natives := []
  answers := []

variable (c : Client Op J Fn Args Res)

/-- The queue starts an operation: its method throws, or calls
    `run_on_worker_loop`. -/
def process (s : State Op J Fn Args Res) : State Op J Fn Args Res :=
  match s.tasks with
  | [] => s
  | t :: rest =>
    let s := { s with tasks := rest, slot := some t, taken := s.taken ++ [t] }
    match c.start s.js t.op with
    -- the exception leaves the slot of the queue taken
    | none => { s with pc := .rest }
    | some (fn, args) => { s with
        pc := .writeFn ⟨t, fn, args⟩
        passed := s.passed ++ [⟨t, fn, args⟩] }

/-- The main thread, woken up, runs the closure of the worker: the method of the
    operation gets its result, and its callback is called. -/
def deliver (s : State Op J Fn Args Res) : State Op J Fn Args Res :=
  match s.box.read with
  | .running _ (t, r) => { s with
      js := c.done s.js t.op r
      pc := .callback t r
      answers := s.answers ++ [(t, r)] }
  | _ => s

/-- The two threads. -/
def system : System (State Op J Fn Args Res) (Event Op Res) where
  Enabled s
    | .addOperation _ => s.pc = .rest ∨ ∃ t r, s.pc = .callback t r
    | .process => s.slot = none ∧ s.tasks ≠ [] ∧
        ((s.pc = .rest ∧ s.box.main = .idle) ∨ s.pc = .released)
    | .writeFn => ∃ job, s.pc = .writeFn job
    | .writeArgs => ∃ job, s.pc = .writeArgs job
    | .send => s.pc = .send
    | .callbackReturn => ∃ t r, s.pc = .callback t r
    | .callbackThrow => ∃ t r, s.pc = .callback t r
    | .leave => s.pc = .released
    | .wake => s.pending = true ∧ s.worker = .wait
    | .readFn => s.worker = .woken
    | .readArgs => ∃ fn, s.worker = .gotFn fn
    | .native _ => ∃ job, s.worker = .run job
    | .box e => e.Inner ∧ (Mailbox.system Unit (Task Op × Res)).Enabled s.box e ∧
        (e.OfMain → s.pc = .rest)
    | .loop => s.worker = .deliver ∧ s.box.pc () = .out
  next s
    | .addOperation op => { s with
        tasks := s.tasks ++ [⟨s.added.length, op⟩]
        added := s.added ++ [op] }
    | .process => process c s
    | .writeFn => match s.pc with
      | .writeFn job => { s with fn := some job.fn, pc := .writeArgs job }
      | _ => s
    | .writeArgs => match s.pc with
      | .writeArgs job => { s with args := some (job.task, job.args), pc := .send }
      | _ => s
    | .send => { s with pending := true, pc := .rest }
    | .callbackReturn => { s with slot := none, pc := .released }
    -- `callback`, which releases the slot of the queue, is not called
    | .callbackThrow => { s with pc := .rest }
    | .leave => { s with pc := .rest }
    | .wake => { s with pending := false, worker := .woken }
    -- the worker reads `worker_info` in two steps, as the main thread writes it
    | .readFn => { s with worker := match s.fn with | none => .fault | some fn => .gotFn fn }
    | .readArgs => { s with worker := match s.worker, s.args with
        | .gotFn fn, some (t, args) => .run ⟨t, fn, args⟩
        | _, _ => .fault }
    | .native r => match s.worker with
      | .run job => { s with
          worker := .deliver
          natives := s.natives ++ [(job, r)]
          box := (Mailbox.system Unit (Task Op × Res)).next s.box (.enter () (job.task, r)) }
      | _ => s
    | .box e => { (match e with | .wake => deliver c s | _ => s) with
        box := (Mailbox.system Unit (Task Op × Res)).next s.box e }
    | .loop => { s with worker := .wait }

/-- Neither a method, nor a callback, throws. -/
def NoThrow (s : State Op J Fn Args Res) : Event Op Res → Prop
  | .process => ∀ t ∈ s.tasks.head?, c.start s.js t.op ≠ none
  | .callbackThrow => False
  | _ => True

/-- The events other than adding an operation. -/
def Event.Inner : Event Op Res → Prop
  | .addOperation _ => False
  | _ => True

/-! ## The steps -/

section Steps

variable {c} {s : State Op J Fn Args Res}

/-- An operation is started, the method of which throws, -/
theorem next_process_none {t : Task Op} {rest : List (Task Op)} (ht : s.tasks = t :: rest)
    (hstart : c.start s.js t.op = none) : (system c).next s .process =
      { s with tasks := rest, slot := some t, taken := s.taken ++ [t], pc := .rest } := by
  change process c s = _
  simp only [process, ht, hstart]

/-- or calls a native function. -/
theorem next_process_some {t : Task Op} {rest : List (Task Op)} {fn : Fn} {args : Args}
    (ht : s.tasks = t :: rest) (hstart : c.start s.js t.op = some (fn, args)) :
    (system c).next s .process = { s with
      tasks := rest
      slot := some t
      taken := s.taken ++ [t]
      pc := .writeFn ⟨t, fn, args⟩
      passed := s.passed ++ [⟨t, fn, args⟩] } := by
  change process c s = _
  simp only [process, ht, hstart]

theorem next_writeFn {job : Job Op Fn Args} (hpc : s.pc = .writeFn job) :
    (system c).next s .writeFn = { s with fn := some job.fn, pc := .writeArgs job } := by
  dsimp only [system]
  rw [hpc]

theorem next_writeArgs {job : Job Op Fn Args} (hpc : s.pc = .writeArgs job) :
    (system c).next s .writeArgs =
      { s with args := some (job.task, job.args), pc := .send } := by
  dsimp only [system]
  rw [hpc]

theorem next_readFn {fn : Fn} (hfn : s.fn = some fn) :
    (system c).next s .readFn = { s with worker := .gotFn fn } := by
  dsimp only [system]
  rw [hfn]

theorem next_readArgs {fn : Fn} {t : Task Op} {args : Args} (hworker : s.worker = .gotFn fn)
    (hargs : s.args = some (t, args)) :
    (system c).next s .readArgs = { s with worker := .run ⟨t, fn, args⟩ } := by
  dsimp only [system]
  rw [hworker, hargs]

theorem next_native {job : Job Op Fn Args} (hworker : s.worker = .run job) (r : Res) :
    (system c).next s (.native r) = { s with
      worker := .deliver
      natives := s.natives ++ [(job, r)]
      box := (Mailbox.system Unit (Task Op × Res)).next s.box (.enter () (job.task, r)) } := by
  dsimp only [system]
  rw [hworker]

/-- The main thread is woken up: the callback of an operation is called. -/
theorem next_wake {t : Task Op} {r : Res} (hread : s.box.read = .running () (t, r)) :
    (system c).next s (.box .wake) = { s with
      js := c.done s.js t.op r
      pc := .callback t r
      answers := s.answers ++ [(t, r)]
      box := (Mailbox.system Unit (Task Op × Res)).next s.box .wake } := by
  dsimp only [system, deliver]
  rw [hread]

/-- A step in `run_on_default_loop`, besides waking up the main thread. -/
theorem next_box {e : Mailbox.Event Unit (Task Op × Res)} (hwake : e ≠ .wake) :
    (system c).next s (.box e) =
      { s with box := (Mailbox.system Unit (Task Op × Res)).next s.box e } := by
  cases e with
  | wake => exact absurd rfl hwake
  | _ => rfl

end Steps

/-! ## The invariant -/

section Phases

variable (s : State Op J Fn Args Res)

/-- The results of the jobs run. -/
def State.results : List (Task Op × Res) := s.natives.map fun p => (p.1.task, p.2)

/-- The callback has been called of every job run. -/
def Answered : Prop := s.answers = s.results ∧ s.box.passed () = s.box.ran ()

/-- The worker has run every job passed to `run_on_worker_loop`, the callbacks
    have been called: it waits, or is about to. -/
def Past : Prop :=
  s.passed = s.natives.map Prod.fst ∧ Answered s ∧ (s.worker = .wait ∨ s.worker = .deliver)

/-- The slot of the queue is free. -/
def Free : Prop :=
  s.slot = none ∧ (s.pc = .rest ∨ s.pc = .released) ∧ s.pending = false ∧
    s.passed.map Job.task = s.taken ∧ Past s

/-- `job` is being put in the slot, the worker having left it. -/
def Handing (job : Job Op Fn Args) : Prop :=
  s.slot = some job.task ∧ s.pending = false ∧ s.passed.map Job.task = s.taken ∧
    s.passed = s.natives.map Prod.fst ++ [job] ∧ Answered s ∧
    (s.worker = .wait ∨ s.worker = .deliver) ∧
    (s.pc = .writeFn job ∨ (s.pc = .writeArgs job ∧ s.fn = some job.fn) ∨
      (s.pc = .send ∧ s.fn = some job.fn ∧ s.args = some (job.task, job.args)))

/-- `job` is in the slot, and the worker signalled. -/
def Pending (job : Job Op Fn Args) : Prop :=
  s.slot = some job.task ∧ s.pc = .rest ∧ s.pending = true ∧ s.passed.map Job.task = s.taken ∧
    s.passed = s.natives.map Prod.fst ++ [job] ∧ Answered s ∧
    (s.worker = .wait ∨ s.worker = .deliver) ∧
    s.fn = some job.fn ∧ s.args = some (job.task, job.args)

/-- The worker is reading `job`, or running it. -/
def Reading (job : Job Op Fn Args) : Prop :=
  s.slot = some job.task ∧ s.pc = .rest ∧ s.pending = false ∧ s.passed.map Job.task = s.taken ∧
    s.passed = s.natives.map Prod.fst ++ [job] ∧ Answered s ∧
    ((s.worker = .woken ∧ s.fn = some job.fn ∧ s.args = some (job.task, job.args)) ∨
      (s.worker = .gotFn job.fn ∧ s.args = some (job.task, job.args)) ∨ s.worker = .run job)

/-- The worker is handing back the result of the job of `t`. -/
def Delivering (t : Task Op) (r : Res) : Prop :=
  s.slot = some t ∧ s.pc = .rest ∧ s.pending = false ∧ s.passed.map Job.task = s.taken ∧
    s.passed = s.natives.map Prod.fst ∧ s.results = s.answers ++ [(t, r)] ∧
    s.box.passed () = s.box.ran () ++ [(t, r)] ∧ s.worker = .deliver

/-- The callback of `t` has been called. -/
def Calling (t : Task Op) (r : Res) : Prop :=
  s.slot = some t ∧ s.pc = .callback t r ∧ s.pending = false ∧ s.passed.map Job.task = s.taken ∧
    s.passed = s.natives.map Prod.fst ∧ Answered s ∧ s.worker = .deliver ∧
    ∃ x, s.box.main = .running () x

/-- The slot of the queue is not free, but nothing is being done for the
    operation that has it. -/
def Stuck : Prop :=
  s.slot ≠ none ∧ s.pc = .rest ∧ s.pending = false ∧ s.passed.map Job.task <+: s.taken ∧ Past s

/-- Where the operation having the slot of the queue is. -/
def Phase : Prop :=
  Free s ∨ (∃ job, Handing s job) ∨ (∃ job, Pending s job) ∨ (∃ job, Reading s job) ∨
    (∃ t r, Delivering s t r) ∨ (∃ t r, Calling s t r) ∨ Stuck s

end Phases

/-- The state after the results `answers`. -/
def after (j : J) (answers : List (Task Op × Res)) : J :=
  answers.foldl (fun j a => c.done j a.1.op a.2) j

/-- The invariant, from the state `j` on. -/
structure Inv (j : J) (s : State Op J Fn Args Res) : Prop where
  box : s.box.Inv
  out : s.worker ≠ .deliver → s.box.pc () = .out
  order : s.taken ++ s.tasks = numbered s.added
  phase : Phase s
  js : s.js = after c j s.answers
  jobs : ∀ i job, s.passed[i]? = some job →
    c.start (after c j (s.answers.take i)) job.task.op = some (job.fn, job.args)

variable {c}

section Phases

variable {s : State Op J Fn Args Res}

theorem Phase.of_free (h : Free s) : Phase s := .inl h

theorem Phase.of_handing (job : Job Op Fn Args) (h : Handing s job) : Phase s :=
  .inr (.inl ⟨job, h⟩)

theorem Phase.of_pending (job : Job Op Fn Args) (h : Pending s job) : Phase s :=
  .inr (.inr (.inl ⟨job, h⟩))

theorem Phase.of_reading (job : Job Op Fn Args) (h : Reading s job) : Phase s :=
  .inr (.inr (.inr (.inl ⟨job, h⟩)))

theorem Phase.of_delivering (t : Task Op) (r : Res) (h : Delivering s t r) : Phase s :=
  .inr (.inr (.inr (.inr (.inl ⟨t, r, h⟩))))

theorem Phase.of_calling (t : Task Op) (r : Res) (h : Calling s t r) : Phase s :=
  .inr (.inr (.inr (.inr (.inr (.inl ⟨t, r, h⟩)))))

theorem Phase.of_stuck (h : Stuck s) : Phase s :=
  .inr (.inr (.inr (.inr (.inr (.inr h)))))

end Phases

theorem inv_init (j : J) : Inv c j (init j) where
  box := Mailbox.inv_init
  out _ := rfl
  order := rfl
  phase := .of_free ⟨rfl, .inl rfl, rfl, rfl, rfl, ⟨rfl, rfl⟩, .inl rfl⟩
  js := rfl
  jobs i job h := by simp [init] at h

theorem numbered_concat (ops : List Op) (op : Op) :
    numbered (ops ++ [op]) = numbered ops ++ [⟨ops.length, op⟩] := by
  simp [numbered, List.zipIdx_append]

/-- Operations are told apart by their numbers. -/
theorem nodup_numbered (ops : List Op) : (numbered ops).Nodup := by
  refine List.Pairwise.of_map (S := (· ≠ ·)) Task.serial (fun t u hne heq => hne (heq ▸ rfl)) ?_
  have hserial : (numbered ops).map Task.serial = List.range' 0 ops.length := by
    simp [numbered, Function.comp_def]
  rw [hserial]
  exact List.nodup_range'

section Inversion

variable {s : State Op J Fn Args Res}

theorem Phase.free (h : Phase s) (hslot : s.slot = none) : Free s := by
  rcases h with h | ⟨_, h⟩ | ⟨_, h⟩ | ⟨_, h⟩ | ⟨_, _, h⟩ | ⟨_, _, h⟩ | h
  · exact h
  all_goals exact absurd hslot (by simp [h.1])

theorem Phase.free_of_released (h : Phase s) (hpc : s.pc = .released) : Free s := by
  rcases h with h | ⟨_, h⟩ | ⟨_, h⟩ | ⟨_, h⟩ | ⟨_, _, h⟩ | ⟨_, _, h⟩ | h
  · exact h
  · obtain ⟨-, -, -, -, -, -, h | ⟨h, -⟩ | ⟨h, -⟩⟩ := h <;> simp [hpc] at h
  all_goals exact absurd hpc (by simp [h.2.1])

theorem Phase.calling (h : Phase s) {t : Task Op} {r : Res} (hpc : s.pc = .callback t r) :
    Calling s t r := by
  rcases h with h | ⟨_, h⟩ | ⟨_, h⟩ | ⟨_, h⟩ | ⟨_, _, h⟩ | ⟨_, _, h⟩ | h
  · exact absurd hpc (by rcases h.2.1 with h | h <;> simp [h])
  · obtain ⟨-, -, -, -, -, -, h | ⟨h, -⟩ | ⟨h, -⟩⟩ := h <;> simp [hpc] at h
  iterate 3 exact absurd hpc (by simp [h.2.1])
  · have heq := hpc.symm.trans h.2.1
    cases heq
    exact h
  · exact absurd hpc (by simp [h.2.1])

theorem Phase.handing (h : Phase s) (hrest : s.pc ≠ .rest) (hreleased : s.pc ≠ .released)
    (hcallback : ∀ t r, s.pc ≠ .callback t r) : ∃ job, Handing s job := by
  rcases h with h | h | ⟨_, h⟩ | ⟨_, h⟩ | ⟨_, _, h⟩ | ⟨_, _, h⟩ | h
  · exact absurd h.2.1 (by simp [hrest, hreleased])
  · exact h
  iterate 3 exact absurd h.2.1 hrest
  · exact absurd h.2.1 (hcallback _ _)
  · exact absurd h.2.1 hrest

theorem Phase.pending (h : Phase s) (hpending : s.pending = true) : ∃ job, Pending s job := by
  rcases h with h | ⟨_, h⟩ | h | ⟨_, h⟩ | ⟨_, _, h⟩ | ⟨_, _, h⟩ | h
  · exact absurd hpending (by simp [h.2.2.1])
  · exact absurd hpending (by simp [h.2.1])
  · exact h
  all_goals exact absurd hpending (by simp [h.2.2.1])

theorem Phase.reading (h : Phase s) (hwait : s.worker ≠ .wait) (hdeliver : s.worker ≠ .deliver) :
    ∃ job, Reading s job := by
  rcases h with h | ⟨_, h⟩ | ⟨_, h⟩ | h | ⟨_, _, h⟩ | ⟨_, _, h⟩ | h
  · exact absurd h.2.2.2.2.2.2 (by simp [hwait, hdeliver])
  · exact absurd h.2.2.2.2.2.1 (by simp [hwait, hdeliver])
  · exact absurd h.2.2.2.2.2.2.1 (by simp [hwait, hdeliver])
  · exact h
  · exact absurd h.2.2.2.2.2.2.2 hdeliver
  · exact absurd h.2.2.2.2.2.2.1 hdeliver
  · exact absurd h.2.2.2.2.2.2 (by simp [hwait, hdeliver])

/-- The jobs run are those passed to `run_on_worker_loop`, in order. -/
theorem Phase.natives_prefix (h : Phase s) : s.natives.map Prod.fst <+: s.passed := by
  rcases h with ⟨-, -, -, -, h, -⟩ | ⟨_, -, -, -, h, -⟩ | ⟨_, -, -, -, -, h, -⟩ |
    ⟨_, -, -, -, -, h, -⟩ | ⟨_, _, -, -, -, -, h, -⟩ | ⟨_, _, -, -, -, -, h, -⟩ |
    ⟨-, -, -, -, h, -⟩
  all_goals rw [h]
  all_goals first | exact List.prefix_rfl | exact List.prefix_append _ _

/-- The operations passed are the first ones started. -/
theorem Phase.tasks_prefix (h : Phase s) : s.passed.map Job.task <+: s.taken := by
  rcases h with ⟨-, -, -, h, -⟩ | ⟨_, -, -, h, -⟩ | ⟨_, -, -, -, h, -⟩ | ⟨_, -, -, -, h, -⟩ |
    ⟨_, _, -, -, -, h, -⟩ | ⟨_, _, -, -, -, h, -⟩ | ⟨-, -, -, h, -⟩
  case inr.inr.inr.inr.inr.inr => exact h
  all_goals exact h ▸ List.prefix_rfl

/-- The results given to callbacks are those of the jobs run, in order. -/
theorem Phase.answers_prefix (h : Phase s) : s.answers <+: s.results := by
  rcases h with ⟨-, -, -, -, -, ⟨h, -⟩, -⟩ | ⟨_, -, -, -, -, ⟨h, -⟩, -⟩ |
    ⟨_, -, -, -, -, -, ⟨h, -⟩, -⟩ | ⟨_, -, -, -, -, -, ⟨h, -⟩, -⟩ |
    ⟨_, _, -, -, -, -, -, h, -⟩ | ⟨_, _, -, -, -, -, -, ⟨h, -⟩, -⟩ | ⟨-, -, -, -, -, ⟨h, -⟩, -⟩
  case inr.inr.inr.inr.inl => exact h ▸ List.prefix_append _ _
  all_goals exact h ▸ List.prefix_rfl

end Inversion

namespace Inv

variable {j : J} {s : State Op J Fn Args Res}

theorem addOperation (h : Inv c j s) (op : Op) :
    Inv c j ((system c).next s (.addOperation op)) where
  box := h.box
  out := h.out
  order := by
    dsimp only [system]
    rw [numbered_concat, ← h.order, List.append_assoc]
  phase := h.phase
  js := h.js
  jobs := h.jobs

/-- An operation the method of which throws is stuck. -/
theorem stuck_process (h : Inv c j s) (hslot : s.slot = none) {t : Task Op} {rest : List (Task Op)}
    (ht : s.tasks = t :: rest) (hstart : c.start s.js t.op = none) :
    Stuck ((system c).next s .process) := by
  obtain ⟨-, -, hpending, htaken, hpast⟩ := h.phase.free hslot
  rw [next_process_none ht hstart]
  refine ⟨nofun, rfl, hpending, ?_, hpast⟩
  simp only [htaken]
  exact List.prefix_append _ _

/-- The queue starts an operation. -/
theorem process (h : Inv c j s) (he : (system c).Enabled s .process) :
    Inv c j ((system c).next s .process) := by
  obtain ⟨hslot, htasks, -⟩ := he
  obtain ⟨-, -, hpending, htaken, hpast⟩ := h.phase.free hslot
  obtain ⟨t, rest, ht⟩ := List.exists_cons_of_ne_nil htasks
  have horder : s.taken ++ [t] ++ rest = numbered s.added := by
    rw [List.append_assoc, ← h.order, ht]
    rfl
  cases hstart : c.start s.js t.op with
  | none =>
    have hstuck := h.stuck_process hslot ht hstart
    rw [next_process_none ht hstart] at hstuck ⊢
    exact ⟨h.box, h.out, horder, .of_stuck hstuck, h.js, h.jobs⟩
  | some job =>
    obtain ⟨fn, args⟩ := job
    rw [next_process_some ht hstart]
    refine ⟨h.box, h.out, horder, .of_handing ⟨t, fn, args⟩ ?_, h.js, fun i job hi => ?_⟩
    · -- the worker has left the slot
      obtain ⟨hpassed, hanswered, hworker⟩ := hpast
      refine ⟨rfl, hpending, ?_, ?_, hanswered, hworker, .inl rfl⟩
      · simp [htaken]
      · simp [hpassed]
    · have hlength : s.passed.length = s.answers.length := by
        simp [hpast.1, hpast.2.1.1, State.results]
      -- the job passed was made in the state after all the answers so far
      rcases Nat.lt_or_ge i s.passed.length with hlt | hge
      · exact h.jobs i job (by simpa [List.getElem?_append_left hlt] using hi)
      · obtain ⟨hi', rfl⟩ : i - s.passed.length = 0 ∧ ⟨t, fn, args⟩ = job := by
          rw [List.getElem?_append_right hge] at hi
          simpa [List.getElem?_singleton] using hi
        have htake : s.answers.take i = s.answers := List.take_of_length_le (by omega)
        rw [htake, ← h.js]
        exact hstart

theorem writeFn (h : Inv c j s) (he : (system c).Enabled s .writeFn) :
    Inv c j ((system c).next s .writeFn) := by
  obtain ⟨job, hpc⟩ := he
  obtain ⟨job', hslot, hpending, htaken, hpassed, hanswered, hworker, hcases⟩ :=
    h.phase.handing (by simp [hpc]) (by simp [hpc]) (by simp [hpc])
  obtain rfl : job = job' := by simpa [hpc] using hcases
  rw [next_writeFn hpc]
  refine ⟨h.box, h.out, h.order, .of_handing job ?_, h.js, h.jobs⟩
  exact ⟨hslot, hpending, htaken, hpassed, hanswered, hworker, .inr (.inl ⟨rfl, rfl⟩)⟩

theorem writeArgs (h : Inv c j s) (he : (system c).Enabled s .writeArgs) :
    Inv c j ((system c).next s .writeArgs) := by
  obtain ⟨job, hpc⟩ := he
  obtain ⟨job', hslot, hpending, htaken, hpassed, hanswered, hworker, hcases⟩ :=
    h.phase.handing (by simp [hpc]) (by simp [hpc]) (by simp [hpc])
  obtain ⟨rfl, hfn⟩ : job = job' ∧ s.fn = some job'.fn := by simpa [hpc] using hcases
  rw [next_writeArgs hpc]
  refine ⟨h.box, h.out, h.order, .of_handing job ?_, h.js, h.jobs⟩
  exact ⟨hslot, hpending, htaken, hpassed, hanswered, hworker, .inr (.inr ⟨rfl, hfn, rfl⟩)⟩

theorem send (h : Inv c j s) (hpc : s.pc = .send) : Inv c j ((system c).next s .send) := by
  obtain ⟨job, hslot, -, htaken, hpassed, hanswered, hworker, hcases⟩ :=
    h.phase.handing (by simp [hpc]) (by simp [hpc]) (by simp [hpc])
  obtain ⟨hfn, hargs⟩ : s.fn = some job.fn ∧ s.args = some (job.task, job.args) := by
    simpa [hpc] using hcases
  refine ⟨h.box, h.out, h.order, .of_pending job ?_, h.js, h.jobs⟩
  exact ⟨hslot, rfl, rfl, htaken, hpassed, hanswered, hworker, hfn, hargs⟩

theorem callbackReturn (h : Inv c j s) {t : Task Op} {r : Res} (hpc : s.pc = .callback t r) :
    Inv c j ((system c).next s .callbackReturn) := by
  obtain ⟨-, -, hpending, htaken, hpassed, hanswered, hworker, -⟩ := h.phase.calling hpc
  refine ⟨h.box, h.out, h.order, .of_free ?_, h.js, h.jobs⟩
  exact ⟨rfl, .inr rfl, hpending, htaken, hpassed, hanswered, .inr hworker⟩

/-- An operation the callback of which throws is stuck. -/
theorem stuck_callbackThrow (h : Inv c j s) {t : Task Op} {r : Res} (hpc : s.pc = .callback t r) :
    Stuck ((system c).next s .callbackThrow) := by
  obtain ⟨hslot, -, hpending, htaken, hpassed, hanswered, hworker, -⟩ := h.phase.calling hpc
  refine ⟨fun hnone => ?_, rfl, hpending, ?_, hpassed, hanswered, .inr hworker⟩
  · cases hslot.symm.trans hnone
  · exact htaken ▸ List.prefix_rfl

theorem callbackThrow (h : Inv c j s) {t : Task Op} {r : Res} (hpc : s.pc = .callback t r) :
    Inv c j ((system c).next s .callbackThrow) :=
  ⟨h.box, h.out, h.order, .of_stuck (h.stuck_callbackThrow hpc), h.js, h.jobs⟩

theorem leave (h : Inv c j s) (hpc : s.pc = .released) : Inv c j ((system c).next s .leave) := by
  obtain ⟨hslot, -, hrest⟩ := h.phase.free_of_released hpc
  exact ⟨h.box, h.out, h.order, .of_free ⟨hslot, .inl rfl, hrest⟩, h.js, h.jobs⟩

theorem wake (h : Inv c j s) (he : (system c).Enabled s .wake) :
    Inv c j ((system c).next s .wake) := by
  obtain ⟨hpending, hworker⟩ := he
  obtain ⟨job, hslot, hpc, -, htaken, hpassed, hanswered, -, hfn, hargs⟩ :=
    h.phase.pending hpending
  refine ⟨h.box, fun _ => h.out (by simp [hworker]), h.order, ?_, h.js, h.jobs⟩
  refine .of_reading job ⟨hslot, hpc, rfl, htaken, hpassed, hanswered, ?_⟩
  exact .inl ⟨rfl, hfn, hargs⟩

theorem readFn (h : Inv c j s) (hworker : s.worker = .woken) :
    Inv c j ((system c).next s .readFn) := by
  obtain ⟨job, hslot, hpc, hpending, htaken, hpassed, hanswered, hcases⟩ :=
    h.phase.reading (by simp [hworker]) (by simp [hworker])
  obtain ⟨hfn, hargs⟩ : s.fn = some job.fn ∧ s.args = some (job.task, job.args) := by
    simpa [hworker] using hcases
  rw [next_readFn hfn]
  refine ⟨h.box, fun _ => h.out (by simp [hworker]), h.order, ?_, h.js, h.jobs⟩
  refine .of_reading job ⟨hslot, hpc, hpending, htaken, hpassed, hanswered, ?_⟩
  exact .inr (.inl ⟨rfl, hargs⟩)

theorem readArgs (h : Inv c j s) {fn : Fn} (hworker : s.worker = .gotFn fn) :
    Inv c j ((system c).next s .readArgs) := by
  obtain ⟨job, hslot, hpc, hpending, htaken, hpassed, hanswered, hcases⟩ :=
    h.phase.reading (by simp [hworker]) (by simp [hworker])
  obtain ⟨rfl, hargs⟩ : fn = job.fn ∧ s.args = some (job.task, job.args) := by
    simpa [hworker] using hcases
  rw [next_readArgs hworker hargs]
  refine ⟨h.box, fun _ => h.out (by simp [hworker]), h.order, ?_, h.js, h.jobs⟩
  refine .of_reading job ⟨hslot, hpc, hpending, htaken, hpassed, hanswered, ?_⟩
  exact .inr (.inr rfl)

/-- The worker runs a job, and hands back its result. -/
theorem native (h : Inv c j s) {job : Job Op Fn Args} (hworker : s.worker = .run job) (r : Res) :
    Inv c j ((system c).next s (.native r)) := by
  obtain ⟨job', hslot, hpc, hpending, htaken, hpassed, ⟨hanswers, hran⟩, hcases⟩ :=
    h.phase.reading (by simp [hworker]) (by simp [hworker])
  obtain rfl : job = job' := by simpa [hworker] using hcases
  have hbox := h.box.next (e := .enter () (job.task, r)) (h.out (by simp [hworker]))
  rw [next_native hworker]
  refine ⟨hbox, fun hne => absurd rfl hne, h.order, ?_, h.js, h.jobs⟩
  refine .of_delivering job.task r ⟨hslot, hpc, hpending, htaken, ?_, ?_, ?_, rfl⟩
  · simp [hpassed]
  · simp [State.results, hanswers]
  · rw [Mailbox.next_enter]
    simp [hran]

/-- The main thread, woken up, finds the result of the operation having the slot
    of the queue. -/
theorem delivering_of_wake (h : Inv c j s) (he : (system c).Enabled s (.box .wake)) :
    ∃ t r, s.box.read = .running () (t, r) ∧ Delivering s t r := by
  obtain ⟨-, he, -⟩ := he
  obtain ⟨⟨⟩, x, hread, -, hlast⟩ := h.box.read_of_signal he.1
  -- a closure is left to run
  have hnot : ¬Answered s := fun ha => by
    have := ha.2.symm.trans hlast
    simp at this
  obtain ⟨t, r, hd⟩ : ∃ t r, Delivering s t r := by
    rcases h.phase with h | ⟨_, h⟩ | ⟨_, h⟩ | ⟨_, h⟩ | h | ⟨_, _, h⟩ | h
    · exact absurd h.2.2.2.2.2.1 hnot
    · exact absurd h.2.2.2.2.1 hnot
    · exact absurd h.2.2.2.2.2.1 hnot
    · exact absurd h.2.2.2.2.2.1 hnot
    · exact h
    · exact absurd h.2.2.2.2.2.1 hnot
    · exact absurd h.2.2.2.2.2.1 hnot
  obtain rfl : x = (t, r) := by simpa [hlast] using hd.2.2.2.2.2.2.1
  exact ⟨t, r, hread, hd⟩

/-- It calls its callback. -/
theorem box_wake (h : Inv c j s) (he : (system c).Enabled s (.box .wake)) :
    Inv c j ((system c).next s (.box .wake)) := by
  obtain ⟨t, r, hread, hslot, -, hpending, htaken, hpassed, hresults, hbox, hworker⟩ :=
    h.delivering_of_wake he
  rw [next_wake hread]
  refine ⟨h.box.next he.2.1, fun hne => absurd hworker hne, h.order, ?_, ?_, fun i job hi => ?_⟩
  · refine .of_calling t r
      ⟨hslot, rfl, hpending, htaken, hpassed, ⟨hresults.symm, ?_⟩, hworker, ?_⟩
    · rw [Mailbox.next_wake hread]
      simp [hbox]
    · exact ⟨(t, r), by rw [Mailbox.next_wake hread]⟩
  · simp [after, h.js]
  · have hlength : s.passed.length = s.answers.length + 1 := by
      have := congrArg List.length hresults
      simpa [hpassed, State.results] using this
    have hlt : i < s.passed.length := (List.getElem?_eq_some_iff.1 hi).1
    rw [List.take_append_of_le_length (by omega)]
    exact h.jobs i job hi

theorem box_step (h : Inv c j s) {e : Mailbox.Event Unit (Task Op × Res)} (hwake : e ≠ .wake)
    (he : (system c).Enabled s (.box e)) : Inv c j ((system c).next s (.box e)) := by
  obtain ⟨hinner, he, hmain⟩ := he
  have hpassed := Mailbox.passed_next (m := s.box) hinner
  have hran := Mailbox.ran_next (m := s.box) hwake
  rw [next_box hwake]
  refine ⟨h.box.next he, fun hne => Mailbox.out_next hinner (h.out hne), h.order, ?_, h.js, h.jobs⟩
  rcases h.phase with h | ⟨job, h⟩ | ⟨job, h⟩ | ⟨job, h⟩ | ⟨t, r, h⟩ | ⟨t, r, h⟩ | h
  · exact .of_free (by simpa only [Free, Past, Answered, State.results, hpassed, hran] using h)
  · exact .of_handing job (by simpa only [Handing, Answered, State.results, hpassed, hran] using h)
  · exact .of_pending job (by simpa only [Pending, Answered, State.results, hpassed, hran] using h)
  · exact .of_reading job (by simpa only [Reading, Answered, State.results, hpassed, hran] using h)
  · exact .of_delivering t r (by simpa only [Delivering, State.results, hpassed, hran] using h)
  · -- in a callback, the main thread does nothing else
    have hpc := h.2.1
    have hnot : ¬e.OfMain := fun hm => by simp [hmain hm] at hpc
    refine .of_calling t r ?_
    simpa only [Calling, Answered, State.results, hpassed, hran, Mailbox.main_next hnot] using h
  · exact .of_stuck (by simpa only [Stuck, Past, Answered, State.results, hpassed, hran] using h)

/-- The worker goes back to its loop. -/
theorem loop (h : Inv c j s) (he : (system c).Enabled s .loop) :
    Inv c j ((system c).next s .loop) := by
  obtain ⟨hworker, hout⟩ := he
  refine ⟨h.box, fun _ => hout, h.order, ?_, h.js, h.jobs⟩
  rcases h.phase with ⟨hslot, hpc, hp, ht, hpast⟩ | ⟨job, hslot, hp, ht, hpass, ha, -, hrest⟩ |
    ⟨job, hslot, hpc, hp, ht, hpass, ha, -, hrest⟩ | ⟨_, h'⟩ | ⟨_, _, h'⟩ | ⟨_, _, h'⟩ |
    ⟨hslot, hpc, hp, ht, hpast⟩
  · exact .of_free ⟨hslot, hpc, hp, ht, hpast.1, hpast.2.1, .inl rfl⟩
  · exact .of_handing job ⟨hslot, hp, ht, hpass, ha, .inl rfl, hrest⟩
  · exact .of_pending job ⟨hslot, hpc, hp, ht, hpass, ha, .inl rfl, hrest⟩
  · obtain ⟨-, -, -, -, -, -, h' | h' | h'⟩ := h' <;> simp [hworker] at h'
  · -- a closure is left to run, or runs, while the worker is in its call
    have := h.box.passed_eq_ran hout
    simp [h'.2.2.2.2.2.2.1] at this
  · obtain ⟨-, -, -, -, -, -, -, x, hx⟩ := h'
    rw [h.box.waiting_of_running hx] at hout
    cases hout
  · exact .of_stuck ⟨hslot, hpc, hp, ht, hpast.1, hpast.2.1, .inl rfl⟩

/-- Every event keeps the invariant. -/
theorem next (h : Inv c j s) {e : Event Op Res} (he : (system c).Enabled s e) :
    Inv c j ((system c).next s e) := by
  cases e with
  | addOperation op => exact h.addOperation op
  | process => exact h.process he
  | writeFn => exact h.writeFn he
  | writeArgs => exact h.writeArgs he
  | send => exact h.send he
  | callbackReturn =>
    obtain ⟨t, r, hpc⟩ := he
    exact h.callbackReturn hpc
  | callbackThrow =>
    obtain ⟨t, r, hpc⟩ := he
    exact h.callbackThrow hpc
  | leave => exact h.leave he
  | wake => exact h.wake he
  | readFn => exact h.readFn he
  | readArgs =>
    obtain ⟨fn, hworker⟩ := he
    exact h.readArgs hworker
  | native r =>
    obtain ⟨job, hworker⟩ := he
    exact h.native hworker r
  | box e =>
    by_cases hwake : e = .wake
    · subst hwake
      exact h.box_wake he
    · exact h.box_step hwake he
  | loop => exact h.loop he

/-- An operation gets stuck only by throwing. -/
theorem stuck_of_next (h : Inv c j s) {e : Event Op Res} (he : (system c).Enabled s e)
    (hthrow : NoThrow c s e) (hstuck : Stuck ((system c).next s e)) : Stuck s := by
  obtain ⟨hslot, hpc, hpending, htaken, hpast⟩ := id hstuck
  cases e with
  | addOperation op => exact hstuck
  | process =>
    obtain ⟨t, rest, ht⟩ := List.exists_cons_of_ne_nil he.2.1
    simp only [NoThrow, ht, List.head?_cons, Option.mem_some_iff, forall_eq'] at hthrow
    obtain ⟨⟨fn, args⟩, hjob⟩ := Option.ne_none_iff_exists'.1 hthrow
    rw [next_process_some ht hjob] at hpc
    cases hpc
  | writeFn =>
    obtain ⟨job, he⟩ := he
    rw [next_writeFn he] at hpc
    cases hpc
  | writeArgs =>
    obtain ⟨job, he⟩ := he
    rw [next_writeArgs he] at hpc
    cases hpc
  | send => cases hpending
  | callbackReturn => exact absurd rfl hslot
  | callbackThrow => exact hthrow.elim
  | leave => exact absurd (h.phase.free_of_released he).1 hslot
  | wake => exact absurd hpast.2.2 (by dsimp only [system]; simp)
  | readFn => exact absurd hpast.2.2 (by dsimp only [system]; split <;> simp)
  | readArgs => exact absurd hpast.2.2 (by dsimp only [system]; split <;> simp)
  | native r =>
    -- the callback of the job run has not been called
    obtain ⟨job, he⟩ := he
    obtain ⟨job', -, -, -, -, -, ⟨hanswers, -⟩, -⟩ := h.phase.reading (by simp [he]) (by simp [he])
    have hlength := congrArg List.length hpast.2.1.1
    rw [next_native he] at hlength
    simp [State.results, hanswers] at hlength
  | box e =>
    by_cases hwake : e = .wake
    · subst hwake
      obtain ⟨⟨⟩, ⟨t, r⟩, hread, -⟩ := h.box.read_of_signal he.2.1.1
      rw [next_wake hread] at hpc
      cases hpc
    · rw [next_box hwake] at hstuck
      simpa only [Stuck, Past, Answered, State.results, Mailbox.passed_next he.1,
        Mailbox.ran_next hwake] using hstuck
  | loop => exact ⟨hslot, hpc, hpending, htaken, hpast.1, hpast.2.1, .inr he.1⟩

/-- An operation that throws is stuck. -/
theorem stuck_of_throw (h : Inv c j s) {e : Event Op Res} (he : (system c).Enabled s e)
    (hthrow : ¬NoThrow c s e) : Stuck ((system c).next s e) := by
  cases e with
  | process =>
    obtain ⟨t, rest, ht⟩ := List.exists_cons_of_ne_nil he.2.1
    simp only [NoThrow, ht, List.head?_cons, Option.mem_some_iff, forall_eq', not_not] at hthrow
    exact h.stuck_process he.1 ht hthrow
  | callbackThrow =>
    obtain ⟨t, r, hpc⟩ := he
    exact h.stuck_callbackThrow hpc
  | _ => exact absurd trivial hthrow

/-- An operation that is stuck remains so, and no callback is called any more. -/
theorem stuck_next (h : Inv c j s) (hstuck : Stuck s) {e : Event Op Res}
    (he : (system c).Enabled s e) :
    Stuck ((system c).next s e) ∧ ((system c).next s e).answers = s.answers := by
  obtain ⟨hslot, hpc, hpending, htaken, hpassed, hanswered, hworker⟩ := id hstuck
  cases e with
  | addOperation op => exact ⟨hstuck, rfl⟩
  | process => exact absurd he.1 hslot
  | wake => exact absurd he.1 (by simp [hpending])
  | readFn => exact absurd hworker (by simp [show s.worker = .woken from he])
  | readArgs =>
    obtain ⟨fn, he⟩ := he
    simp [he] at hworker
  | native r =>
    obtain ⟨job, he⟩ := he
    simp [he] at hworker
  | box e =>
    by_cases hwake : e = .wake
    · -- the main thread is not signalled, as no closure is left to run
      subst hwake
      obtain ⟨⟨⟩, x, -, -, hlast⟩ := h.box.read_of_signal he.2.1.1
      simp [hanswered.2] at hlast
    · rw [next_box hwake]
      refine ⟨?_, rfl⟩
      simpa only [Stuck, Past, Answered, State.results, Mailbox.passed_next he.1,
        Mailbox.ran_next hwake] using hstuck
  | loop => exact ⟨⟨hslot, hpc, hpending, htaken, hpassed, hanswered, .inl rfl⟩, rfl⟩
  | _ =>
    dsimp only [system] at he
    simp [hpc] at he

/-- Once an operation is stuck, and the worker waits, nothing happens but adding
    operations. -/
theorem not_inner_of_stuck (h : Inv c j s) (hstuck : Stuck s) (hworker : s.worker = .wait)
    {e : Event Op Res} (he : (system c).Enabled s e) : ¬e.Inner := by
  obtain ⟨hslot, hpc, hpending, -, -⟩ := hstuck
  have hout := h.out (by simp [hworker])
  cases e with
  | addOperation op => exact id
  | process => exact absurd he.1 hslot
  | box e =>
    obtain ⟨hinner, he, -⟩ := he
    cases e with
    | enter t c => exact hinner.elim
    | wake =>
      obtain ⟨⟨⟩, x, -, hx, -⟩ := h.box.read_of_signal he.1
      simp [hout] at hx
    | ret =>
      obtain ⟨⟨⟩, x, hm⟩ := he
      simp [h.box.waiting_of_running hm] at hout
    | post =>
      obtain ⟨⟨⟩, hm⟩ := he
      obtain ⟨x, hx⟩ := h.box.waiting_of_ran hm
      simp [hout] at hx
    | _ =>
      dsimp only [Mailbox.system] at he
      simp [hout] at he
  | _ =>
    dsimp only [system] at he
    simp [hpc, hpending, hworker] at he

/-- Unless an operation is stuck, something may happen besides adding operations,
    a callback that throws aside, until no operation is left. -/
theorem exists_enabled [hres : Nonempty Res] (h : Inv c j s) (hstuck : ¬Stuck s)
    (hleft : s.slot ≠ none ∨ s.tasks ≠ []) :
    ∃ e, (system c).Enabled s e ∧ e.Inner ∧ e ≠ .callbackThrow := by
  -- the worker, handing back a result, gets back to its loop
  have hdeliver : s.worker = .deliver → s.pc = .rest →
      ∃ e, (system c).Enabled s e ∧ e.Inner ∧ e ≠ .callbackThrow := by
    intro hworker hpc
    by_cases hout : s.box.pc () = .out
    · exact ⟨.loop, ⟨hworker, hout⟩, trivial, nofun⟩
    · obtain ⟨e, he, henter⟩ := h.box.exists_enabled hout
      have hinner : e.Inner := by
        cases e with
        | enter t c => exact henter t c rfl
        | _ => trivial
      exact ⟨.box e, ⟨hinner, he, fun _ => hpc⟩, trivial, nofun⟩
  rcases h.phase with ⟨hslot, hpc, -, -, -, -, hworker⟩ |
    ⟨job, -, -, -, -, -, -, hcases⟩ | ⟨job, -, hpc, hpending, -, -, -, hworker, -⟩ |
    ⟨job, -, -, -, -, -, -, hcases⟩ | ⟨t, r, -, hpc, -, -, -, -, -, hworker⟩ |
    ⟨t, r, -, hpc, -⟩ | hstuck'
  · rcases hpc with hpc | hpc
    · rcases hworker with hworker | hworker
      · -- everything is idle, so that the next operation starts
        have hidle : s.box.main = .idle := by
          by_contra hm
          obtain ⟨⟨⟩, x, hx, -⟩ := h.box.exists_waiting fun hq => hm hq.2
          rw [h.out (by simp [hworker])] at hx
          cases hx
        have htasks : s.tasks ≠ [] := hleft.resolve_left fun hne => hne hslot
        exact ⟨.process, ⟨hslot, htasks, .inl ⟨hpc, hidle⟩⟩, trivial, nofun⟩
      · exact hdeliver hworker hpc
    · exact ⟨.leave, hpc, trivial, nofun⟩
  · rcases hcases with hpc | ⟨hpc, -⟩ | ⟨hpc, -⟩
    · exact ⟨.writeFn, ⟨job, hpc⟩, trivial, nofun⟩
    · exact ⟨.writeArgs, ⟨job, hpc⟩, trivial, nofun⟩
    · exact ⟨.send, hpc, trivial, nofun⟩
  · rcases hworker with hworker | hworker
    · exact ⟨.wake, ⟨hpending, hworker⟩, trivial, nofun⟩
    · exact hdeliver hworker hpc
  · rcases hcases with ⟨hworker, -⟩ | ⟨hworker, -⟩ | hworker
    · exact ⟨.readFn, hworker, trivial, nofun⟩
    · exact ⟨.readArgs, ⟨_, hworker⟩, trivial, nofun⟩
    · exact ⟨.native hres.some, ⟨job, hworker⟩, trivial, nofun⟩
  · exact hdeliver hworker hpc
  · exact ⟨.callbackReturn, ⟨t, r, hpc⟩, trivial, nofun⟩
  · exact absurd hstuck' hstuck

end Inv

/-! ## The work left -/

/-- The work left to the main thread, -/
def Pc.work : Pc Op Fn Args Res → ℕ
  | .rest => 0
  | .released => 1
  | .callback _ _ => 2
  | .send => 31
  | .writeArgs _ => 32
  | .writeFn _ => 33

/-- to the worker, -/
def WorkerPc.work : WorkerPc Op Fn Args → ℕ
  | .wait | .fault => 0
  | .deliver => 1
  | .run _ => 27
  | .gotFn _ => 28
  | .woken => 29

/-- and to both. -/
def work (s : State Op J Fn Args Res) : ℕ :=
  40 * s.tasks.length + s.pc.work + 30 * s.pending.toNat + s.worker.work + s.box.rank

variable {j : J} {s : State Op J Fn Args Res}

theorem work_addOperation (op : Op) :
    work ((system c).next s (.addOperation op)) = work s + 40 := by
  dsimp only [system]
  simp only [work, List.length_append, List.length_singleton]
  omega

/-- Every event, but adding an operation, does some of the work left. -/
theorem work_next (h : Inv c j s) {e : Event Op Res} (hinner : e.Inner)
    (he : (system c).Enabled s e) : work ((system c).next s e) < work s := by
  cases e with
  | addOperation op => exact hinner.elim
  | process =>
    obtain ⟨-, htasks, hpc⟩ := he
    obtain ⟨t, rest, ht⟩ := List.exists_cons_of_ne_nil htasks
    have hwork : s.pc.work ≤ 1 := by
      rcases hpc with ⟨hpc, -⟩ | hpc <;> simp [hpc, Pc.work]
    cases hstart : c.start s.js t.op with
    | none =>
      rw [next_process_none ht hstart]
      simp only [work, Pc.work, ht, List.length_cons]
      omega
    | some job =>
      rw [next_process_some ht hstart]
      simp only [work, Pc.work, ht, List.length_cons]
      omega
  | writeFn =>
    obtain ⟨job, hpc⟩ := he
    rw [next_writeFn hpc]
    simp [hpc, work, Pc.work]
  | writeArgs =>
    obtain ⟨job, hpc⟩ := he
    rw [next_writeArgs hpc]
    simp [hpc, work, Pc.work]
  | send =>
    have hpc : s.pc = .send := he
    dsimp only [system]
    simp only [hpc, work, Pc.work, Bool.toNat_true]
    omega
  | callbackReturn =>
    obtain ⟨t, r, hpc⟩ := he
    dsimp only [system]
    simp [hpc, work, Pc.work]
  | callbackThrow =>
    obtain ⟨t, r, hpc⟩ := he
    dsimp only [system]
    simp [hpc, work, Pc.work]
  | leave =>
    have hpc : s.pc = .released := he
    dsimp only [system]
    simp [hpc, work, Pc.work]
  | wake =>
    obtain ⟨hpending, hworker⟩ := he
    dsimp only [system]
    simp [hpending, hworker, work, WorkerPc.work]
  | readFn =>
    have hworker : s.worker = .woken := he
    dsimp only [system]
    cases hfn : s.fn <;> simp [hworker, work, WorkerPc.work]
  | readArgs =>
    obtain ⟨fn, hworker⟩ := he
    dsimp only [system]
    cases hargs : s.args <;> simp [hworker, work, WorkerPc.work]
  | native r =>
    obtain ⟨job, hworker⟩ := he
    have hout := h.out (by simp [hworker])
    rw [next_native hworker, Mailbox.next_enter]
    simp [hworker, work, WorkerPc.work, Mailbox.rank, hout]
  | box e =>
    obtain ⟨hinner, he, hmain⟩ := he
    by_cases hwake : e = .wake
    · subst hwake
      have hrank := Mailbox.rank_wake h.box he
      obtain ⟨⟨⟩, ⟨t, r⟩, hread, -⟩ := h.box.read_of_signal he.1
      rw [next_wake hread]
      simp only [work, Pc.work]
      omega
    · have hrank := Mailbox.rank_next h.box hinner he
      rw [next_box hwake]
      simp only [work]
      omega
  | loop =>
    obtain ⟨hworker, -⟩ := he
    dsimp only [system]
    simp [hworker, work, WorkerPc.work]

/-- Operations are only added by `addOperation`. -/
theorem added_next {e : Event Op Res} (he : e.Inner) : ((system c).next s e).added = s.added := by
  cases e with
  | addOperation op => exact he.elim
  | process =>
    dsimp only [system, process]
    split
    · rfl
    · split <;> rfl
  | box e =>
    by_cases hwake : e = .wake
    · subst hwake
      dsimp only [system, deliver]
      split <;> rfl
    · rw [next_box hwake]
  | writeFn | writeArgs | native =>
    dsimp only [system]
    split <;> rfl
  | _ => rfl

theorem added_run {es : List (Event Op Res)} (hes : ∀ e ∈ es, e.Inner) :
    ((system c).run s es).added = s.added := by
  induction es generalizing s with
  | nil => rfl
  | cons e es ih =>
    rw [List.forall_mem_cons] at hes
    exact (ih hes.2).trans (added_next hes.1)

/-- A run is not longer than what the operations added in it, and the work left
    before it, take. -/
theorem length_le {es : List (Event Op Res)} (h : Inv c j s) (hrun : (system c).IsRun s es) :
    es.length + work ((system c).run s es) + 41 * s.added.length ≤
      work s + 41 * ((system c).run s es).added.length := by
  -- An operation that is added makes 40 units of work, and is itself an event.
  induction es generalizing s with
  | nil => simp [System.run]
  | cons e es ih =>
    have hih := ih (h.next hrun.1) hrun.2
    simp only [System.run, List.foldl_cons, List.length_cons] at hih ⊢
    by_cases hinner : e.Inner
    · have hwork := work_next h hinner hrun.1
      rw [added_next hinner] at hih
      omega
    · obtain ⟨op, rfl⟩ : ∃ op, e = .addOperation op := by
        cases e with
        | addOperation op => exact ⟨op, rfl⟩
        | _ => exact absurd trivial hinner
      rw [work_addOperation] at hih
      dsimp only [system] at hih ⊢
      rw [List.length_append, List.length_singleton] at hih
      omega

/-- In a run without throws, no operation is stuck. -/
theorem inv_of_noThrow {es : List (Event Op Res)} (h : Inv c j s) (hstuck : ¬Stuck s)
    (hrun : (system c).IsRun s es) (hthrow : (system c).Along (NoThrow c) s es) :
    Inv c j ((system c).run s es) ∧ ¬Stuck ((system c).run s es) := by
  induction es generalizing s with
  | nil => exact ⟨h, hstuck⟩
  | cons e es ih =>
    refine ih (h.next hrun.1) (fun hnext => ?_) hrun.2 hthrow.2
    exact hstuck (h.stuck_of_next hrun.1 hthrow.1 hnext)

theorem answers_run_of_stuck {es : List (Event Op Res)} (h : Inv c j s) (hstuck : Stuck s)
    (hrun : (system c).IsRun s es) : ((system c).run s es).answers = s.answers := by
  induction es generalizing s with
  | nil => rfl
  | cons e es ih =>
    obtain ⟨hnext, hanswers⟩ := h.stuck_next hstuck hrun.1
    exact (ih (h.next hrun.1) hnext hrun.2).trans hanswers

/-- The events which neither start an operation, nor run a job, nor call a
    callback. -/
def Event.Silent : Event Op Res → Prop
  | .process | .native _ | .box .wake => False
  | _ => True

/-- They leave the state of the client, and what is recorded of jobs and results. -/
theorem log_next {e : Event Op Res} (he : e.Silent) :
    ((system c).next s e).js = s.js ∧ ((system c).next s e).passed = s.passed ∧
      ((system c).next s e).natives = s.natives ∧ ((system c).next s e).answers = s.answers := by
  cases e with
  | process | native => exact he.elim
  | box e =>
    have hwake : e ≠ .wake := by
      rintro rfl
      exact he
    rw [next_box hwake]
    exact ⟨rfl, rfl, rfl, rfl⟩
  | writeFn | writeArgs =>
    dsimp only [system]
    split <;> exact ⟨rfl, rfl, rfl, rfl⟩
  | _ => exact ⟨rfl, rfl, rfl, rfl⟩

theorem not_stuck_init : ¬Stuck (init j : State Op J Fn Args Res) := fun h => h.1 rfl

end Worker

end NodeLkl
