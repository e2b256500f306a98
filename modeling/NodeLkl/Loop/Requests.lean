import NodeLkl.Base.Mailbox
import NodeLkl.Disk.Wrapper

/-!
# Calls into JavaScript

LKL threads make requests to disks in JavaScript (`js_request_entry`,
`js_get_capacity_entry`), and the worker thread delivers the results of
operations: they all have closures run by the main thread, through
`run_on_default_loop` (`NodeLkl.Base.Mailbox`). The closure of a request makes a
callback, a JavaScript function having the address of the state of the request,
which is on the stack of its thread; the thread then waits for a semaphore in
that state. Calling the callback computes the result of the request, and posts
the semaphore. JavaScript may call callbacks at any time, any number of times:
a callback forgets the address of the state before using it.

The state of a request is that of its thread (`State.frame`), as long as the
request lasts; using one that is not there is a fault (`Js.fault`). Requests are
numbered in the order they are made, only to tell them apart.

* Every closure is run once, before its call returns; a request returns what the
  first call of its own callback computes; the state of a request is not used
  after it has returned (`Sound`).
* `sound_of_isRun`: this holds for any number of threads, in every run.
-/

namespace NodeLkl

namespace Requests

/-- The functions run on the main loop: `request`, `get_capacity`, and those
    delivering the result of an operation. -/
inductive Fn
  | request
  | getCapacity
  | completion
  deriving DecidableEq

/-- A function run on the main loop, for the call `serial`. -/
structure Closure where
  fn : Fn
  serial : ℕ
  deriving DecidableEq

/-- The state of a call: what it returns (`ret`, and `res` for a capacity), and
    its semaphore. -/
structure Frame where
  closure : Closure
  ret : ℤ
  res : ℕ
  jsSem : ℕ

/-- A function made by `make_callback`: its data, which are the function to call
    (of the request `closure`) and the state to call it with, that of the thread
    `t`. The arguments of its first call are recorded. -/
structure Callback (T : Type*) where
  data : Option (Fn × T)
  closure : Closure
  first : Option (List JsValue)

/-- What the main thread does in a callback: nothing, computing the result of
    the request of `t`, about to post its semaphore; or using a state that is not
    there. -/
inductive Js (T : Type*)
  | idle
  | done (fn : Fn) (t : T) (info : List JsValue)
  | posting (t : T)
  | fault

/-- What a call has returned. -/
structure Return (T : Type*) where
  thread : T
  closure : Closure
  ret : ℤ
  res : ℕ

structure State (T : Type*) where
  box : Mailbox T Closure
  frame : T → Option Frame
  callbacks : ℕ → Option (Callback T)
  made : ℕ
  js : Js T
  calls : List (T × Fn)
  returned : List (Return T)

/-- The events. A call begins (with uninitialised `ret` and `res`), takes a step
    in `run_on_default_loop`, and finishes; JavaScript calls a callback, which
    computes the result, and posts. -/
inductive Event (T : Type*)
  | call (t : T) (fn : Fn) (ret : ℤ) (res : ℕ)
  | box (e : Mailbox.Event T Closure)
  | invoke (i : ℕ) (info : List JsValue)
  | done
  | post
  | finish (t : T)

variable {T : Type*}

/-- Initially, no call has been made. -/
def init : State T where
  box := .init
  frame _ := none
  callbacks _ := none
  made := 0
  js := .idle
  calls := []
  returned := []

/-- The result of a request, stored in its state: `request_done`,
    `get_capacity_done`. -/
def Fn.store (fn : Fn) (info : List JsValue) (f : Frame) : Frame :=
  match fn with
  | .request => { f with ret := requestDone info }
  | .getCapacity => { f with ret := (getCapacityDone info).1, res := (getCapacityDone info).2 }
  | .completion => f

/-- What is returned is what the callback computes, called with `info`. -/
def Fn.Computes (fn : Fn) (info : List JsValue) (ret : ℤ) (res : ℕ) : Prop :=
  match fn with
  | .request => ret = requestDone info
  | .getCapacity => (ret, res) = getCapacityDone info
  | .completion => True

@[simp]
theorem closure_store (fn : Fn) (info : List JsValue) (f : Frame) :
    (fn.store info f).closure = f.closure := by
  cases fn <;> rfl

@[simp]
theorem jsSem_store (fn : Fn) (info : List JsValue) (f : Frame) :
    (fn.store info f).jsSem = f.jsSem := by
  cases fn <;> rfl

theorem computes_store (fn : Fn) (info : List JsValue) (f : Frame) :
    fn.Computes info (fn.store info f).ret (fn.store info f).res := by
  cases fn with
  | request => rfl
  | getCapacity => rfl
  | completion => trivial

variable [DecidableEq T]

/-- The closure `c` of the thread `t` starts: it uses its state; that of a
    request makes a callback. -/
def start (s : State T) (t : T) (c : Closure) : State T :=
  match s.frame t with
  | none => { s with js := .fault }
  | some _ => match c.fn with
    | .completion => s
    | fn => { s with
        callbacks := Function.update s.callbacks s.made (some ⟨some (fn, t), c, none⟩)
        made := s.made + 1 }

/-- What a step of `run_on_default_loop` does outside of it. -/
def outside (s : State T) : Mailbox.Event T Closure → State T
  | .wake => match s.box.read with
    | .running t c => start s t c
    | _ => s
  | _ => s

/-- `callback_wrapper`: the data are deleted, and the function in them called. -/
def callbackWrapper (s : State T) (i : ℕ) (info : List JsValue) : State T :=
  match s.callbacks i with
  | none => s
  | some k => { s with
      callbacks := Function.update s.callbacks i
        (some { k with data := none, first := k.first.or (some info) })
      js := match k.data with
        | some (fn, t) => .done fn t info
        -- the data were deleted: the call does nothing
        | none => s.js }

/-- The state of the thread `t` is used: `g` is done to it, and the main thread
    goes on to `js`. -/
def useFrame (s : State T) (t : T) (g : Frame → Frame) (js : Js T) : State T :=
  match s.frame t with
  | none => { s with js := .fault }
  | some f => { s with frame := Function.update s.frame t (some (g f)), js := js }

/-- Calls into JavaScript, by the threads `T`. -/
def system (T : Type*) [DecidableEq T] : System (State T) (Event T) where
  Enabled s
    | .call t _ _ _ => s.frame t = none
    | .box e => e.Inner ∧ (Mailbox.system T Closure).Enabled s.box e ∧ (e.OfMain → s.js = .idle)
    | .invoke i _ => (s.callbacks i).isSome ∧ s.js = .idle ∧
        (s.box.main = .idle ∨ ∃ t c, s.box.main = .running t c)
    | .done => ∃ fn t info, s.js = .done fn t info
    | .post => ∃ t, s.js = .posting t
    | .finish t => s.box.pc t = .out ∧
        ∃ f, s.frame t = some f ∧ (f.closure.fn = .completion ∨ 0 < f.jsSem)
  next s
    | .call t fn ret res => { s with
        box := (Mailbox.system T Closure).next s.box (.enter t ⟨fn, s.calls.length⟩)
        frame := Function.update s.frame t (some ⟨⟨fn, s.calls.length⟩, ret, res, 0⟩)
        calls := s.calls ++ [(t, fn)] }
    | .box e => { outside s e with box := (Mailbox.system T Closure).next s.box e }
    | .invoke i info => callbackWrapper s i info
    | .done => match s.js with
      | .done fn t info => useFrame s t (fn.store info) (.posting t)
      | _ => s
    | .post => match s.js with
      | .posting t => useFrame s t (fun f => { f with jsSem := f.jsSem + 1 }) .idle
      | _ => s
    | .finish t => match s.frame t with
      | none => s
      | some f => { s with
          frame := Function.update s.frame t none
          returned := s.returned ++ [⟨t, f.closure, f.ret, f.res⟩] }

/-! ## The steps -/

section Steps

variable {s : State T}

theorem next_call (t : T) (fn : Fn) (ret : ℤ) (res : ℕ) :
    (system T).next s (.call t fn ret res) = { s with
      box := { s.box with
        pc := Function.update s.box.pc t (.locking ⟨fn, s.calls.length⟩)
        passed := Function.update s.box.passed t (s.box.passed t ++ [⟨fn, s.calls.length⟩]) }
      frame := Function.update s.frame t (some ⟨⟨fn, s.calls.length⟩, ret, res, 0⟩)
      calls := s.calls ++ [(t, fn)] } := rfl

theorem next_box (e : Mailbox.Event T Closure) : (system T).next s (.box e) =
    { outside s e with box := (Mailbox.system T Closure).next s.box e } := rfl

omit [DecidableEq T] in
theorem outside_wake {t : T} {c : Closure} (hread : s.box.read = .running t c) :
    outside s .wake = start s t c := by
  dsimp only [outside]
  rw [hread]

/-- A callback is called for the first time. -/
theorem next_invoke {i : ℕ} {k : Callback T} {fn : Fn} {t : T} (hk : s.callbacks i = some k)
    (hdata : k.data = some (fn, t)) (hfirst : k.first = none) (info : List JsValue) :
    (system T).next s (.invoke i info) = { s with
      callbacks := Function.update s.callbacks i (some { k with data := none, first := some info })
      js := .done fn t info } := by
  change callbackWrapper s i info = _
  simp only [callbackWrapper, hk, hdata, hfirst, Option.none_or]

theorem next_done {fn : Fn} {t : T} {info : List JsValue} (hjs : s.js = .done fn t info) :
    (system T).next s .done = useFrame s t (fn.store info) (.posting t) := by
  dsimp only [system]
  rw [hjs]

theorem next_post {t : T} (hjs : s.js = .posting t) : (system T).next s .post =
    useFrame s t (fun f => { f with jsSem := f.jsSem + 1 }) .idle := by
  dsimp only [system]
  rw [hjs]

theorem next_finish {t : T} {f : Frame} (hf : s.frame t = some f) :
    (system T).next s (.finish t) = { s with
      frame := Function.update s.frame t none
      returned := s.returned ++ [⟨t, f.closure, f.ret, f.res⟩] } := by
  dsimp only [system]
  rw [hf]

end Steps

/-! ## What is required -/

/-- The first call of the callback made for `c` was with `info`. -/
def First (s : State T) (c : Closure) (info : List JsValue) : Prop :=
  ∃ i k, s.callbacks i = some k ∧ k.closure = c ∧ k.first = some info

/-- Calls into JavaScript are neither lost, nor run twice, nor mixed up. -/
structure Sound (s : State T) : Prop where
  /-- The closures passed are those of the calls made, each of them once. -/
  passed : ∀ t, (s.box.passed t).Nodup ∧
    ∀ c, c ∈ s.box.passed t ↔ s.calls[c.serial]? = some (t, c.fn)
  /-- A closure is run once, before `run_on_default_loop` returns. -/
  ran : ∀ t, s.box.pc t = .out → s.box.ran t = s.box.passed t
  /-- A call returns after its closure is run, and a request what the first call
      of its own callback computes, of which there is one. -/
  returned : ∀ r ∈ s.returned, r.closure ∈ s.box.ran r.thread ∧
    (r.closure.fn ≠ .completion → ∃ info, First s r.closure info ∧
      r.closure.fn.Computes info r.ret r.res)
  unique : ∀ i j k l, s.callbacks i = some k → s.callbacks j = some l →
    k.closure = l.closure → i = j
  /-- No state is used that is not there. -/
  box_ne_fault : s.box.main ≠ .fault
  js_ne_fault : s.js ≠ .fault
  /-- A callback which has not been called has the state of its own request. -/
  live : ∀ i k, s.callbacks i = some k → k.first = none →
    ∃ t f, k.data = some (k.closure.fn, t) ∧ s.frame t = some f ∧ f.closure = k.closure
  /-- The state being used is that of the request the callback is called for. -/
  own : ∀ fn t info, s.js = .done fn t info →
    ∃ f, s.frame t = some f ∧ f.closure.fn = fn ∧ First s f.closure info
  own_posting : ∀ t, s.js = .posting t → ∃ f info, s.frame t = some f ∧ First s f.closure info
  /-- Calling a callback again does nothing. -/
  ignored : ∀ i k info, s.callbacks i = some k → k.first ≠ none →
    (system T).next s (.invoke i info) = s
  /-- A call never gets stuck in `run_on_default_loop`, -/
  progress : ∀ t, s.box.pc t ≠ .out → ∃ e, (system T).Enabled s e ∧
    (e = .done ∨ e = .post ∨ ∃ e', e = .box e')
  /-- nor a request the callback of which has been called. -/
  finishes : ∀ t f info, s.frame t = some f → First s f.closure info → s.box.pc t = .out →
    s.js = .idle → (system T).Enabled s (.finish t)

/-! ## The invariant -/

theorem update_some_eq_some {α β : Type*} [DecidableEq α] {f : α → Option β} {a b : α} {x y : β} :
    Function.update f a (some x) b = some y ↔ (b = a ∧ y = x) ∨ (b ≠ a ∧ f b = some y) := by
  by_cases h : b = a
  · subst h
    simp [eq_comm]
  · simp [h]

theorem update_none_eq_some {α β : Type*} [DecidableEq α] {f : α → Option β} {a b : α} {y : β} :
    Function.update f a none b = some y ↔ b ≠ a ∧ f b = some y := by
  by_cases h : b = a
  · subst h
    simp
  · simp [h]

variable {s : State T}

/-- The main thread is using the state of `t`. -/
def Js.Uses (t : T) : Js T → Prop
  | .done _ u _ | .posting u => u = t
  | _ => False

/-- How far the request with the state `f` has got: its callback has not been
    called, or its result is about to be stored, or it is, and its semaphore
    about to be posted, or it is. -/
def Stage (s : State T) (t : T) (f : Frame) : Prop :=
  ((∀ info, ¬First s f.closure info) ∧ f.jsSem = 0 ∧ ¬s.js.Uses t) ∨
    ∃ info, First s f.closure info ∧
      ((s.js = .done f.closure.fn t info ∧ f.jsSem = 0) ∨
        (f.closure.fn.Computes info f.ret f.res ∧
          ((s.js = .posting t ∧ f.jsSem = 0) ∨ (f.jsSem = 1 ∧ ¬s.js.Uses t))))

omit [DecidableEq T] in
/-- The calls made, one more being made. -/
theorem getElem?_calls_concat (calls : List (T × Fn)) (t : T) (fn : Fn) (c : Closure) (u : T) :
    (calls ++ [(t, fn)])[c.serial]? = some (u, c.fn) ↔
      calls[c.serial]? = some (u, c.fn) ∨ c = ⟨fn, calls.length⟩ ∧ u = t := by
  obtain ⟨fn', n⟩ := c
  rcases lt_trichotomy n calls.length with hn | rfl | hn
  · simp [List.getElem?_append_left hn, hn.ne]
  · simp [eq_comm, and_comm]
  · have hnone : (calls ++ [(t, fn)])[n]? = none := by
      rw [List.getElem?_eq_none_iff, List.length_append, List.length_singleton]
      exact hn
    simp only [hnone, List.getElem?_eq_none hn.le, Closure.mk.injEq, hn.ne', and_false, false_and,
      or_false, reduceCtorEq]

omit [DecidableEq T] in
/-- What the first calls were with, a callback being called for the first time. -/
theorem first_invoke {i : ℕ} {k : Callback T} (hk : s.callbacks i = some k)
    (hnone : k.first = none) (info : List JsValue) (js : Js T) (c : Closure)
    (info' : List JsValue) :
    First { s with
      callbacks := Function.update s.callbacks i (some { k with data := none, first := some info })
      js := js } c info' ↔ First s c info' ∨ (c = k.closure ∧ info' = info) := by
  constructor
  · rintro ⟨j, l, hl, hlc, hinfo⟩
    rcases update_some_eq_some.1 hl with ⟨-, rfl⟩ | ⟨-, hl⟩
    · exact .inr ⟨hlc.symm, (Option.some.inj hinfo).symm⟩
    · exact .inl ⟨j, l, hl, hlc, hinfo⟩
  · rintro (⟨j, l, hl, hlc, hinfo⟩ | ⟨rfl, rfl⟩)
    · have hj : j ≠ i := by
        rintro rfl
        rw [hk] at hl
        cases hl
        rw [hnone] at hinfo
        cases hinfo
      exact ⟨j, l, update_some_eq_some.2 (.inr ⟨hj, hl⟩), hlc, hinfo⟩
    · exact ⟨i, _, Function.update_self .., rfl, rfl⟩

structure Inv (s : State T) : Prop where
  box : s.box.Inv
  passed : ∀ t, (s.box.passed t).Nodup ∧
    ∀ c, c ∈ s.box.passed t ↔ s.calls[c.serial]? = some (t, c.fn)
  frame : ∀ t f, s.frame t = some f → f.closure ∈ s.box.passed t
  closure : ∀ t c, (s.box.pc t).closure = some c → ∃ f, s.frame t = some f ∧ f.closure = c
  ran : ∀ i k, s.callbacks i = some k → ∃ t, k.closure ∈ s.box.ran t
  made : ∀ i, s.made ≤ i → s.callbacks i = none
  unique : ∀ i j k l, s.callbacks i = some k → s.callbacks j = some l →
    k.closure = l.closure → i = j
  data : ∀ i k, s.callbacks i = some k →
    (∃ t f, k.first = none ∧ k.data = some (k.closure.fn, t) ∧ s.frame t = some f ∧
      f.closure = k.closure) ∨ (k.data = none ∧ ∃ info, k.first = some info)
  fn : ∀ i k, s.callbacks i = some k → k.closure.fn ≠ .completion
  js : s.js ≠ .fault
  uses : ∀ t, s.js.Uses t → ∃ f, s.frame t = some f
  stage : ∀ t f, s.frame t = some f → Stage s t f
  returned : ∀ r ∈ s.returned, r.closure ∈ s.box.ran r.thread ∧
    (r.closure.fn ≠ .completion → ∃ info, First s r.closure info ∧
      r.closure.fn.Computes info r.ret r.res)

section

omit [DecidableEq T]

theorem inv_init : Inv (init : State T) where
  box := Mailbox.inv_init
  passed _ := by simp [init, Mailbox.init]
  frame _ _ h := by cases h
  closure _ _ h := by cases h
  ran _ _ h := by cases h
  made _ _ := rfl
  unique _ _ _ _ h := by cases h
  data _ _ h := by cases h
  fn _ _ h := by cases h
  js := nofun
  uses _ h := h.elim
  stage _ _ h := by cases h
  returned _ h := by cases h

namespace Inv

/-- The closure of a call is a new one. -/
theorem fresh (h : Inv s) (fn : Fn) (t : T) : ⟨fn, s.calls.length⟩ ∉ s.box.passed t := by
  intro ht
  have hcalls := ((h.passed t).2 _).1 ht
  simp at hcalls

/-- Calls have different closures. -/
theorem thread_unique (h : Inv s) {t u : T} {c : Closure} (ht : c ∈ s.box.passed t)
    (hu : c ∈ s.box.passed u) : t = u := by
  have hcalls := ((h.passed t).2 c).1 ht
  rw [((h.passed u).2 c).1 hu] at hcalls
  exact (congrArg Prod.fst (Option.some.inj hcalls)).symm

/-- A callback which has not been called is that of a request whose result is
    not known. -/
theorem not_first (h : Inv s) {i : ℕ} {k : Callback T} (hk : s.callbacks i = some k)
    (hfirst : k.first = none) (info : List JsValue) : ¬First s k.closure info := by
  rintro ⟨j, l, hl, hc, hinfo⟩
  obtain rfl := h.unique j i l k hl hk hc
  rw [hk] at hl
  cases hl
  rw [hfirst] at hinfo
  cases hinfo

/-- A step in `run_on_default_loop`, and nowhere else. -/
theorem of_box (h : Inv s) {b : Mailbox T Closure} (hb : b.Inv) (hpassed : b.passed = s.box.passed)
    (hclosure : ∀ t c, (b.pc t).closure = some c → (s.box.pc t).closure = some c)
    (hran : ∀ t, s.box.ran t ⊆ b.ran t) : Inv { s with box := b } :=
  { h with
    box := hb
    passed := by simpa only [hpassed] using h.passed
    frame := by simpa only [hpassed] using h.frame
    closure := fun t c hc => h.closure t c (hclosure t c hc)
    ran := fun i k hk => (h.ran i k hk).imp fun t ht => hran t ht
    returned := fun r hr => ⟨hran _ (h.returned r hr).1, (h.returned r hr).2⟩ }

/-- A callback is made. -/
theorem make (h : Inv s) {t : T} {f : Frame} (hf : s.frame t = some f)
    (hfn : f.closure.fn ≠ .completion) (hran : f.closure ∈ s.box.ran t)
    (hnew : ∀ i k, s.callbacks i = some k → k.closure ≠ f.closure) :
    Inv { s with
      callbacks := Function.update s.callbacks s.made
        (some ⟨some (f.closure.fn, t), f.closure, none⟩)
      made := s.made + 1 } := by
  have hold : ∀ {i k}, s.callbacks i = some k → i ≠ s.made := by
    rintro i k hk rfl
    rw [h.made _ le_rfl] at hk
    cases hk
  have hfirst : ∀ c info, First { s with
      callbacks := Function.update s.callbacks s.made
        (some ⟨some (f.closure.fn, t), f.closure, none⟩)
      made := s.made + 1 } c info ↔ First s c info := by
    intro c info
    constructor
    · rintro ⟨i, k, hk, hc, hinfo⟩
      rcases update_some_eq_some.1 hk with ⟨-, rfl⟩ | ⟨-, hk⟩
      · cases hinfo
      · exact ⟨i, k, hk, hc, hinfo⟩
    · rintro ⟨i, k, hk, hc, hinfo⟩
      exact ⟨i, k, update_some_eq_some.2 (.inr ⟨hold hk, hk⟩), hc, hinfo⟩
  refine { h with
    ran := fun i k hk => ?_, made := fun i hi => ?_, unique := fun i j k l hk hl hc => ?_,
    data := fun i k hk => ?_, fn := fun i k hk => ?_, stage := fun u g hg => ?_,
    returned := fun r hr => ?_ }
  · rcases update_some_eq_some.1 hk with ⟨-, rfl⟩ | ⟨-, hk⟩
    · exact ⟨t, hran⟩
    · exact h.ran i k hk
  · have hlt : s.made < i := hi
    simpa [Function.update_of_ne hlt.ne'] using h.made i hlt.le
  · rcases update_some_eq_some.1 hk with ⟨rfl, rfl⟩ | ⟨-, hk⟩ <;>
      rcases update_some_eq_some.1 hl with ⟨rfl, rfl⟩ | ⟨-, hl⟩
    · rfl
    · exact absurd hc.symm (hnew j l hl)
    · exact absurd hc (hnew i k hk)
    · exact h.unique i j k l hk hl hc
  · rcases update_some_eq_some.1 hk with ⟨-, rfl⟩ | ⟨-, hk⟩
    · exact .inl ⟨t, f, rfl, rfl, hf, rfl⟩
    · exact h.data i k hk
  · rcases update_some_eq_some.1 hk with ⟨-, rfl⟩ | ⟨-, hk⟩
    · exact hfn
    · exact h.fn i k hk
  · simpa only [Stage, hfirst] using h.stage u g hg
  · simpa only [hfirst] using h.returned r hr

/-- Calling a callback again does nothing. -/
theorem callbackWrapper_of_first (h : Inv s) {i : ℕ} {k : Callback T} (hk : s.callbacks i = some k)
    (hfirst : k.first ≠ none) (info : List JsValue) : callbackWrapper s i info = s := by
  rcases h.data i k hk with ⟨_, _, hnone, -⟩ | ⟨hdata, info', hinfo⟩
  · exact absurd hnone hfirst
  · have heq : ({ k with data := none, first := k.first.or (some info) } : Callback T) = k := by
      obtain ⟨data, c, first⟩ := k
      obtain rfl : data = none := hdata
      obtain rfl : first = some info' := hinfo
      rfl
    have hupdate : Function.update s.callbacks i (some k) = s.callbacks :=
      Function.update_eq_self_iff.2 hk.symm
    simp only [callbackWrapper, hk, heq, hdata, hupdate]

end Inv

end

namespace Inv

/-- A call begins. -/
theorem call (h : Inv s) {t : T} {fn : Fn} {ret : ℤ} {res : ℕ} (ht : s.frame t = none) :
    Inv ((system T).next s (.call t fn ret res)) := by
  have hother : ∀ {u f}, s.frame u = some f → u ≠ t := by
    rintro u f hf rfl
    rw [ht] at hf
    cases hf
  have hout : s.box.pc t = .out := by
    cases hpc : s.box.pc t with
    | out => rfl
    | _ =>
      obtain ⟨f, hf, -⟩ := h.closure t _ (by rw [hpc]; rfl)
      exact absurd rfl (hother hf)
  have hnot : ∀ info, ¬First s ⟨fn, s.calls.length⟩ info := by
    rintro info ⟨i, k, hk, hc, -⟩
    obtain ⟨u, hu⟩ := h.ran i k hk
    exact h.fresh fn u (hc ▸ h.box.ran_subset_passed u hu)
  rw [next_call]
  refine { h with
    box := h.box.enter _ hout, passed := fun u => ?_, frame := fun u f hf => ?_,
    closure := fun u c hc => ?_, data := fun i k hk => ?_, uses := fun u hu => ?_,
    stage := fun u f hf => ?_ }
  · simp only [getElem?_calls_concat]
    by_cases hut : u = t
    · subst hut
      rw [Function.update_self]
      refine ⟨?_, fun c => ?_⟩
      · rw [List.nodup_append]
        refine ⟨(h.passed u).1, List.pairwise_singleton .., fun c hc c' hc' heq => ?_⟩
        exact h.fresh fn u (List.mem_singleton.1 hc' ▸ heq ▸ hc)
      · rw [List.mem_append, List.mem_singleton, (h.passed u).2, and_iff_left rfl]
    · rw [Function.update_of_ne hut]
      simpa only [hut, and_false, or_false] using h.passed u
  · rcases update_some_eq_some.1 hf with ⟨rfl, rfl⟩ | ⟨hut, hf⟩
    · dsimp only
      rw [Function.update_self]
      exact List.mem_append_right _ (List.mem_singleton_self _)
    · dsimp only
      rw [Function.update_of_ne hut]
      exact h.frame u f hf
  · dsimp only at hc
    by_cases hut : u = t
    · subst hut
      rw [Function.update_self] at hc
      exact ⟨_, Function.update_self .., Option.some.inj hc⟩
    · rw [Function.update_of_ne hut] at hc
      obtain ⟨f, hf, hfc⟩ := h.closure u c hc
      exact ⟨f, update_some_eq_some.2 (.inr ⟨hut, hf⟩), hfc⟩
  · rcases h.data i k hk with ⟨u, f, hfirst, hdata, hf, hc⟩ | hdone
    · exact .inl ⟨u, f, hfirst, hdata, update_some_eq_some.2 (.inr ⟨hother hf, hf⟩), hc⟩
    · exact .inr hdone
  · obtain ⟨f, hf⟩ := h.uses u hu
    exact ⟨f, update_some_eq_some.2 (.inr ⟨hother hf, hf⟩)⟩
  · rcases update_some_eq_some.1 hf with ⟨rfl, rfl⟩ | ⟨-, hf⟩
    · refine .inl ⟨hnot, rfl, fun hu => ?_⟩
      obtain ⟨f, hf⟩ := h.uses u hu
      exact hother hf rfl
    · exact h.stage u f hf

/-- A step in `run_on_default_loop`. -/
theorem step_box (h : Inv s) {e : Mailbox.Event T Closure}
    (he : (system T).Enabled s (.box e)) : Inv ((system T).next s (.box e)) := by
  obtain ⟨hinner, he, -⟩ := he
  have hinv := h.box.next he
  have hpassed := Mailbox.passed_next (m := s.box) hinner
  by_cases hwake : e = .wake
  · subst hwake
    obtain ⟨hs, hm⟩ := he
    obtain ⟨t, c, hread, hpc, hc⟩ := h.box.read_of_signal hs
    obtain ⟨f, hf, rfl⟩ := h.closure t c (by rw [hpc]; rfl)
    have hran : ((Mailbox.system T Closure).next s.box .wake).ran =
        Function.update s.box.ran t (s.box.ran t ++ [f.closure]) := by
      rw [Mailbox.next_wake hread]
    have hbox := h.of_box hinv hpassed (fun _ _ hc => Mailbox.closure_of_next hinner hc) (by
      intro u
      rw [hran]
      by_cases hut : u = t
      · subst hut
        simp
      · simp [Function.update_of_ne hut])
    by_cases hfn : f.closure.fn = .completion
    · have hstart : start s t f.closure = s := by simp only [start, hf, hfn]
      rw [next_box, outside_wake hread, hstart]
      exact hbox
    · -- the closure has not been run before, so that there is no callback for it
      have hnew : ∀ i k, s.callbacks i = some k → k.closure ≠ f.closure := by
        intro i k hk heq
        obtain ⟨u, hu⟩ := h.ran i k hk
        have hft : f.closure ∈ s.box.passed t := by simp [hc]
        obtain rfl := h.thread_unique (h.box.ran_subset_passed u (heq ▸ hu)) hft
        have hnodup := (h.passed u).1
        rw [hc, List.nodup_append] at hnodup
        exact hnodup.2.2 _ (heq ▸ hu) _ (List.mem_singleton_self _) rfl
      have hmake := hbox.make hf hfn (by rw [hran]; simp) hnew
      have hstart : start s t f.closure = { s with
          callbacks := Function.update s.callbacks s.made
            (some ⟨some (f.closure.fn, t), f.closure, none⟩)
          made := s.made + 1 } := by
        unfold start
        rw [hf]
        cases hfn' : f.closure.fn with
        | completion => exact absurd hfn' hfn
        | _ => rfl
      rw [next_box, outside_wake hread, hstart]
      exact hmake
  · have hstep := h.of_box hinv hpassed (fun _ _ hc => Mailbox.closure_of_next hinner hc)
      (fun t => by rw [Mailbox.ran_next hwake]; exact List.Subset.refl _)
    have hout : outside s e = s := by
      cases e <;> first | rfl | exact absurd rfl hwake
    rw [next_box, hout]
    exact hstep

/-- JavaScript calls a callback. -/
theorem invoke (h : Inv s) {i : ℕ} {info : List JsValue}
    (he : (system T).Enabled s (.invoke i info)) : Inv ((system T).next s (.invoke i info)) := by
  obtain ⟨hsome, hjs, -⟩ := he
  obtain ⟨k, hk⟩ := Option.isSome_iff_exists.1 hsome
  rcases h.data i k hk with ⟨t, f, hnone, hdata, hf, hc⟩ | ⟨-, info', hinfo⟩
  swap
  · have := h.callbackWrapper_of_first hk (by simp [hinfo]) info
    exact (congrArg Inv this).mpr h
  rw [next_invoke hk hdata hnone]
  have hfirst := first_invoke hk hnone info (.done k.closure.fn t info)
  -- what is known of a callback does not depend on its calls
  have hclosure : ∀ {j l}, Function.update s.callbacks i
      (some { k with data := none, first := some info }) j = some l →
      ∃ l', s.callbacks j = some l' ∧ l'.closure = l.closure := by
    intro j l hl
    rcases update_some_eq_some.1 hl with ⟨rfl, rfl⟩ | ⟨-, hl⟩
    · exact ⟨k, hk, rfl⟩
    · exact ⟨l, hl, rfl⟩
  refine { h with
    ran := fun j l hl => ?_, made := fun j hj => ?_, unique := fun j j' l l' hl hl' hll => ?_,
    data := fun j l hl => ?_, fn := fun j l hl => ?_, js := nofun, uses := fun u hu => ?_,
    stage := fun u g hg => ?_, returned := fun r hr => ?_ }
  · obtain ⟨l', hl', hc'⟩ := hclosure hl
    exact hc' ▸ h.ran j l' hl'
  · have hji : j ≠ i := by
      rintro rfl
      rw [h.made j hj] at hk
      cases hk
    simpa [Function.update_of_ne hji] using h.made j hj
  · obtain ⟨m, hm, hmc⟩ := hclosure hl
    obtain ⟨m', hm', hmc'⟩ := hclosure hl'
    exact h.unique j j' m m' hm hm' (by rw [hmc, hmc', hll])
  · rcases update_some_eq_some.1 hl with ⟨rfl, rfl⟩ | ⟨-, hl⟩
    · exact .inr ⟨rfl, info, rfl⟩
    · exact h.data j l hl
  · obtain ⟨l', hl', hc'⟩ := hclosure hl
    exact hc' ▸ h.fn j l' hl'
  · obtain rfl : t = u := hu
    exact ⟨f, hf⟩
  · simp only [Stage, hfirst]
    by_cases hut : u = t
    · -- the request the callback is for: no result is known yet
      subst hut
      rw [hf] at hg
      cases hg
      have hsem : f.jsSem = 0 := by
        rcases h.stage u f hf with ⟨-, hsem, -⟩ | ⟨info', hinfo, -⟩
        · exact hsem
        · exact absurd (hc ▸ hinfo) (h.not_first hk hnone info')
      exact .inr ⟨info, .inr ⟨hc, rfl⟩, .inl ⟨by rw [hc], hsem⟩⟩
    · -- another request: nothing changes, as the main thread was doing nothing
      have hne : g.closure ≠ k.closure := fun heq =>
        hut (h.thread_unique (h.frame u g hg) (heq ▸ hc ▸ h.frame t f hf))
      have hnot : ¬Js.Uses u (.done k.closure.fn t info) := fun heq => hut heq.symm
      rcases h.stage u g hg with ⟨hg, hsem, -⟩ | ⟨info', hinfo, hstage⟩
      · exact .inl ⟨fun info' => by simp [hg, hne], hsem, hnot⟩
      · simp only [hjs, reduceCtorEq, false_and, false_or] at hstage
        exact .inr ⟨info', .inl hinfo, .inr ⟨hstage.1, .inr ⟨hstage.2.1, hnot⟩⟩⟩
  · obtain ⟨hran, hinfo⟩ := h.returned r hr
    refine ⟨hran, fun hfn => ?_⟩
    obtain ⟨info', hinfo', hcomp⟩ := hinfo hfn
    exact ⟨info', (hfirst _ _).2 (.inl hinfo'), hcomp⟩

/-- The main thread uses the state of a call. -/
theorem useFrame (h : Inv s) {t : T} {f : Frame} {g : Frame → Frame} {js : Js T}
    (hf : s.frame t = some f) (hs : s.js.Uses t) (hg : (g f).closure = f.closure)
    (hjs : ∀ u, js.Uses u → u = t) (hfault : js ≠ .fault)
    (hstage : Stage { s with js := js } t (g f)) : Inv (useFrame s t g js) := by
  have hclosure : ∀ {u f'}, s.frame u = some f' →
      ∃ f'', Function.update s.frame t (some (g f)) u = some f'' ∧ f''.closure = f'.closure := by
    intro u f' hf'
    by_cases hut : u = t
    · subst hut
      rw [hf] at hf'
      cases hf'
      exact ⟨g f, Function.update_self .., hg⟩
    · exact ⟨f', by rwa [Function.update_of_ne hut], rfl⟩
  rw [Requests.useFrame, hf]
  refine { h with
    frame := fun u f' hf' => ?_, closure := fun u c hc => ?_, data := fun i k hk => ?_,
    js := hfault, uses := fun u hu => ?_, stage := fun u f' hf' => ?_ }
  · rcases update_some_eq_some.1 hf' with ⟨rfl, rfl⟩ | ⟨-, hf'⟩
    · exact hg ▸ h.frame u f hf
    · exact h.frame u f' hf'
  · obtain ⟨f', hf', rfl⟩ := h.closure u c hc
    exact hclosure hf'
  · rcases h.data i k hk with ⟨u, f', hnone, hdata, hf', hc⟩ | hdone
    · obtain ⟨f'', hf'', hc'⟩ := hclosure hf'
      exact .inl ⟨u, f'', hnone, hdata, hf'', hc'.trans hc⟩
    · exact .inr hdone
  · obtain rfl := hjs u hu
    exact ⟨g f, Function.update_self ..⟩
  · rcases update_some_eq_some.1 hf' with ⟨rfl, rfl⟩ | ⟨hut, hf'⟩
    · exact hstage
    · -- the main thread was not using the state of `u`, nor does it now
      have hnot : ¬js.Uses u := fun hu => hut (hjs u hu)
      have hnot' : ¬s.js.Uses u := by
        intro hu
        cases hsjs : s.js <;> rw [hsjs] at hs hu <;> first | exact hut (hu.symm.trans hs) | exact hs
      rcases h.stage u f' hf' with ⟨hfirst, hsem, -⟩ | ⟨info, hinfo, ⟨hdone, -⟩ | ⟨hcomp, hpost⟩⟩
      · exact .inl ⟨hfirst, hsem, hnot⟩
      · exact absurd (by rw [hdone]; rfl) hnot'
      · rcases hpost with ⟨hpost, -⟩ | ⟨hsem, -⟩
        · exact absurd (by rw [hpost]; rfl) hnot'
        · exact .inr ⟨info, hinfo, .inr ⟨hcomp, .inr ⟨hsem, hnot⟩⟩⟩

/-- The result of a request is stored. -/
theorem done (h : Inv s) {fn : Fn} {t : T} {info : List JsValue} (hjs : s.js = .done fn t info) :
    Inv ((system T).next s .done) := by
  have huses : s.js.Uses t := by rw [hjs]; rfl
  obtain ⟨f, hf⟩ := h.uses t huses
  have hstage := h.stage t f hf
  simp only [Stage, hjs, Js.Uses, not_true_eq_false, and_false, false_or, or_false, reduceCtorEq,
    false_and, Js.done.injEq, true_and] at hstage
  obtain ⟨info', hinfo, ⟨rfl, rfl⟩, hsem⟩ := hstage
  rw [next_done hjs]
  refine h.useFrame hf huses (closure_store ..) (fun u hu => hu.symm) nofun ?_
  refine .inr ⟨info, by rwa [closure_store], .inr ⟨?_, .inl ⟨rfl, by rwa [jsSem_store]⟩⟩⟩
  rw [closure_store]
  exact computes_store ..

/-- Its semaphore is posted. -/
theorem post (h : Inv s) {t : T} (hjs : s.js = .posting t) : Inv ((system T).next s .post) := by
  have huses : s.js.Uses t := by rw [hjs]; rfl
  obtain ⟨f, hf⟩ := h.uses t huses
  have hstage := h.stage t f hf
  simp only [Stage, hjs, Js.Uses, not_true_eq_false, and_false, false_or, or_false, reduceCtorEq,
    false_and, true_and] at hstage
  obtain ⟨info, hinfo, hcomp, hsem⟩ := hstage
  rw [next_post hjs]
  refine h.useFrame hf huses rfl (fun u hu => hu.elim) nofun ?_
  exact .inr ⟨info, hinfo, .inr ⟨hcomp, .inr ⟨by simp [hsem], id⟩⟩⟩

/-- A call returns. -/
theorem finish (h : Inv s) {t : T} (he : (system T).Enabled s (.finish t)) :
    Inv ((system T).next s (.finish t)) := by
  obtain ⟨hout, f, hf, hready⟩ := he
  -- a call that returns is not used any more, and has its result if it is a request
  have hdone : ¬s.js.Uses t ∧ (f.closure.fn ≠ .completion → ∃ info, First s f.closure info ∧
      f.closure.fn.Computes info f.ret f.res) := by
    rcases h.stage t f hf with ⟨hfirst, hsem, hnot⟩ | ⟨info, hinfo, hstage⟩
    · exact ⟨hnot, fun hfn => absurd (hready.resolve_left hfn) (by simp [hsem])⟩
    · obtain ⟨i, k, hk, hc, -⟩ := id hinfo
      have hpos := hready.resolve_left (hc ▸ h.fn i k hk)
      rcases hstage with ⟨-, hsem⟩ | ⟨hcomp, ⟨-, hsem⟩ | ⟨-, hnot⟩⟩
      · simp [hsem] at hpos
      · simp [hsem] at hpos
      · exact ⟨hnot, fun _ => ⟨info, hinfo, hcomp⟩⟩
  rw [next_finish hf]
  refine { h with
    frame := fun u f' hf' => h.frame u f' (update_none_eq_some.1 hf').2
    closure := fun u c hc => ?_
    data := fun i k hk => ?_
    uses := fun u hu => ?_
    stage := fun u f' hf' => h.stage u f' (update_none_eq_some.1 hf').2
    returned := fun r hr => ?_ }
  · have hut : u ≠ t := by
      rintro rfl
      rw [show s.box.pc u = .out from hout] at hc
      cases hc
    obtain ⟨f', hf', hc'⟩ := h.closure u c hc
    exact ⟨f', update_none_eq_some.2 ⟨hut, hf'⟩, hc'⟩
  · rcases h.data i k hk with ⟨u, f', hnone, hdata, hf', hc⟩ | hdone'
    · have hut : u ≠ t := by
        rintro rfl
        rw [hf] at hf'
        cases hf'
        obtain ⟨info, hinfo, -⟩ := hdone.2 (hc ▸ h.fn i k hk)
        exact h.not_first hk hnone info (hc ▸ hinfo)
      exact .inl ⟨u, f', hnone, hdata, update_none_eq_some.2 ⟨hut, hf'⟩, hc⟩
    · exact .inr hdone'
  · have hut : u ≠ t := by
      rintro rfl
      exact hdone.1 hu
    obtain ⟨f', hf'⟩ := h.uses u hu
    exact ⟨f', update_none_eq_some.2 ⟨hut, hf'⟩⟩
  · rcases List.mem_append.1 hr with hr | hr
    · exact h.returned r hr
    · obtain rfl := List.mem_singleton.1 hr
      exact ⟨h.box.passed_eq_ran hout ▸ h.frame t f hf, hdone.2⟩

/-- Every event keeps the invariant. -/
theorem next (h : Inv s) {e : Event T} (he : (system T).Enabled s e) :
    Inv ((system T).next s e) := by
  cases e with
  | call t fn ret res => exact h.call he
  | box e => exact h.step_box he
  | invoke i info => exact h.invoke he
  | done =>
    obtain ⟨fn, t, info, hjs⟩ := he
    exact h.done hjs
  | post =>
    obtain ⟨t, hjs⟩ := he
    exact h.post hjs
  | finish t => exact h.finish he

/-- The invariant is all that is required. -/
theorem sound (h : Inv s) : Sound s where
  passed := h.passed
  ran _ ht := (h.box.passed_eq_ran ht).symm
  returned := h.returned
  unique := h.unique
  box_ne_fault := h.box.main_ne_fault
  js_ne_fault := h.js
  live i k hk hfirst := by
    rcases h.data i k hk with ⟨t, f, -, hdata, hf, hc⟩ | ⟨-, info, hinfo⟩
    · exact ⟨t, f, hdata, hf, hc⟩
    · rw [hfirst] at hinfo
      cases hinfo
  own fn t info hjs := by
    obtain ⟨f, hf⟩ := h.uses t (by rw [hjs]; rfl)
    have hstage := h.stage t f hf
    simp only [Stage, hjs, Js.Uses, not_true_eq_false, and_false, false_or, or_false, reduceCtorEq,
      false_and, Js.done.injEq, true_and] at hstage
    obtain ⟨info', hinfo, ⟨rfl, rfl⟩, -⟩ := hstage
    exact ⟨f, hf, rfl, hinfo⟩
  own_posting t hjs := by
    obtain ⟨f, hf⟩ := h.uses t (by rw [hjs]; rfl)
    rcases h.stage t f hf with ⟨-, -, hnot⟩ | ⟨info, hinfo, -⟩
    · exact absurd (by rw [hjs]; rfl) hnot
    · exact ⟨f, info, hf, hinfo⟩
  ignored i k info hk hfirst := h.callbackWrapper_of_first hk hfirst info
  progress t ht := by
    cases hjs : s.js with
    | fault => exact absurd hjs h.js
    | done fn t info => exact ⟨.done, ⟨fn, t, info, hjs⟩, .inl rfl⟩
    | posting t => exact ⟨.post, ⟨t, hjs⟩, .inr (.inl rfl)⟩
    | idle =>
      obtain ⟨e, he, henter⟩ := h.box.exists_enabled ht
      have hinner : e.Inner := by
        cases e with
        | enter u c => exact henter u c rfl
        | _ => trivial
      exact ⟨.box e, ⟨hinner, he, fun _ => hjs⟩, .inr (.inr ⟨e, rfl⟩)⟩
  finishes t f info hf hinfo hout hjs := by
    refine ⟨hout, f, hf, .inr ?_⟩
    rcases h.stage t f hf with ⟨hnot, -⟩ | ⟨info', -, hstage⟩
    · exact absurd hinfo (hnot info)
    · simp only [hjs, reduceCtorEq, false_and, false_or] at hstage
      simp [hstage.2.1]

end Inv

/-- Calls into JavaScript are neither lost, nor run twice, nor mixed up, for any
    number of threads, however they interleave, and however JavaScript calls
    the callbacks it is given. -/
theorem sound_of_isRun {es : List (Event T)} (hes : (system T).IsRun init es) :
    Sound ((system T).run init es) := by
  have hinv : Inv ((system T).run init es) :=
    (System.reachable_run hes).invariant inv_init fun _ _ h he => h.next he
  exact hinv.sound

/-- Two threads make requests. The callback of the first one is called at once,
    then again, and once more after its request has returned; that of the second
    one is called later. -/
def twoRequests : List (Event Bool) :=
  [.call false .request 7 0, .box (.lock false), .box (.store false), .box (.send false),
    .box .wake, .invoke 0 [.null], .done, .post, .invoke 0 [.undefined], .box .ret, .box .post,
    .box (.acquire false), .call true .request 9 0, .box (.unlock false), .finish false,
    .box (.lock true), .box (.store true), .box (.send true), .box .wake, .box .ret, .box .post,
    .box (.acquire true), .box (.unlock true), .invoke 0 [.undefined], .invoke 1 [.null], .done,
    .post, .finish true]

theorem sound_twoRequests :
    (system Bool).IsRun init twoRequests ∧
      ((system Bool).run init twoRequests).returned.length = 2 ∧
      Sound ((system Bool).run init twoRequests) := by
  have hrun : (system Bool).IsRun init twoRequests := by
    refine ⟨rfl, ⟨trivial, ⟨rfl, _, rfl⟩, nofun⟩, ⟨trivial, ⟨_, rfl⟩, nofun⟩,
      ⟨trivial, ⟨_, rfl⟩, nofun⟩, ⟨trivial, ⟨rfl, rfl⟩, fun _ => rfl⟩, ⟨rfl, rfl, .inr ⟨_, _, rfl⟩⟩,
      ⟨_, _, _, rfl⟩, ⟨_, rfl⟩, ⟨rfl, rfl, .inr ⟨_, _, rfl⟩⟩, ?_⟩
    refine ⟨⟨trivial, ⟨_, _, rfl⟩, fun _ => rfl⟩, ⟨trivial, ⟨_, rfl⟩, fun _ => rfl⟩,
      ⟨trivial, ⟨Nat.one_pos, _, rfl⟩, nofun⟩, rfl, ⟨trivial, ⟨_, rfl⟩, nofun⟩,
      ⟨rfl, _, rfl, .inr Nat.one_pos⟩, ?_⟩
    refine ⟨⟨trivial, ⟨rfl, _, rfl⟩, nofun⟩, ⟨trivial, ⟨_, rfl⟩, nofun⟩,
      ⟨trivial, ⟨_, rfl⟩, nofun⟩, ⟨trivial, ⟨rfl, rfl⟩, fun _ => rfl⟩,
      ⟨trivial, ⟨_, _, rfl⟩, fun _ => rfl⟩, ⟨trivial, ⟨_, rfl⟩, fun _ => rfl⟩,
      ⟨trivial, ⟨Nat.one_pos, _, rfl⟩, nofun⟩, ⟨trivial, ⟨_, rfl⟩, nofun⟩, ?_⟩
    exact ⟨⟨rfl, rfl, .inl rfl⟩, ⟨rfl, rfl, .inl rfl⟩, ⟨_, _, _, rfl⟩, ⟨_, rfl⟩,
      ⟨rfl, _, rfl, .inr Nat.one_pos⟩, trivial⟩
  exact ⟨hrun, rfl, sound_of_isRun hrun⟩

end Requests

end NodeLkl
