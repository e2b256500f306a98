import NodeLkl.Base.System

/-!
# Programs of callbacks

A program made of callbacks issues calls, each with the callback to be given its
reply. The calls are replied to one at a time, in order. Callbacks may also be
deferred: they are then called before any other reply comes. Eventually the
program is meant to give an answer, to somebody whose code may throw.

A callback given a reply must return for the next call to be replied to: one that
throws wedges the queue. One that was deferred may throw with no such consequence.

* `Js`: the computations of callbacks, which may throw. Callbacks are labels (`K`),
  and a `Program` says what each of them does.
* `exists_reply`, `eq_of_deferred`: what a run does that is over after the next
  callback.
* `Chain`: what may be said of a program doing one thing at a time: each of its
  callbacks issues one call, defers one callback, or answers (`Chain.Does`), unless
  something goes wrong. It then has one thing pending, or has answered
  (`Chain.Holds`), and in a run that is over it has answered
  (`Chain.Holds.exists_answer`).
* `Adds`: what may be said of callbacks in general: they add to the queue. A callback that
  always throws then wedges it some day (`wedged_of_throws`).
* `Budget`: bounds on what callbacks make happen. If there are such bounds for the
  callbacks of calls that fail, a run may always be over some day
  (`Budget.Bounds.exists_halted`).
-/

namespace NodeLkl

/-- The state of a program, on which there are: a state of its own (`state`), the
    calls that were not replied to, the callbacks deferred, and whether the queue is
    wedged. The calls issued, the replies and the answers are recorded. -/
structure EventLoop (S C R K A : Type) where
  state : S
  queue : List (C × K)
  ticks : List (K × A)
  wedged : Bool
  issued : List C
  replies : List (C × R)
  answers : List A

namespace EventLoop

variable {S C R K A E α β : Type}

/-! ## Computations -/

/-- A computation, which may throw. -/
abbrev Js (S C R K A E : Type) := ExceptT E (StateM (EventLoop S C R K A))

/-- What a computation returns or throws, and the state it leaves. -/
def exec (m : Js S C R K A E α) (l : EventLoop S C R K A) :
    Except E α × EventLoop S C R K A :=
  m.run.run l

/-- Issues a call. -/
def issue (c : C) (k : K) : Js S C R K A E Unit :=
  modify fun l => { l with queue := l.queue ++ [(c, k)], issued := l.issued ++ [c] }

/-- Defers a callback. -/
def defer (k : K) (a : A) : Js S C R K A E Unit :=
  modify fun l => { l with ticks := l.ticks ++ [(k, a)] }

/-- Answers. The `n`-th answer may make its receiver throw. -/
def answer (throws : ℕ → Option E) (a : A) : Js S C R K A E Unit := do
  let n := (← get).answers.length
  modify fun l => { l with answers := l.answers ++ [a] }
  match throws n with
  | some e => throw e
  | none => pure ()

@[simp]
theorem exec_pure (a : α) (l : EventLoop S C R K A) :
    exec (pure a : Js S C R K A E α) l = (.ok a, l) := rfl

@[simp]
theorem exec_throw (e : E) (l : EventLoop S C R K A) :
    exec (throw e : Js S C R K A E α) l = (.error e, l) := rfl

@[simp]
theorem exec_get (l : EventLoop S C R K A) : exec (get : Js S C R K A E _) l = (.ok l, l) := rfl

@[simp]
theorem exec_modify (f : EventLoop S C R K A → EventLoop S C R K A) (l : EventLoop S C R K A) :
    exec (modify f : Js S C R K A E Unit) l = (.ok (), f l) := rfl

@[simp]
theorem exec_bind (m : Js S C R K A E α) (f : α → Js S C R K A E β) (l : EventLoop S C R K A) :
    exec (m >>= f) l = match exec m l with
      | (.ok a, l') => exec (f a) l'
      | (.error e, l') => (.error e, l') := by
  have hdef : exec (m >>= f) l = match exec m l with
      | (r, l') => exec (match r with | .ok a => f a | .error e => throw e) l' := rfl
  rw [hdef]
  rcases exec m l with ⟨_ | _, _⟩ <;> rfl

@[simp]
theorem exec_tryCatch (m : Js S C R K A E α) (f : E → Js S C R K A E α)
    (l : EventLoop S C R K A) :
    exec (tryCatch m f) l = match exec m l with
      | (.ok a, l') => (.ok a, l')
      | (.error e, l') => exec (f e) l' := by
  have hdef : exec (tryCatch m f) l = match exec m l with
      | (r, l') => exec (match r with | .ok a => pure a | .error e => f e) l' := rfl
  rw [hdef]
  rcases exec m l with ⟨_ | _, _⟩ <;> rfl

@[simp]
theorem exec_issue (c : C) (k : K) (l : EventLoop S C R K A) :
    exec (issue c k : Js S C R K A E Unit) l =
      (.ok (), { l with queue := l.queue ++ [(c, k)], issued := l.issued ++ [c] }) := rfl

@[simp]
theorem exec_defer (k : K) (a : A) (l : EventLoop S C R K A) :
    exec (defer k a : Js S C R K A E Unit) l = (.ok (), { l with ticks := l.ticks ++ [(k, a)] }) :=
  rfl

/-- An answer is recorded, and then its receiver may throw. -/
theorem exec_answer (throws : ℕ → Option E) (a : A) (l : EventLoop S C R K A) :
    exec (answer throws a) l = (match throws l.answers.length with
      | some e => .error e
      | none => .ok (), { l with answers := l.answers ++ [a] }) := by
  simp only [answer, exec_bind, exec_get, exec_modify]
  cases throws l.answers.length <;> rfl

/-! ## Programs -/

/-- What calls are replied, what the reply to a call does to the state, the
    arguments it gives to callbacks, and what callbacks do. -/
structure Program (S C R K A E : Type) where
  Fits : C → R → Prop
  receive : S → C → R → S
  args : R → A
  apply : K → A → Js S C R K A E Unit

/-- The events: a deferred callback is called, or a call replied to. -/
inductive Event (R : Type)
  | tick
  | complete (r : R)

/-- A callback that throws wedges the queue. -/
def settle : Except E Unit × EventLoop S C R K A → EventLoop S C R K A
  | (.ok _, l) => l
  | (.error _, l) => { l with wedged := true }

section Settle

variable (x : Except E Unit × EventLoop S C R K A)

@[simp]
theorem settle_queue : (settle x).queue = x.2.queue := by rcases x with ⟨_ | _, _⟩ <;> rfl

@[simp]
theorem settle_ticks : (settle x).ticks = x.2.ticks := by rcases x with ⟨_ | _, _⟩ <;> rfl

@[simp]
theorem settle_issued : (settle x).issued = x.2.issued := by rcases x with ⟨_ | _, _⟩ <;> rfl

@[simp]
theorem settle_replies : (settle x).replies = x.2.replies := by rcases x with ⟨_ | _, _⟩ <;> rfl

@[simp]
theorem settle_answers : (settle x).answers = x.2.answers := by rcases x with ⟨_ | _, _⟩ <;> rfl

variable {x}

theorem wedged_settle_of_error {e : E} (h : x.1 = .error e) : (settle x).wedged = true := by
  rcases x with ⟨_ | _, _⟩
  · rfl
  · cases h

theorem wedged_settle (h : x.2.wedged = true) : (settle x).wedged = true := by
  rcases x with ⟨_ | _, _⟩
  · rfl
  · exact h

end Settle

/-- Running a program. -/
def system (p : Program S C R K A E) : System (EventLoop S C R K A) (Event R) where
  Enabled l
    | .tick => l.ticks ≠ []
    | .complete r => l.ticks = [] ∧ l.wedged = false ∧
        ∃ c k queue, l.queue = (c, k) :: queue ∧ p.Fits c r
  next l
    | .tick => match l.ticks with
      | [] => l
      | (k, a) :: ticks => (exec (p.apply k a) { l with ticks }).2
    | .complete r => match l.queue with
      | [] => l
      | (c, k) :: queue => settle (exec (p.apply k (p.args r))
          { l with state := p.receive l.state c r, queue, replies := l.replies ++ [(c, r)] })

/-- Nothing is pending. -/
def Inert (l : EventLoop S C R K A) : Prop := l.queue = [] ∧ l.ticks = []

@[simp]
theorem inert_settle {x : Except E Unit × EventLoop S C R K A} : (settle x).Inert ↔ x.2.Inert := by
  simp [Inert]

section Inert

variable {p : Program S C R K A E} {l : EventLoop S C R K A}

theorem Inert.not_enabled (h : Inert l) (e : Event R) : ¬(system p).Enabled l e := by
  intro he
  cases e with
  | tick => exact he h.2
  | complete r =>
    obtain ⟨-, -, c, k, queue, hq, -⟩ := he
    simp [h.1] at hq

/-- Nothing happens then. -/
theorem Inert.run_eq (h : Inert l) {es : List (Event R)} (hrun : (system p).IsRun l es) :
    (system p).run l es = l := by
  cases es with
  | nil => rfl
  | cons e es => exact absurd hrun.1 (h.not_enabled e)

/-- A run that is over got a reply to the last call pending. -/
theorem exists_reply {c : C} {k : K} {s : S} (is : List C) (rs : List (C × R)) (prior : List A)
    (hfits : ∃ r, p.Fits c r)
    (hlast : ∀ r, p.Fits c r → Inert (settle (exec (p.apply k (p.args r))
      ⟨p.receive s c r, [], [], false, is, rs ++ [(c, r)], prior⟩)))
    (hl : (system p).Reachable ⟨s, [(c, k)], [], false, is, rs, prior⟩ l)
    (hover : (system p).Halted l) :
    ∃ r, p.Fits c r ∧ l = settle (exec (p.apply k (p.args r))
      ⟨p.receive s c r, [], [], false, is, rs ++ [(c, r)], prior⟩) := by
  obtain ⟨es, hrun, rfl⟩ := hl.exists_run
  cases es with
  | nil =>
    obtain ⟨r, hr⟩ := hfits
    exact absurd ⟨rfl, rfl, c, k, [], rfl, hr⟩ (hover (.complete r))
  | cons e es => cases e with
    | tick => exact absurd rfl hrun.1
    | complete r =>
      obtain ⟨⟨-, -, c', k', queue, hq, hr⟩, hrun⟩ := hrun
      obtain ⟨⟨rfl, rfl⟩, rfl⟩ : (c = c' ∧ k = k') ∧ [] = queue := by simpa using hq
      exact ⟨r, hr, (hlast r hr).run_eq hrun⟩

/-- A run that is over called the callback deferred. -/
theorem eq_of_deferred {k : K} {a : A} {s : S} {is : List C} {rs : List (C × R)} {prior : List A}
    (hlast : Inert (exec (p.apply k a) ⟨s, [], [], false, is, rs, prior⟩).2)
    (hl : (system p).Reachable ⟨s, [], [(k, a)], false, is, rs, prior⟩ l)
    (hover : (system p).Halted l) :
    l = (exec (p.apply k a) ⟨s, [], [], false, is, rs, prior⟩).2 := by
  obtain ⟨es, hrun, rfl⟩ := hl.exists_run
  cases es with
  | nil => exact absurd (List.cons_ne_nil _ _) (hover .tick)
  | cons e es => cases e with
    | tick => exact hlast.run_eq hrun.2
    | complete r => exact absurd hrun.1.1 (by simp)

end Inert

/-! ## Doing one thing at a time -/

/-- What holds when a call is pending, when a callback is deferred, and when an
    answer has been given: of the state, the calls issued, and the replies. What
    holds once something went wrong is `Broken`. -/
structure Chain (S C R K A : Type) where
  Pending : C → K → S → List C → List (C × R) → Prop
  Deferred : K → A → S → List C → List (C × R) → Prop
  Answered : A → S → List C → List (C × R) → Prop
  Broken : EventLoop S C R K A → Prop

/-- Nothing is pending, and `prior` are the answers given. -/
def idle (prior : List A) (s : S) (is : List C) (rs : List (C × R)) : EventLoop S C R K A :=
  ⟨s, [], [], false, is, rs, prior⟩

namespace Chain

variable (ch : Chain S C R K A) (prior : List A)

/-- One thing is pending, or the answer after `prior` was given, or something went
    wrong. -/
inductive Holds : EventLoop S C R K A → Prop
  | pending {c k s is rs} : ch.Pending c k s is rs → Holds ⟨s, [(c, k)], [], false, is, rs, prior⟩
  | deferred {k a s is rs} : ch.Deferred k a s is rs →
      Holds ⟨s, [], [(k, a)], false, is, rs, prior⟩
  | answered {a s w is rs} : ch.Answered a s is rs → Holds ⟨s, [], [], w, is, rs, prior ++ [a]⟩
  | broken {l} : ch.Broken l → Holds l

/-- A computation started when nothing is pending did one thing. -/
inductive Does : Except E Unit × EventLoop S C R K A → Prop
  | issue {c k s is rs} : ch.Pending c k s is rs →
      Does (.ok (), ⟨s, [(c, k)], [], false, is, rs, prior⟩)
  | defer {k a s is rs} : ch.Deferred k a s is rs →
      Does (.ok (), ⟨s, [], [(k, a)], false, is, rs, prior⟩)
  | answer {r a s is rs} : ch.Answered a s is rs →
      Does (r, ⟨s, [], [], false, is, rs, prior ++ [a]⟩)

/-- Every callback does one thing, unless something goes wrong. -/
structure Steps (p : Program S C R K A E) : Prop where
  complete : ∀ {c k s is rs r}, ch.Pending c k s is rs → p.Fits c r →
    ch.Does prior (exec (p.apply k (p.args r))
      (idle prior (p.receive s c r) is (rs ++ [(c, r)]))) ∨
    ch.Broken (settle (exec (p.apply k (p.args r))
      (idle prior (p.receive s c r) is (rs ++ [(c, r)]))))
  tick : ∀ {k a s is rs}, ch.Deferred k a s is rs →
    ch.Does prior (exec (p.apply k a) (idle prior s is rs))
  broken : ∀ {l e}, ch.Broken l → (system p).Enabled l e → ch.Broken ((system p).next l e)

variable {ch prior} {p : Program S C R K A E} {l : EventLoop S C R K A}
  {x : Except E Unit × EventLoop S C R K A}

theorem Does.holds (h : ch.Does prior x) : ch.Holds prior x.2 := by
  cases h with
  | issue h => exact .pending h
  | defer h => exact .deferred h
  | answer h => exact .answered h

theorem Does.holds_settle (h : ch.Does prior x) : ch.Holds prior (settle x) := by
  cases h with
  | issue h => exact .pending h
  | defer h => exact .deferred h
  | @answer r a s is rs h => cases r <;> exact .answered h

theorem does_issue {c : C} {k : K} {s : S} {is : List C} {rs : List (C × R)}
    (h : ch.Pending c k s (is ++ [c]) rs) :
    ch.Does (E := E) prior (exec (EventLoop.issue c k) (idle prior s is rs)) :=
  .issue h

/-- Answering is doing one thing, whether or not the receiver throws. -/
theorem does_answer {throws : ℕ → Option E} {a : A} {s : S} {is : List C} {rs : List (C × R)}
    (h : ch.Answered a s is rs) : ch.Does prior (exec (answer throws a) (idle prior s is rs)) := by
  rw [exec_answer]
  exact .answer h

theorem Holds.next (h : ch.Holds prior l) (hs : ch.Steps prior p) {e : Event R}
    (he : (system p).Enabled l e) : ch.Holds prior ((system p).next l e) := by
  cases h with
  | pending h => cases e with
    | tick => exact absurd rfl he
    | complete r =>
      obtain ⟨-, -, c, k, queue, hq, hr⟩ := he
      obtain ⟨⟨rfl, rfl⟩, rfl⟩ : (_ = c ∧ _ = k) ∧ [] = queue := by simpa using hq
      exact (hs.complete h hr).elim Does.holds_settle .broken
  | deferred h => cases e with
    | tick => exact (hs.tick h).holds
    | complete r => exact absurd he.1 (by simp)
  | answered h => exact absurd he (Inert.not_enabled ⟨rfl, rfl⟩ e)
  | broken h => exact .broken (hs.broken h he)

theorem Holds.reachable {l₀ : EventLoop S C R K A} (h : ch.Holds prior l₀) (hs : ch.Steps prior p)
    (hl : (system p).Reachable l₀ l) : ch.Holds prior l :=
  hl.invariant h fun _ _ h he => h.next hs he

/-- A run that is over has answered, unless something went wrong. -/
theorem Holds.exists_answer (h : ch.Holds prior l) (hfits : ∀ c, ∃ r, p.Fits c r)
    (hover : (system p).Halted l) :
    (∃ a, l.answers = prior ++ [a] ∧ ch.Answered a l.state l.issued l.replies) ∨ ch.Broken l := by
  cases h with
  | @pending c k s is rs h =>
    obtain ⟨r, hr⟩ := hfits c
    exact absurd ⟨rfl, rfl, c, k, [], rfl, hr⟩ (hover (.complete r))
  | deferred h => exact absurd (List.cons_ne_nil _ _) (hover .tick)
  | @answered a s w is rs h => exact .inl ⟨a, rfl, h⟩
  | broken h => exact .inr h

end Chain

/-! ## Throwing -/

/-- A computation only adds to the queue, and does not wedge it. -/
def Adds (m : Js S C R K A E α) : Prop :=
  ∀ l, l.queue <+: (exec m l).2.queue ∧ (exec m l).2.wedged = l.wedged

section Adds

theorem adds_of_frame {m : Js S C R K A E α}
    (h : ∀ l, (exec m l).2.queue = l.queue ∧ (exec m l).2.wedged = l.wedged) : Adds m :=
  fun l => ⟨(h l).1 ▸ List.prefix_rfl, (h l).2⟩

theorem adds_issue (c : C) (k : K) : Adds (issue c k : Js S C R K A E Unit) :=
  fun l => ⟨List.prefix_append l.queue [(c, k)], rfl⟩

theorem adds_defer (k : K) (a : A) : Adds (defer k a : Js S C R K A E Unit) :=
  adds_of_frame fun _ => ⟨rfl, rfl⟩

theorem Adds.bind {m : Js S C R K A E α} {f : α → Js S C R K A E β} (hm : Adds m)
    (hf : ∀ a, Adds (f a)) : Adds (m >>= f) := by
  intro l
  have hfirst := hm l
  rw [exec_bind]
  generalize exec m l = x at hfirst ⊢
  rcases x with ⟨_ | a, l'⟩
  · exact hfirst
  · exact ⟨hfirst.1.trans (hf a l').1, (hf a l').2.trans hfirst.2⟩

theorem Adds.tryCatch {m : Js S C R K A E α} {f : E → Js S C R K A E α} (hm : Adds m)
    (hf : ∀ e, Adds (f e)) : Adds (tryCatch m f) := by
  intro l
  have hfirst := hm l
  rw [exec_tryCatch]
  generalize exec m l = x at hfirst ⊢
  rcases x with ⟨e | _, l'⟩
  · exact ⟨hfirst.1.trans (hf e l').1, (hf e l').2.trans hfirst.2⟩
  · exact hfirst

end Adds

/-- The queue is wedged, or is to call one of the callbacks in `bad`. -/
def Doomed (bad : K → Prop) (l : EventLoop S C R K A) : Prop :=
  l.wedged = true ∨ ∃ x ∈ l.queue, bad x.2

section Doomed

variable {p : Program S C R K A E} {l : EventLoop S C R K A} {bad : K → Prop}

/-- Callbacks add to the queue: one that is to be called is still so. -/
theorem Doomed.exec {m : Js S C R K A E α} (h : l.Doomed bad) (hm : Adds m) :
    (exec m l).2.Doomed bad := by
  obtain ⟨hqueue, hwedged⟩ := hm l
  rcases h with h | ⟨x, hx, hbad⟩
  · exact .inl (hwedged.trans h)
  · exact .inr ⟨x, hqueue.subset hx, hbad⟩

theorem Doomed.next (h : l.Doomed bad) (hadds : ∀ k a, Adds (p.apply k a))
    (hbad : ∀ k, bad k → ∀ a l, ∃ e, (EventLoop.exec (p.apply k a) l).1 = .error e) {e : Event R}
    (he : (system p).Enabled l e) : ((system p).next l e).Doomed bad := by
  obtain ⟨state, queue, ticks, wedged, issued, replies, answers⟩ := l
  cases e with
  | tick => cases ticks with
    | nil => exact absurd rfl he
    | cons x ticks => exact Doomed.exec (l := ⟨state, queue, ticks, _, _, _, _⟩) h (hadds x.1 x.2)
  | complete r =>
    obtain ⟨-, rfl, c, k, queue, rfl, -⟩ := he
    obtain ⟨x, hx, hbadx⟩ := h.resolve_left Bool.false_ne_true
    dsimp only [system]
    rcases List.mem_cons.1 hx with rfl | hx
    · -- it is its turn, and it throws
      obtain ⟨e, he⟩ := hbad k hbadx (p.args r) ⟨p.receive state c r, queue, ticks, false, issued,
        replies ++ [(c, r)], answers⟩
      exact .inl (wedged_settle_of_error he)
    · have hdoomed : Doomed bad ⟨p.receive state c r, queue, ticks, false, issued,
          replies ++ [(c, r)], answers⟩ := .inr ⟨x, hx, hbadx⟩
      rcases hdoomed.exec (hadds k (p.args r)) with hwedged | hqueue
      · exact .inl (wedged_settle hwedged)
      · exact .inr (by rwa [settle_queue])

/-- A callback that is to be called, and always throws, wedges the queue: a run that is over
    is over because of it. -/
theorem wedged_of_throws (bad : K → Prop) {l₀ : EventLoop S C R K A} (h : l₀.Doomed bad)
    (hadds : ∀ k a, Adds (p.apply k a))
    (hbad : ∀ k, bad k → ∀ a l, ∃ e, (EventLoop.exec (p.apply k a) l).1 = .error e)
    (hfits : ∀ c, ∃ r, p.Fits c r) (hl : (system p).Reachable l₀ l) (hover : (system p).Halted l) :
    l.wedged = true := by
  rcases hl.invariant h fun _ _ h he => h.next hadds hbad he with hwedged | ⟨⟨c, k⟩, hx, -⟩
  · exact hwedged
  · -- otherwise something may happen
    by_contra hwedged
    have hticks : l.ticks = [] := not_not.1 (hover .tick)
    obtain ⟨⟨c, k⟩, queue, hqueue⟩ := List.exists_cons_of_ne_nil (List.ne_nil_of_mem hx)
    obtain ⟨r, hr⟩ := hfits c
    exact hover (.complete r) ⟨hticks, Bool.eq_false_iff.2 hwedged, c, k, queue, hqueue, hr⟩

end Doomed

/-! ## Being over some day -/

/-- Bounds on what a callback makes happen: if it is given the failure of its call, and if it
    was deferred. -/
structure Budget (K : Type) where
  failed : K → ℕ
  deferred : K → ℕ

namespace Budget

variable (b : Budget K)

/-- The sum of the numbers given by `f`. -/
def total {X : Type} (f : X → ℕ) : List X → ℕ
  | [] => 0
  | x :: xs => f x + total f xs

theorem total_concat {X : Type} (f : X → ℕ) (xs : List X) (x : X) :
    total f (xs ++ [x]) = total f xs + f x := by
  induction xs with
  | nil => simp [total]
  | cons y xs ih => simp only [List.cons_append, total, ih, Nat.add_assoc]

/-- A bound on what is left to happen, if calls fail. -/
def load (l : EventLoop S C R K A) : ℕ :=
  total (fun x => b.failed x.2 + 1) l.queue + total (fun x => b.deferred x.1 + 1) l.ticks

/-- A computation makes no more than `n` things happen. -/
def Allows (n : ℕ) (m : Js S C R K A E α) : Prop := ∀ l, b.load (exec m l).2 ≤ b.load l + n

variable {b} {n n' : ℕ}

theorem Allows.mono {m : Js S C R K A E α} (h : b.Allows n m) (hle : n ≤ n') : b.Allows n' m :=
  fun l => Nat.le_trans (h l) (Nat.add_le_add_left hle _)

theorem allows_of_frame {m : Js S C R K A E α}
    (h : ∀ l, (exec m l).2.queue = l.queue ∧ (exec m l).2.ticks = l.ticks) : b.Allows n m := by
  intro l
  rw [load, (h l).1, (h l).2]
  exact Nat.le_add_right _ _

theorem Allows.bind {m : Js S C R K A E α} {f : α → Js S C R K A E β} (hm : b.Allows n m)
    (hf : ∀ a, b.Allows n' (f a)) : b.Allows (n + n') (m >>= f) := by
  intro l
  have hle := hm l
  rw [exec_bind]
  obtain ⟨r, l', hexec⟩ : ∃ r l', exec m l = (r, l') := ⟨_, _, rfl⟩
  rw [hexec] at hle ⊢
  cases r with
  | error e => exact Nat.le_trans hle (Nat.add_le_add_left (Nat.le_add_right n n') _)
  | ok a => exact Nat.le_trans (hf a l') (by simp only at hle; omega)

theorem Allows.tryCatch {m : Js S C R K A E α} {f : E → Js S C R K A E α} (hm : b.Allows 0 m)
    (hf : ∀ e, b.Allows n (f e)) : b.Allows n (tryCatch m f) := by
  intro l
  have hle := hm l
  rw [exec_tryCatch]
  obtain ⟨r, l', hexec⟩ : ∃ r l', exec m l = (r, l') := ⟨_, _, rfl⟩
  rw [hexec] at hle ⊢
  cases r with
  | error e => exact Nat.le_trans (hf e l') (Nat.add_le_add_right hle _)
  | ok a => exact Nat.le_trans hle (Nat.le_add_right _ _)

theorem allows_issue (c : C) {k : K} (h : b.failed k < n) :
    b.Allows n (EventLoop.issue c k : Js S C R K A E Unit) := by
  intro l
  simp only [load, exec_issue, total_concat]
  omega

theorem allows_defer {k : K} (a : A) (h : b.deferred k < n) :
    b.Allows n (EventLoop.defer k a : Js S C R K A E Unit) := by
  intro l
  simp only [load, exec_defer, total_concat]
  omega

/-! ### Adding to the queue -/

/-- A computation makes no more than `n` things happen, and only adds to the queue. -/
structure Behaves (b : Budget K) (n : ℕ) (m : Js S C R K A E α) : Prop where
  allows : b.Allows n m
  adds : Adds m

section Behaves

theorem behaves_of_frame {m : Js S C R K A E α} (h : ∀ l, (exec m l).2.queue = l.queue ∧
    (exec m l).2.ticks = l.ticks ∧ (exec m l).2.wedged = l.wedged) : b.Behaves n m :=
  ⟨allows_of_frame fun l => ⟨(h l).1, (h l).2.1⟩, adds_of_frame fun l => ⟨(h l).1, (h l).2.2⟩⟩

theorem behaves_throw (e : E) : b.Behaves n (throw e : Js S C R K A E α) :=
  behaves_of_frame fun _ => ⟨rfl, rfl, rfl⟩

theorem behaves_answer (throws : ℕ → Option E) (a : A) :
    b.Behaves n (answer throws a : Js S C R K A E Unit) :=
  behaves_of_frame fun l => by simp [exec_answer]

theorem Behaves.mono {m : Js S C R K A E α} (h : b.Behaves n m) (hle : n ≤ n') :
    b.Behaves n' m :=
  ⟨h.allows.mono hle, h.adds⟩

theorem Behaves.bind {m : Js S C R K A E α} {f : α → Js S C R K A E β} (hm : b.Behaves n m)
    (hf : ∀ a, b.Behaves n' (f a)) : b.Behaves (n + n') (m >>= f) :=
  ⟨hm.allows.bind fun a => (hf a).allows, hm.adds.bind fun a => (hf a).adds⟩

/-- A computation that makes nothing happen comes first. -/
theorem Behaves.after {m : Js S C R K A E α} {f : α → Js S C R K A E β} (hm : b.Behaves 0 m)
    (hf : ∀ a, b.Behaves n (f a)) : b.Behaves n (m >>= f) :=
  (hm.bind hf).mono (Nat.le_of_eq (Nat.zero_add n))

theorem Behaves.tryCatch {m : Js S C R K A E α} {f : E → Js S C R K A E α} (hm : b.Behaves 0 m)
    (hf : ∀ e, b.Behaves n (f e)) : b.Behaves n (tryCatch m f) :=
  ⟨hm.allows.tryCatch fun e => (hf e).allows, hm.adds.tryCatch fun e => (hf e).adds⟩

theorem behaves_issue (c : C) {k : K} (h : b.failed k < n) :
    b.Behaves n (EventLoop.issue c k : Js S C R K A E Unit) :=
  ⟨allows_issue c h, adds_issue c k⟩

theorem behaves_defer {k : K} (a : A) (h : b.deferred k < n) :
    b.Behaves n (EventLoop.defer k a : Js S C R K A E Unit) :=
  ⟨allows_defer a h, adds_defer k a⟩

end Behaves

/-- The callbacks of a program keep to a budget, if the calls get the reply `fail`. -/
structure Bounds (b : Budget K) (p : Program S C R K A E) (fail : R) : Prop where
  fits : ∀ c, p.Fits c fail
  failed : ∀ k, b.Allows (b.failed k) (p.apply k (p.args fail))
  deferred : ∀ k a, b.Allows (b.deferred k) (p.apply k a)

/-- A run may always be over some day. -/
theorem Bounds.exists_halted {p : Program S C R K A E} {fail : R} (h : b.Bounds p fail)
    (l : EventLoop S C R K A) : ∃ l', (system p).Reachable l l' ∧ (system p).Halted l' := by
  refine System.exists_halted b.load (fun l hl => ?_) l
  obtain ⟨state, queue, ticks, wedged, issued, replies, answers⟩ := l
  cases ticks with
  | cons x ticks =>
    refine ⟨.tick, List.cons_ne_nil _ _, ?_⟩
    have hle := h.deferred x.1 x.2 ⟨state, queue, ticks, wedged, issued, replies, answers⟩
    simp only [system, load, total] at hle ⊢
    omega
  | nil =>
    -- something may happen, so a call is not replied to and the queue is not wedged
    obtain ⟨e, he⟩ := not_forall_not.1 hl
    cases e with
    | tick => exact absurd rfl he
    | complete r =>
      obtain ⟨-, hwedged, c, k, queue', rfl, -⟩ := he
      refine ⟨.complete fail, ⟨rfl, hwedged, c, k, queue', rfl, h.fits c⟩, ?_⟩
      have hle := h.failed k ⟨p.receive state c fail, queue', [], wedged, issued,
        replies ++ [(c, fail)], answers⟩
      simp only [system, load, settle_queue, settle_ticks, total] at hle ⊢
      omega

end Budget

end EventLoop

end NodeLkl
