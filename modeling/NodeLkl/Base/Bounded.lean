import NodeLkl.Base.EventLoop

/-!
# Computations with loops

A computation on a state may return, throw, or go on for ever. It is run with a bound
on the rounds of each of its loops: if a loop has not ended by then, what is seen is
the state reached. With a larger bound, a computation that ended gives the same
(`Comp.stable`), so that bounds only tell how far one looks.

* `Comp.handle`: a computation, and what is done with its outcome. Sequences,
  `tryCatch` and `tryFinally` are cases of it. A loop is `Comp.loop`.
* `Comp.Keeps`: what a computation never changes, whether or not it ends.
* `Comp.Prompt`: a computation ends, with no loop going past its first round;
  `Comp.Throws`: moreover, it throws.
* `Comp.Quiet`: a computation is prompt, and keeps what is to be kept. There is a rule for
  each combinator (`Comp.Quiet.bind`, and so on).
* `Comp.ends_loop_iff`: a loop ends exactly if there is no infinite sequence of rounds.
-/

namespace NodeLkl

/-- A computation: what it returned or threw, unless it is still running, and the
    state, given a bound on the rounds of loops. -/
structure Comp (S E α : Type) where
  run : ℕ → S → Option (Except E α) × S
  stable : ∀ {n n' : ℕ} {s : S}, n ≤ n' → (run n s).1 ≠ none → run n' s = run n s

namespace Comp

variable {S E α β γ σ : Type}

/-! ## Combinators -/

/-- A computation without loops. -/
def ofStep (f : S → Except E α × S) : Comp S E α where
  run _ s := (some (f s).1, (f s).2)
  stable _ _ := rfl

/-- What is done already. -/
def done (r : Except E α) : Comp S E α := ofStep fun s => (r, s)

/-- A computation, and then what is done with its outcome. -/
def handle (m : Comp S E α) (k : Except E α → Comp S E β) : Comp S E β where
  run n s := match m.run n s with
    | (some r, s') => (k r).run n s'
    | (none, s') => (none, s')
  stable {n n' s} hle hdone := by
    obtain ⟨r, s', hrun⟩ : ∃ r s', m.run n s = (r, s') := ⟨_, _, rfl⟩
    rw [hrun] at hdone ⊢
    cases r with
    | none => exact absurd rfl hdone
    | some r =>
      have hrun' : m.run n' s = (some r, s') := by
        rw [m.stable hle (by simp [hrun]), hrun]
      rw [hrun']
      exact (k r).stable hle hdone

instance : Monad (Comp S E) where
  pure a := done (.ok a)
  bind m f := m.handle fun
    | .ok a => f a
    | .error e => done (.error e)

instance : MonadExceptOf E (Comp S E) where
  throw e := done (.error e)
  tryCatch m f := m.handle fun
    | .ok a => done (.ok a)
    | .error e => f e

instance : MonadLift (Except E) (Comp S E) := ⟨done⟩

/-- What callbacks do has no loops. -/
instance {C R K A : Type} : MonadLift (EventLoop.Js S C R K A E) (Comp (EventLoop S C R K A) E) :=
  ⟨fun m => ofStep (EventLoop.exec m)⟩

/-- A computation with a `finally` block, which is told whether the computation threw.
    What the block throws comes first. -/
def tryFinally (m : Comp S E α) (block : Bool → Comp S E Unit) : Comp S E α :=
  m.handle fun r => block (!r.isOk) >>= fun _ => done r

/-- At most `k` rounds of a loop. -/
def rounds (body : σ → Comp S E (σ ⊕ β)) (n : ℕ) : ℕ → σ → S → Option (Except E β) × S
  | 0, _, s => (none, s)
  | k + 1, x, s => match (body x).run n s with
    | (some (.ok (.inl y)), s') => rounds body n k y s'
    | (some (.ok (.inr b)), s') => (some (.ok b), s')
    | (some (.error e), s') => (some (.error e), s')
    | (none, s') => (none, s')

theorem rounds_stable (body : σ → Comp S E (σ ⊕ β)) {n n' k k' : ℕ} {x : σ} {s : S}
    (hn : n ≤ n') (hk : k ≤ k') (hdone : (rounds body n k x s).1 ≠ none) :
    rounds body n' k' x s = rounds body n k x s := by
  induction k generalizing k' x s with
  | zero => exact absurd rfl hdone
  | succ k ih =>
    obtain ⟨k', rfl⟩ : ∃ j, k' = j + 1 := ⟨k' - 1, by omega⟩
    obtain ⟨r, s', hrun⟩ : ∃ r s', (body x).run n s = (r, s') := ⟨_, _, rfl⟩
    simp only [rounds, hrun] at hdone ⊢
    cases r with
    | none => exact absurd rfl hdone
    | some r =>
      -- the round ended, and so it does with the larger bound
      have hrun' : (body x).run n' s = (some r, s') := by
        rw [(body x).stable hn (by simp [hrun]), hrun]
      simp only [hrun']
      rcases r with e | (y | b)
      · rfl
      · exact ih (by omega) hdone
      · rfl

/-- A loop: a round gives what the next one starts from, or the result. -/
def loop (body : σ → Comp S E (σ ⊕ β)) (x : σ) : Comp S E β where
  run n := rounds body n n x
  stable hle hdone := rounds_stable body hle hle hdone

section Run

variable (n : ℕ) (s : S)

@[simp]
theorem run_ofStep (f : S → Except E α × S) : (ofStep f).run n s = (some (f s).1, (f s).2) := rfl

@[simp]
theorem run_done (r : Except E α) : (done r : Comp S E α).run n s = (some r, s) := rfl

@[simp]
theorem run_pure (a : α) : (pure a : Comp S E α).run n s = (some (.ok a), s) := rfl

@[simp]
theorem run_throw (e : E) : (throw e : Comp S E α).run n s = (some (.error e), s) := rfl

@[simp]
theorem run_liftM (r : Except E α) : (liftM r : Comp S E α).run n s = (some r, s) := rfl

theorem run_handle (m : Comp S E α) (k : Except E α → Comp S E β) :
    (m.handle k).run n s = match m.run n s with
      | (some r, s') => (k r).run n s'
      | (none, s') => (none, s') := rfl

theorem run_bind (m : Comp S E α) (f : α → Comp S E β) :
    (m >>= f).run n s = match m.run n s with
      | (some (.ok a), s') => (f a).run n s'
      | (some (.error e), s') => (some (.error e), s')
      | (none, s') => (none, s') := by
  change (m.handle _).run n s = _
  rw [run_handle]
  rcases m.run n s with ⟨_ | _ | _, _⟩ <;> rfl

end Run

/-! ## What does not change -/

/-- What `f` tells of the state never changes. -/
def Keeps (f : S → γ) (m : Comp S E α) : Prop := ∀ n s, f (m.run n s).2 = f s

section Keeps

variable {f : S → γ}

theorem keeps_ofStep {step : S → Except E α × S} (h : ∀ s, f (step s).2 = f s) :
    (ofStep step).Keeps f :=
  fun _ => h

theorem keeps_done (r : Except E α) : (done r : Comp S E α).Keeps f := fun _ _ => rfl

theorem Keeps.handle {m : Comp S E α} {k : Except E α → Comp S E β} (hm : m.Keeps f)
    (hk : ∀ r, (k r).Keeps f) : (m.handle k).Keeps f := by
  intro n s
  have hfirst := hm n s
  rw [run_handle]
  generalize m.run n s = x at hfirst ⊢
  rcases x with ⟨_ | r, s'⟩
  · exact hfirst
  · exact (hk r n s').trans hfirst

theorem Keeps.bind {m : Comp S E α} {k : α → Comp S E β} (hm : m.Keeps f)
    (hk : ∀ a, (k a).Keeps f) : (m >>= k).Keeps f :=
  hm.handle fun
    | .ok a => hk a
    | .error _ => keeps_done _

theorem Keeps.loop {body : σ → Comp S E (σ ⊕ β)} (h : ∀ x, (body x).Keeps f) (x : σ) :
    (loop body x).Keeps f := by
  suffices hrounds : ∀ n k x s, f (rounds body n k x s).2 = f s from fun n s => hrounds n n x s
  intro n k
  induction k with
  | zero => exact fun _ _ => rfl
  | succ k ih =>
    intro x s
    have hround := h x n s
    rw [rounds]
    generalize (body x).run n s = o at hround ⊢
    rcases o with ⟨_ | _ | (y | _), s'⟩
    · exact hround
    · exact hround
    · exact (ih y s').trans hround
    · exact hround

end Keeps

/-! ## Ending -/

/-- A computation ends. -/
def Ends (m : Comp S E α) (s : S) : Prop := ∃ n, (m.run n s).1 ≠ none

/-- A computation ends, however small the bound on loops. -/
def Prompt (m : Comp S E α) : Prop := ∀ n s, (m.run (n + 1) s).1 ≠ none

/-- A computation throws, however small the bound on loops. -/
def Throws (m : Comp S E α) : Prop := ∀ n s, ∃ e, (m.run (n + 1) s).1 = some (.error e)

theorem Prompt.ends {m : Comp S E α} (h : m.Prompt) (s : S) : m.Ends s := ⟨1, h 0 s⟩

theorem Prompt.run_eq {m : Comp S E α} (h : m.Prompt) (n : ℕ) (s : S) :
    m.run (n + 1) s = m.run 1 s :=
  m.stable (by omega) (h 0 s)

theorem Throws.prompt {m : Comp S E α} (h : m.Throws) : m.Prompt := by
  intro n s
  obtain ⟨e, he⟩ := h n s
  simp [he]

theorem Throws.run_ne {m : Comp S E α} (h : m.Throws) (n : ℕ) (s : S) (a : α) :
    (m.run (n + 1) s).1 ≠ some (.ok a) := by
  obtain ⟨e, he⟩ := h n s
  simp [he]

theorem prompt_ofStep (step : S → Except E α × S) : (ofStep step).Prompt :=
  fun _ _ => Option.some_ne_none _

theorem prompt_liftM (r : Except E α) : (liftM r : Comp S E α).Prompt := prompt_ofStep _

theorem Prompt.handle {m : Comp S E α} {k : Except E α → Comp S E β} (hm : m.Prompt)
    (hk : ∀ r, (k r).Prompt) : (m.handle k).Prompt := by
  intro n s
  have hfirst := hm n s
  rw [run_handle]
  generalize m.run (n + 1) s = x at hfirst ⊢
  rcases x with ⟨_ | r, s'⟩
  · exact absurd rfl hfirst
  · exact hk r n s'

/-- Nothing is left to run after what is prompt. -/
theorem ends_bind_iff {m : Comp S E α} {k : α → Comp S E β} (hk : ∀ a, (k a).Prompt) (s : S) :
    (m >>= k).Ends s ↔ m.Ends s := by
  constructor
  · rintro ⟨n, hdone⟩
    refine ⟨n, fun hrun => hdone ?_⟩
    rw [run_bind]
    rcases hm : m.run n s with ⟨r, s'⟩
    rw [hm] at hrun
    obtain rfl : r = none := hrun
    rfl
  · rintro ⟨n, hdone⟩
    refine ⟨n + 1, ?_⟩
    rw [run_bind, m.stable (Nat.le_succ n) hdone]
    generalize m.run n s = x at hdone ⊢
    rcases x with ⟨_ | e | a, s'⟩
    · exact absurd rfl hdone
    · exact Option.some_ne_none _
    · exact hk a n s'

/-- What is done already goes on with its result, if it has one. -/
theorem ends_liftM_bind_iff {r : Except E α} {k : α → Comp S E β} (s : S) :
    (liftM r >>= k : Comp S E β).Ends s ↔ ∀ a, r = .ok a → (k a).Ends s := by
  simp only [Ends, run_bind, run_liftM]
  cases r with
  | ok a => simp
  | error e => simp

/-- What comes after a computation that throws does not matter. -/
theorem Throws.bind {m : Comp S E α} (h : m.Throws) (k : α → Comp S E β) : (m >>= k).Throws := by
  intro n s
  obtain ⟨e, he⟩ := h n s
  rw [run_bind]
  rcases hrun : m.run (n + 1) s with ⟨_ | _ | _, s'⟩ <;> rw [hrun] at he <;> cases he
  exact ⟨e, rfl⟩

/-- A computation throws if, once it comes to it, its last part does. -/
theorem Throws.after {m : Comp S E α} {k : α → Comp S E β} (hm : m.Prompt)
    (hk : ∀ a, (k a).Throws) : (m >>= k).Throws := by
  intro n s
  have hfirst := hm n s
  rw [run_bind]
  generalize m.run (n + 1) s = x at hfirst ⊢
  rcases x with ⟨_ | e | a, s'⟩
  · exact absurd rfl hfirst
  · exact ⟨e, rfl⟩
  · exact hk a n s'

/-- A loop ends exactly if there is no infinite sequence of rounds, where `R y x` if the
    round from `x` is followed by that from `y`. -/
theorem ends_loop_iff {body : σ → Comp S E (σ ⊕ β)} {R : σ → σ → Prop}
    (hprompt : ∀ x, (body x).Prompt)
    (hnext : ∀ x n s y, ((body x).run (n + 1) s).1 = some (.ok (.inl y)) ↔ R y x) (x : σ) (s : S) :
    (loop body x).Ends s ↔ Acc R x := by
  constructor
  · rintro ⟨n, hdone⟩
    cases n with
    | zero => exact absurd rfl hdone
    | succ n =>
      -- by induction on the number of rounds
      suffices hrounds : ∀ k x s, (rounds body (n + 1) k x s).1 ≠ none → Acc R x from
        hrounds (n + 1) x s hdone
      intro k
      induction k with
      | zero => exact fun _ _ hdone => absurd rfl hdone
      | succ k ih =>
        intro x s hdone
        refine ⟨x, fun y hy => ?_⟩
        have hround := (hnext x n s y).2 hy
        rw [rounds] at hdone
        rcases hrun : (body x).run (n + 1) s with ⟨r, s'⟩
        rw [hrun] at hround hdone
        obtain rfl : r = some (.ok (.inl y)) := hround
        exact ih y s' hdone
  · intro hacc
    -- the rounds are as many, whatever the bound
    suffices hrounds : ∃ k, ∀ n k', k ≤ k' → (rounds body (n + 1) k' x s).1 ≠ none by
      obtain ⟨k, hk⟩ := hrounds
      exact ⟨k + 1, hk k (k + 1) (Nat.le_succ k)⟩
    induction hacc generalizing s with
    | intro x _ ih =>
      rcases hrun : (body x).run 1 s with ⟨_ | e | (y | b), s'⟩
      · exact absurd (congrArg Prod.fst hrun) (hprompt x 0 s)
      · refine ⟨1, fun n k' hk' => ?_⟩
        obtain ⟨k', rfl⟩ : ∃ j, k' = j + 1 := ⟨k' - 1, by omega⟩
        rw [rounds, (hprompt x).run_eq, hrun]
        exact Option.some_ne_none _
      · obtain ⟨k, hk⟩ := ih y ((hnext x 0 s y).1 (congrArg Prod.fst hrun)) s'
        refine ⟨k + 1, fun n k' hk' => ?_⟩
        obtain ⟨k', rfl⟩ : ∃ j, k' = j + 1 := ⟨k' - 1, by omega⟩
        rw [rounds, (hprompt x).run_eq, hrun]
        exact hk n k' (by omega)
      · refine ⟨1, fun n k' hk' => ?_⟩
        obtain ⟨k', rfl⟩ : ∃ j, k' = j + 1 := ⟨k' - 1, by omega⟩
        rw [rounds, (hprompt x).run_eq, hrun]
        exact Option.some_ne_none _

/-! ## Both -/

/-- A computation is prompt, and what `f` tells of the state never changes. -/
structure Quiet (f : S → γ) (m : Comp S E α) : Prop where
  keeps : m.Keeps f
  prompt : m.Prompt

section Quiet

variable {f : S → γ}

theorem quiet_ofStep {step : S → Except E α × S} (h : ∀ s, f (step s).2 = f s) :
    (ofStep step).Quiet f :=
  ⟨keeps_ofStep h, prompt_ofStep step⟩

theorem quiet_done (r : Except E α) : (done r : Comp S E α).Quiet f := quiet_ofStep fun _ => rfl

theorem quiet_pure (a : α) : (pure a : Comp S E α).Quiet f := quiet_done _

theorem quiet_throw (e : E) : (throw e : Comp S E α).Quiet f := quiet_done _

theorem quiet_liftM (r : Except E α) : (liftM r : Comp S E α).Quiet f := quiet_done _

theorem Quiet.handle {m : Comp S E α} {k : Except E α → Comp S E β} (hm : m.Quiet f)
    (hk : ∀ r, (k r).Quiet f) : (m.handle k).Quiet f :=
  ⟨hm.keeps.handle fun r => (hk r).keeps, hm.prompt.handle fun r => (hk r).prompt⟩

theorem Quiet.bind {m : Comp S E α} {k : α → Comp S E β} (hm : m.Quiet f)
    (hk : ∀ a, (k a).Quiet f) : (m >>= k).Quiet f :=
  hm.handle fun
    | .ok a => hk a
    | .error _ => quiet_done _

/-- What is done already goes on with its result, if it has one. -/
theorem quiet_liftM_bind {r : Except E α} {k : α → Comp S E β}
    (hk : ∀ a, r = .ok a → (k a).Quiet f) : (liftM r >>= k : Comp S E β).Quiet f := by
  cases r with
  | ok a => exact hk a rfl
  | error e => exact quiet_throw e

/-- What comes after a computation that throws does not matter. -/
theorem Quiet.bind_of_throws {m : Comp S E α} (hm : m.Quiet f) (ht : m.Throws)
    (k : α → Comp S E β) : (m >>= k).Quiet f := by
  refine ⟨fun n s => ?_, (ht.bind k).prompt⟩
  have hkeeps := hm.keeps n s
  rw [run_bind]
  rcases hrun : m.run n s with ⟨_ | _ | a, s'⟩ <;> rw [hrun] at hkeeps
  · exact hkeeps
  · exact hkeeps
  · -- it would have returned with a larger bound
    obtain ⟨e, he⟩ := ht n s
    rw [m.stable (Nat.le_succ n) (by simp [hrun]), hrun] at he
    cases he

theorem Quiet.tryCatch {m : Comp S E α} {k : E → Comp S E α} (hm : m.Quiet f)
    (hk : ∀ e, (k e).Quiet f) : (tryCatch m k).Quiet f :=
  hm.handle fun
    | .ok _ => quiet_done _
    | .error e => hk e

theorem Quiet.tryFinally {m : Comp S E α} {block : Bool → Comp S E Unit} (hm : m.Quiet f)
    (hblock : ∀ b, (block b).Quiet f) : (m.tryFinally block).Quiet f :=
  hm.handle fun _ => (hblock _).bind fun _ => quiet_done _

/-- A loop whose rounds either throw or are the last one. -/
theorem Quiet.loop {body : σ → Comp S E (σ ⊕ β)} (hquiet : ∀ x, (body x).Quiet f)
    (hlast : ∀ x n s y, ((body x).run (n + 1) s).1 ≠ some (.ok (.inl y))) (x : σ) :
    (loop body x).Quiet f := by
  refine ⟨Keeps.loop (fun x => (hquiet x).keeps) x, fun n s => ?_⟩
  have hround := (hquiet x).prompt n s
  have hinl := hlast x n s
  rw [show (Comp.loop body x).run (n + 1) s = rounds body (n + 1) (n + 1) x s from rfl, rounds]
  generalize (body x).run (n + 1) s = o at hround hinl ⊢
  rcases o with ⟨_ | e | (y | b), s'⟩
  · exact absurd rfl hround
  · exact Option.some_ne_none _
  · exact absurd rfl (hinl y)
  · exact Option.some_ne_none _

end Quiet

end Comp

end NodeLkl
