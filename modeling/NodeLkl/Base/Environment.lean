import NodeLkl.Base.EventLoop

/-!
# Programs in an environment

The calls of a program of callbacks are replied to by an environment: it has a state, which
restricts the replies and is changed by them.

* `within`: a program, and its environment. If the latter may always reply, a program that
  is over there is over (`halted_fst`).
* `StepsWithin`: what may be said, in an environment, of a program doing one thing at a time
  (`Chain`), with a bound on what is left to do. It then holds after any run, which is not
  longer than the bound (`StepsWithin.run`).
-/

namespace NodeLkl

namespace EventLoop

variable {S C R K A E W : Type}

/-- The replies to calls, and what they change. The state of the program is what the
    environment finds in its memory. -/
structure Environment (S C R W : Type) where
  Allows : W → C → R → Prop
  effect : W → S → C → R → W

/-- Running a program in an environment. -/
def within (p : Program S C R K A E) (env : Environment S C R W) :
    System (EventLoop S C R K A × W) (Event R) where
  Enabled x
    | .tick => (system p).Enabled x.1 .tick
    | .complete r => (system p).Enabled x.1 (.complete r) ∧
        ∀ c k queue, x.1.queue = (c, k) :: queue → env.Allows x.2 c r
  next x
    | .tick => ((system p).next x.1 .tick, x.2)
    | .complete r => ((system p).next x.1 (.complete r), match x.1.queue with
      | [] => x.2
      | (c, _) :: _ => env.effect x.2 x.1.state c r)

variable {p : Program S C R K A E} {env : Environment S C R W}

/-- The next call is replied to, as the environment allows. -/
theorem enabled_complete {x : EventLoop S C R K A × W} {c : C} {k : K} {queue : List (C × K)}
    {r : R}
    (hticks : x.1.ticks = []) (hwedged : x.1.wedged = false) (hq : x.1.queue = (c, k) :: queue)
    (hfits : p.Fits c r) (hallows : env.Allows x.2 c r) :
    (within p env).Enabled x (.complete r) := by
  refine ⟨⟨hticks, hwedged, c, k, queue, hq, hfits⟩, ?_⟩
  intro c' k' queue' hq'
  obtain ⟨⟨rfl, rfl⟩, rfl⟩ : (c = c' ∧ k = k') ∧ queue = queue' := by simpa [hq] using hq'
  exact hallows

/-- A program with nothing pending is over. -/
theorem Inert.halted_within {x : EventLoop S C R K A × W} (hx : x.1.Inert) :
    (within p env).Halted x := by
  intro e he
  cases e with
  | tick => exact hx.not_enabled (p := p) .tick he
  | complete r => exact hx.not_enabled (p := p) (.complete r) he.1

/-- If every call may be replied to, a program that is over in an environment is over. -/
theorem halted_fst {x : EventLoop S C R K A × W} (hx : (within p env).Halted x)
    (hreply : ∀ c, ∃ r, p.Fits c r ∧ env.Allows x.2 c r) : (system p).Halted x.1 := by
  intro e he
  cases e with
  | tick => exact hx .tick he
  | complete r =>
    obtain ⟨hticks, hwedged, c, k, queue, hq, -⟩ := he
    obtain ⟨r, hfits, hallows⟩ := hreply c
    exact hx (.complete r) (enabled_complete hticks hwedged hq hfits hallows)

/-- In the state `w` of the environment, and with `n` things left to do at most, what holds
    is `ch n w`: every callback does one thing, and there is less left to do. -/
structure StepsWithin (ch : ℕ → W → Chain S C R K A) (prior : List A) (p : Program S C R K A E)
    (env : Environment S C R W) : Prop where
  complete : ∀ {n w c k s is rs r}, (ch n w).Pending c k s is rs → p.Fits c r →
    env.Allows w c r → ∃ m < n, (ch m (env.effect w s c r)).Does prior
      (exec (p.apply k (p.args r)) (idle prior (p.receive s c r) is (rs ++ [(c, r)])))
  tick : ∀ {n w k a s is rs}, (ch n w).Deferred k a s is rs →
    ∃ m < n, (ch m w).Does prior (exec (p.apply k a) (idle prior s is rs))
  broken : ∀ {n w l}, ¬(ch n w).Broken l

namespace StepsWithin

variable {ch : ℕ → W → Chain S C R K A} {prior : List A} {n : ℕ} {l : EventLoop S C R K A} {w : W}

theorem next (hs : StepsWithin ch prior p env) (h : (ch n w).Holds prior l) {e : Event R}
    (he : (within p env).Enabled (l, w) e) :
    ∃ m < n, (ch m ((within p env).next (l, w) e).2).Holds prior
      ((within p env).next (l, w) e).1 := by
  cases h with
  | pending h => cases e with
    | tick => exact absurd rfl he
    | complete r =>
      obtain ⟨⟨-, -, c, k, queue, hq, hr⟩, hallows⟩ := he
      obtain ⟨⟨rfl, rfl⟩, rfl⟩ : (_ = c ∧ _ = k) ∧ [] = queue := by simpa using hq
      obtain ⟨m, hm, hdoes⟩ := hs.complete h hr (hallows _ _ _ rfl)
      exact ⟨m, hm, hdoes.holds_settle⟩
  | deferred h => cases e with
    | tick =>
      obtain ⟨m, hm, hdoes⟩ := hs.tick h
      exact ⟨m, hm, hdoes.holds⟩
    | complete r => exact absurd he.1.1 (by simp)
  | answered h => cases e with
    | tick => exact absurd rfl he
    | complete r =>
      obtain ⟨⟨-, -, c, k, queue, hq, -⟩, -⟩ := he
      simp at hq
  | broken h => exact absurd h hs.broken

/-- A run has no more events than there were things left to do. -/
theorem run (hs : StepsWithin ch prior p env) (h : (ch n w).Holds prior l) {es : List (Event R)}
    (hrun : (within p env).IsRun (l, w) es) :
    ∃ m, m + es.length ≤ n ∧
      (ch m ((within p env).run (l, w) es).2).Holds prior ((within p env).run (l, w) es).1 := by
  -- `n` bounds what is left to do, and every event leaves a chain with a lower bound.
  induction es generalizing n l w with
  | nil => exact ⟨n, Nat.le_refl n, h⟩
  | cons e es ih =>
    obtain ⟨m, hm, hnext⟩ := hs.next h hrun.1
    obtain ⟨m', hm', hholds⟩ := ih hnext hrun.2
    refine ⟨m', ?_, hholds⟩
    rw [List.length_cons]
    omega

/-- A run that is over has answered. -/
theorem exists_answer (hs : StepsWithin ch prior p env) (h : (ch n w).Holds prior l)
    (hreply : ∀ c, ∃ r, p.Fits c r ∧ env.Allows w c r) (hover : (within p env).Halted (l, w)) :
    ∃ a, l.answers = prior ++ [a] ∧ (ch n w).Answered a l.state l.issued l.replies := by
  have hfits : ∀ c, ∃ r, p.Fits c r := fun c => (hreply c).imp fun _ hr => hr.1
  rcases h.exists_answer hfits (halted_fst hover hreply) with hanswer | hbroken
  · exact hanswer
  · exact absurd hbroken hs.broken

end StepsWithin

end EventLoop

end NodeLkl
