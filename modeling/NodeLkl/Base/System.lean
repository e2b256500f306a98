import Mathlib.Logic.Basic
import Mathlib.Tactic.Common

/-!
# Transition systems

A system is given by the events that may happen in each of its states, and the
state each of them leads to. The nondeterminism (the choices of a scheduler, of
the user, of the results of calls) is in the events.

* A run is a list of events happening one after the other (`IsRun`); the states
  it goes through are `Reachable`.
* What holds initially and is kept by every event holds in every reachable
  state (`Reachable.invariant`).
* A system in which a number decreases halts (`exists_halted`), after that number
  of events (`IsRun.length_le`).
* The states of a system that is part of another one are reachable in it, if
  the events of the latter do to it what its own do, or nothing
  (`Reachable.map`); it may be enough that they do in the states with an
  invariant (`Reachable.refine`).
-/

namespace NodeLkl

/-- A transition system on the states `S`, with the events `L`. -/
structure System (S L : Type*) where
  /-- The events that may happen in a state. -/
  Enabled : S → L → Prop
  /-- The state an event leads to. -/
  next : S → L → S

namespace System

variable {S L : Type*} (m : System S L)

/-- The events `ls` may happen, one after the other, from `s` on. -/
def IsRun : S → List L → Prop
  | _, [] => True
  | s, l :: ls => m.Enabled s l ∧ IsRun (m.next s l) ls

/-- The state the events `ls` lead to. -/
def run (s : S) (ls : List L) : S := ls.foldl m.next s

/-- Every event of `ls` has the property `P`, in the state it happens in. -/
def Along (P : S → L → Prop) : S → List L → Prop
  | _, [] => True
  | s, l :: ls => P s l ∧ Along P (m.next s l) ls

/-- The states that can be reached from `s₀`. -/
inductive Reachable (s₀ : S) : S → Prop
  | refl : Reachable s₀ s₀
  | step {s : S} {l : L} : Reachable s₀ s → m.Enabled s l → Reachable s₀ (m.next s l)

/-- The system `m`, restricted to the events with the property `P`. -/
def restrict (P : S → L → Prop) : System S L where
  Enabled s l := m.Enabled s l ∧ P s l
  next := m.next

/-- Nothing may happen any more. -/
def Halted (s : S) : Prop := ∀ l, ¬m.Enabled s l

variable {m}

/-- What holds initially, and is kept by every event, holds in every state that
    can be reached. -/
theorem Reachable.invariant {P : S → Prop} {s₀ s : S} (hs : m.Reachable s₀ s) (h₀ : P s₀)
    (hstep : ∀ s l, P s → m.Enabled s l → P (m.next s l)) : P s := by
  induction hs with
  | refl => exact h₀
  | step _ hl ih => exact hstep _ _ ih hl

theorem Reachable.trans {s₀ s s' : S} (hs : m.Reachable s₀ s) (hs' : m.Reachable s s') :
    m.Reachable s₀ s' := by
  induction hs' with
  | refl => exact hs
  | step _ hl ih => exact .step ih hl

/-- A run goes through states that can be reached. -/
theorem reachable_run {s : S} {ls : List L} (h : m.IsRun s ls) : m.Reachable s (m.run s ls) := by
  induction ls generalizing s with
  | nil => exact .refl
  | cons l ls ih => exact (Reachable.refl.step h.1).trans (ih h.2)

theorem isRun_append {s : S} {ls ls' : List L} :
    m.IsRun s (ls ++ ls') ↔ m.IsRun s ls ∧ m.IsRun (m.run s ls) ls' := by
  induction ls generalizing s with
  | nil => simp [IsRun, run]
  | cons l ls ih => simp [IsRun, run, ih, and_assoc]

/-- A state that can be reached is reached by a run. -/
theorem Reachable.exists_run {s₀ s : S} (hs : m.Reachable s₀ s) :
    ∃ ls, m.IsRun s₀ ls ∧ m.run s₀ ls = s := by
  induction hs with
  | refl => exact ⟨[], trivial, rfl⟩
  | @step s l _ hl ih =>
    obtain ⟨ls, hls, rfl⟩ := ih
    exact ⟨ls ++ [l], isRun_append.2 ⟨hls, hl, trivial⟩, by simp [run]⟩

/-- A run of events with the property `P` is one of the restricted system. -/
theorem isRun_restrict {P : S → L → Prop} {s : S} {ls : List L} :
    (m.restrict P).IsRun s ls ↔ m.IsRun s ls ∧ m.Along P s ls := by
  induction ls generalizing s with
  | nil => simp [IsRun, Along]
  | cons l ls ih =>
    simp only [IsRun, Along, ih]
    exact ⟨fun ⟨⟨hl, hp⟩, hr, ha⟩ => ⟨⟨hl, hr⟩, hp, ha⟩,
      fun ⟨⟨hl, hr⟩, hp, ha⟩ => ⟨⟨hl, hp⟩, hr, ha⟩⟩

/-- More can be reached if more may happen. -/
theorem Reachable.mono {m' : System S L} {s₀ s : S} (hs : m.Reachable s₀ s)
    (henabled : ∀ s l, m.Enabled s l → m'.Enabled s l) (hnext : m'.next = m.next) :
    m'.Reachable s₀ s := by
  induction hs with
  | refl => exact .refl
  | @step s l _ hl ih =>
    rw [← hnext]
    exact .step ih (henabled s l hl)

theorem Reachable.of_restrict {P : S → L → Prop} {s₀ s : S}
    (hs : (m.restrict P).Reachable s₀ s) : m.Reachable s₀ s :=
  hs.mono (fun _ _ hl => hl.1) rfl

theorem along_congr {P Q : S → L → Prop} (h : ∀ s l, P s l ↔ Q s l) {s : S} {ls : List L} :
    m.Along P s ls ↔ m.Along Q s ls := by
  induction ls generalizing s with
  | nil => rfl
  | cons l ls ih => exact and_congr (h s l) ih

theorem along_and {P Q : S → L → Prop} {s : S} {ls : List L} :
    m.Along (fun s l => P s l ∧ Q s l) s ls ↔ m.Along P s ls ∧ m.Along Q s ls := by
  induction ls generalizing s with
  | nil => simp [Along]
  | cons l ls ih =>
    simp only [Along, ih]
    exact and_and_and_comm

/-- A state from which nothing may happen can be reached, if a number decreases as long as
    something may. -/
theorem exists_halted (rank : S → ℕ)
    (hrank : ∀ s, ¬m.Halted s → ∃ l, m.Enabled s l ∧ rank (m.next s l) < rank s) (s : S) :
    ∃ s', m.Reachable s s' ∧ m.Halted s' := by
  -- By induction on the rank: as long as something may happen, something lowers it.
  induction hn : rank s using Nat.strongRecOn generalizing s with
  | ind n ih =>
    by_cases hs : m.Halted s
    · exact ⟨s, .refl, hs⟩
    · obtain ⟨l, hl, hlt⟩ := hrank s hs
      obtain ⟨s', hs', hhalted⟩ := ih _ (hn ▸ hlt) _ rfl
      exact ⟨s', (Reachable.refl.step hl).trans hs', hhalted⟩

/-- A run is not longer than a number that decreases with every event, in the states with
    the invariant `P`. -/
theorem IsRun.length_le {P : S → Prop} (rank : S → ℕ)
    (hstep : ∀ s l, P s → m.Enabled s l → P (m.next s l) ∧ rank (m.next s l) < rank s) {s : S}
    {ls : List L} (h : m.IsRun s ls) (hs : P s) : ls.length ≤ rank s := by
  induction ls generalizing s with
  | nil => exact Nat.zero_le _
  | cons l ls ih =>
    obtain ⟨hs', hlt⟩ := hstep s l hs h.1
    exact Nat.succ_le_of_lt (Nat.lt_of_le_of_lt (ih h.2 hs') hlt)

variable {S' L' : Type*} {m' : System S' L'}

/-- If `m'` is part of `m`, a state of it in a state of `m` that can be reached
    can be reached: every event of `m` is an event of `m'`, or leaves it. -/
theorem Reachable.map {f : S → S'} {s₀ s : S} (hs : m.Reachable s₀ s)
    (hf : ∀ s l, m.Enabled s l → f (m.next s l) = f s ∨
      ∃ l', m'.Enabled (f s) l' ∧ f (m.next s l) = m'.next (f s) l') :
    m'.Reachable (f s₀) (f s) := by
  induction hs with
  | refl => exact .refl
  | @step s l _ hl ih =>
    rcases hf s l hl with heq | ⟨l', hl', heq⟩
    · exact heq ▸ ih
    · exact heq ▸ .step ih hl'

/-- If the events of `m` do to `f` what events of `m'` do, or nothing, in the states with the
    invariant `P`, then `m` refines `m'`. -/
theorem Reachable.refine {P : S → Prop} {f : S → S'} {s₀ s : S} (hs : m.Reachable s₀ s)
    (h₀ : P s₀) (hP : ∀ s l, P s → m.Enabled s l → P (m.next s l))
    (hf : ∀ s l, P s → m.Enabled s l → f (m.next s l) = f s ∨
      ∃ l', m'.Enabled (f s) l' ∧ f (m.next s l) = m'.next (f s) l') :
    m'.Reachable (f s₀) (f s) := by
  induction hs with
  | refl => exact .refl
  | @step s l hs hl ih =>
    rcases hf s l (hs.invariant h₀ hP) hl with heq | ⟨l', hl', heq⟩
    · exact heq ▸ ih
    · exact heq ▸ .step ih hl'

end System

end NodeLkl
