import Mathlib.Algebra.GroupWithZero.Nat
import Mathlib.Algebra.Order.BigOperators.Group.List
import Mathlib.Algebra.Order.Group.Nat
import Mathlib.Order.Nat
import NodeLkl.Base.System

/-!
# Services

What a queue of requests is for: requests are submitted, served in the order they
were submitted, and taken back in that order, each of them once. A request is in
flight until it is taken back, and what is in flight is bounded, by the cost of
each request.

This is the specification an implementation of such a queue refines: what the
server is handed of each request (`work`), and what is taken back (`token`), are
those of the requests submitted, in order (`system`, `InOrder`).
-/

namespace NodeLkl

/-- The requests submitted so far, what the server was handed of those it served, and
    what was taken back. -/
structure Service (α β γ : Type*) where
  submitted : List α
  served : List β
  taken : List γ

namespace Service

variable {α β γ : Type*} (work : α → β) (token : α → γ) (cost : α → ℕ) (cap : ℕ)

/-- Nothing was submitted yet. -/
def init : Service α β γ := ⟨[], [], []⟩

/-- The requests that were not taken back yet. -/
def inFlight (s : Service α β γ) : List α := s.submitted.drop s.taken.length

inductive Event (α : Type*)
  | submit (a : α)
  | serve
  | take

/-- A service of the requests `α`, at most `cap` of their cost being in flight. -/
def system : System (Service α β γ) (Event α) where
  Enabled s
    | .submit a => ((s.inFlight ++ [a]).map cost).sum ≤ cap
    | .serve => s.served.length < s.submitted.length
    | .take => s.taken.length < s.served.length
  next s
    | .submit a => { s with submitted := s.submitted ++ [a] }
    | .serve => { s with served := s.served ++ (s.submitted[s.served.length]?.map work).toList }
    | .take => { s with taken := s.taken ++ (s.submitted[s.taken.length]?.map token).toList }

/-- The requests are served and taken back in order, each of them once. -/
structure InOrder (s : Service α β γ) : Prop where
  served : s.served = (s.submitted.map work).take s.served.length
  taken : s.taken = (s.submitted.map token).take s.taken.length
  taken_le : s.taken.length ≤ s.served.length
  served_le : s.served.length ≤ s.submitted.length
  cost_le : (s.inFlight.map cost).sum ≤ cap

variable {work token cost cap}

/-- A list that is the beginning of another one, and the entry that comes next. -/
theorem append_toList_eq_take {δ : Type*} {f : α → δ} {l : List α} {l' : List δ}
    (h : l' = (l.map f).take l'.length) :
    l' ++ (l[l'.length]?.map f).toList = (l.map f).take (l'.length + 1) := by
  rw [List.take_add_one, ← h, List.getElem?_map]

theorem length_append_toList {δ : Type*} {f : α → δ} {l : List α} {l' : List δ}
    (h : l'.length < l.length) :
    (l' ++ (l[l'.length]?.map f).toList).length = l'.length + 1 := by
  rw [List.getElem?_eq_getElem h]
  simp

/-- Submitting a request does not change the beginning of the list of requests. -/
theorem take_map_append {δ : Type*} {f : α → δ} {l : List α} {l' : List δ} (a : α)
    (h : l' = (l.map f).take l'.length) (hle : l'.length ≤ l.length) :
    l' = ((l ++ [a]).map f).take l'.length := by
  rw [List.map_append, List.take_append_of_le_length (by rwa [List.length_map])]
  exact h

/-- The requests of a service are served and taken back in order. -/
theorem inOrder_of_reachable {s : Service α β γ}
    (hs : (system work token cost cap).Reachable init s) : InOrder work token cost cap s := by
  refine hs.invariant ⟨rfl, rfl, Nat.le_refl _, Nat.le_refl _, Nat.zero_le _⟩ ?_
  intro s l h hl
  cases l with
  | submit a =>
    refine ⟨take_map_append a h.served h.served_le,
      take_map_append a h.taken (h.taken_le.trans h.served_le), h.taken_le,
      h.served_le.trans (by simp [system]), ?_⟩
    have hdrop : (s.submitted ++ [a]).drop s.taken.length = s.inFlight ++ [a] :=
      List.drop_append_of_le_length (h.taken_le.trans h.served_le)
    change (((s.submitted ++ [a]).drop s.taken.length).map cost).sum ≤ cap
    rw [hdrop]
    exact hl
  | serve =>
    have hlen := length_append_toList (f := work) hl
    refine ⟨?_, h.taken, h.taken_le.trans (by simp [system]), ?_, h.cost_le⟩
    · change s.served ++ _ = _
      rw [append_toList_eq_take h.served]
      exact congrArg (List.take · _) hlen.symm
    · exact hlen.trans_le hl
  | take =>
    have hlt : s.taken.length < s.submitted.length := Nat.lt_of_lt_of_le hl h.served_le
    have hlen := length_append_toList (f := token) hlt
    refine ⟨h.served, ?_, hlen.trans_le hl, h.served_le, ?_⟩
    · change s.taken ++ _ = _
      rw [append_toList_eq_take h.taken]
      exact congrArg (List.take · _) hlen.symm
    · -- one request less is in flight
      have hcost := h.cost_le
      rw [inFlight, List.drop_eq_getElem_cons hlt, List.map_cons, List.sum_cons] at hcost
      change ((s.submitted.drop (s.taken ++ _).length).map cost).sum ≤ cap
      rw [hlen]
      omega

end Service

end NodeLkl
