import Mathlib.Data.List.Nodup
import Mathlib.Tactic.Common

/-!
# Linked lists in a table

A list kept inside a table: every entry holds a link to the next one (`next`),
and the list is found by following the links from its first entry (`Linked`). The
link of the last entry is of no use, and may be anything; it is where following
the links leads to (`after`).

* `Linked.congr`: a list does not change with the links of other entries;
* `linked_append`: a list followed by another one, linked from its last entry;
* `linked_range'`: entries linked in the order of the table;
* `Linked.relink`: the link of the last entry may be changed.
-/

namespace NodeLkl

namespace Links

variable {ι : Type*} {next next' : ι → ι} {a : ι} {l l' : List ι}

/-- The entries `l` are linked one to the next, from `a` on. -/
def Linked (next : ι → ι) : ι → List ι → Prop
  | _, [] => True
  | a, b :: l => b = a ∧ Linked next (next b) l

/-- Where the links lead to, from `a` on, after the entries `l`. -/
def after (next : ι → ι) : ι → List ι → ι
  | a, [] => a
  | _, b :: l => after next (next b) l

/-- The list only depends on the links of its entries. -/
theorem Linked.congr (h : Linked next a l) (heq : ∀ i ∈ l, next' i = next i) :
    Linked next' a l := by
  induction l generalizing a with
  | nil => trivial
  | cons b l ih =>
    refine ⟨h.1, ?_⟩
    rw [heq b List.mem_cons_self]
    exact ih h.2 fun i hi => heq i (List.mem_cons_of_mem _ hi)

theorem linked_append :
    Linked next a (l ++ l') ↔ Linked next a l ∧ Linked next (after next a l) l' := by
  induction l generalizing a with
  | nil => simp [Linked, after]
  | cons b l ih => simp [Linked, after, ih, and_assoc]

/-- Entries each of which is linked to the one after it in the table. -/
theorem linked_range' {next : ℕ → ℕ} {a n : ℕ} (h : ∀ i, i + 1 < a + n → next i = i + 1) :
    Linked next a (List.range' a n) := by
  induction n generalizing a with
  | zero => trivial
  | succ n ih =>
    refine ⟨rfl, ?_⟩
    cases n with
    | zero => trivial
    | succ n =>
      rw [h a (by omega)]
      exact ih fun i hi => h i (by omega)

/-- Changing the link of the last entry changes where the links lead to. -/
theorem Linked.relink (h : Linked next a l) (hnodup : l.Nodup) (hne : l ≠ [])
    (heq : ∀ i ∈ l, i ≠ l.getLast hne → next' i = next i) :
    Linked next' a l ∧ after next' a l = next' (l.getLast hne) := by
  induction l generalizing a with
  | nil => exact absurd rfl hne
  | cons b l ih =>
    cases l with
    | nil => exact ⟨⟨h.1, trivial⟩, rfl⟩
    | cons b' l =>
      have hb : b ≠ (b :: b' :: l).getLast hne := by
        rw [List.getLast_cons (List.cons_ne_nil b' l)]
        exact fun hb => (List.nodup_cons.1 hnodup).1 (hb ▸ List.getLast_mem _)
      obtain ⟨hlinked, hafter⟩ := ih h.2 (List.nodup_cons.1 hnodup).2 (List.cons_ne_nil b' l)
        fun i hi hil => heq i (List.mem_cons_of_mem _ hi) (by
          rwa [List.getLast_cons (List.cons_ne_nil b' l)])
      have hnext := heq b List.mem_cons_self hb
      refine ⟨⟨h.1, ?_⟩, ?_⟩
      · rw [hnext]
        exact hlinked
      · rw [after, hnext, hafter, List.getLast_cons (List.cons_ne_nil b' l)]

end Links

end NodeLkl
