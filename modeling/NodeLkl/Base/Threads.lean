import Mathlib.Algebra.BigOperators.Group.Finset.Basic
import Mathlib.Algebra.Order.BigOperators.Group.Finset
import Mathlib.Data.Fintype.BigOperators

/-!
# Counting threads

The threads of a program are each at some place of it, and one of them moves at a
time (`Function.update`). The sum of the weights of their places (`total`), and the
number of those at some of the places (`count`), change by what the move says
(`total_update`, `count_update`).
-/

namespace NodeLkl

namespace Threads

variable {θ α : Type*} [Fintype θ]

/-- The sum of the weights of the places of the threads. -/
def total (w : α → ℕ) (pc : θ → α) : ℕ := ∑ t, w (pc t)

/-- The number of threads at the places `p`. -/
def count (p : α → Bool) (pc : θ → α) : ℕ := total (fun a => (p a).toNat) pc

theorem total_update [DecidableEq θ] (w : α → ℕ) (pc : θ → α) (t : θ) (a : α) :
    total w (Function.update pc t a) + w (pc t) = total w pc + w a := by
  have hrest : ∑ u ∈ Finset.univ.erase t, w (Function.update pc t a u) =
      ∑ u ∈ Finset.univ.erase t, w (pc u) :=
    Finset.sum_congr rfl fun u hu => by rw [Function.update_of_ne (Finset.ne_of_mem_erase hu)]
  have hnew := Finset.sum_erase_add Finset.univ (fun u => w (Function.update pc t a u))
    (Finset.mem_univ t)
  have hold := Finset.sum_erase_add Finset.univ (fun u => w (pc u)) (Finset.mem_univ t)
  simp only [Function.update_self] at hnew
  simp only [total]
  omega

theorem count_update [DecidableEq θ] (p : α → Bool) (pc : θ → α) (t : θ) (a : α) :
    count p (Function.update pc t a) + (p (pc t)).toNat = count p pc + (p a).toNat :=
  total_update _ pc t a

theorem count_update_of_eq [DecidableEq θ] {p : α → Bool} {pc : θ → α} {t : θ} {a : α}
    (h : p a = p (pc t)) : count p (Function.update pc t a) = count p pc := by
  have hcount := count_update p pc t a
  rw [h] at hcount
  exact Nat.add_right_cancel hcount

theorem count_eq_zero {p : α → Bool} {pc : θ → α} : count p pc = 0 ↔ ∀ t, p (pc t) = false := by
  simp [count, total]

theorem exists_of_count_pos {p : α → Bool} {pc : θ → α} (h : 0 < count p pc) :
    ∃ t, p (pc t) = true := by
  by_contra hnone
  refine h.ne' (count_eq_zero.2 fun t => ?_)
  exact Bool.eq_false_iff.2 fun ht => hnone ⟨t, ht⟩

theorem count_pos {p : α → Bool} {pc : θ → α} {t : θ} (h : p (pc t) = true) :
    0 < count p pc :=
  Nat.pos_of_ne_zero fun hzero => Bool.noConfusion (h.symm.trans (count_eq_zero.1 hzero t))

theorem count_le_card (p : α → Bool) (pc : θ → α) : count p pc ≤ Fintype.card θ := by
  calc count p pc ≤ ∑ _t : θ, 1 := Finset.sum_le_sum fun t _ => Bool.toNat_le _
    _ = Fintype.card θ := by simp

end Threads

end NodeLkl
