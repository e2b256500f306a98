import Mathlib.Data.BitVec
import Mathlib.Tactic.Common

/-!
# Going through the bits of a word

A loop goes through the bits of a word by shifting it, counting the bits it has
seen. The bits `ahead` of it are those that are set, at their places in the word it
started with.

* `ahead_start`: at the start, they are the bits of the word.
* `ahead_step`: an iteration sees one of them, if the lowest bit is set.
* `ahead_zero`: there are none when the word is zero.
-/

namespace NodeLkl

namespace Bits

variable {w : ℕ}

/-- The bit `n` is set, and ahead of a loop that has seen `i` bits, and is left with `word`. -/
def ahead (word : BitVec w) (i n : ℕ) : Bool := decide (i ≤ n) && word.getLsbD (n - i)

theorem ahead_start (word : BitVec w) (n : ℕ) : ahead word 0 n = word.getLsbD n := by
  simp [ahead]

theorem ahead_zero (i n : ℕ) : ahead (0#w) i n = false := by
  simp [ahead]

theorem ahead_step (word : BitVec w) (i n : ℕ) :
    ahead word i n = ((decide (n = i) && word.getLsbD 0) || ahead (word >>> 1) (i + 1) n) := by
  rcases Nat.lt_trichotomy n i with hlt | rfl | hlt
  · simp [ahead, Nat.not_le.2 hlt, hlt.ne, Nat.not_le.2 (Nat.lt_succ_of_lt hlt)]
  · simp [ahead]
  · have hsub : 1 + (n - (i + 1)) = n - i := by omega
    simp [ahead, hlt.le, hlt.ne', Nat.succ_le_of_lt hlt, hsub]

/-- Setting a bit of a word. -/
theorem getLsbD_or_twoPow (word : BitVec w) (i n : ℕ) (hi : i < w) :
    (word ||| BitVec.twoPow w i).getLsbD n = (word.getLsbD n || decide (n = i)) := by
  rw [BitVec.getLsbD_or, BitVec.getLsbD_twoPow]
  simp [hi, eq_comm]

theorem or_and_self (x b : BitVec w) : (x ||| b) &&& b = b := by
  apply BitVec.eq_of_getLsbD_eq
  intro i _
  cases hbit : b.getLsbD i <;> simp [hbit]

theorem and_not_and_self (x b : BitVec w) : (x &&& ~~~b) &&& b = 0#w := by
  apply BitVec.eq_of_getLsbD_eq
  intro i hi
  cases hbit : b.getLsbD i <;> simp [hbit, hi]

end Bits

end NodeLkl
