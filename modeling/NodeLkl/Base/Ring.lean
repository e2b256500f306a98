import Mathlib.Data.Nat.ModEq
import Mathlib.Tactic.Common

/-!
# Ring indices

A ring of `num = 2 ^ k` slots is read and written through indices that run
freely: an index counts all the entries ever made, in a word of `w` bits, and is
reduced to a slot by a mask (`slot`). Here such an index is related to the number
it stands for.

* `ofNat_inj_of_lt`: two numbers that are less than `2 ^ w` apart have different
  indices, so that comparing indices compares the numbers;
* `toNat_ofNat_sub`: the distance of two indices is that of the numbers;
* `slot_ofNat`: the slot of a number is its remainder, and the entries of a
  window of `num` numbers are in different slots (`mod_ne_mod`);
* `crossed_iff`: an index moved past an event index exactly when the number did.
-/

namespace NodeLkl

namespace Ring

variable {w m n : ℕ}

/-- The size of a ring with indices of `w` bits: a power of two, at most half the
    range of the indices. -/
structure Size (w : ℕ) where
  log : ℕ
  log_lt : log < w
  le : w ≤ 32

/-- The number of slots. -/
def Size.num (c : Size w) : ℕ := 2 ^ c.log

/-- The number of slots, as a word. -/
def Size.word (c : Size w) : BitVec 32 := BitVec.ofNat 32 c.num

theorem Size.num_pos (c : Size w) : 0 < c.num := Nat.two_pow_pos _

theorem Size.two_mul_num_le (c : Size w) : 2 * c.num ≤ 2 ^ w := by
  rw [num, ← Nat.pow_succ']
  exact Nat.pow_le_pow_right (by decide) c.log_lt

theorem Size.num_lt (c : Size w) : c.num < 2 ^ w := by
  have := c.num_pos
  have := c.two_mul_num_le
  omega

theorem Size.toNat_word (c : Size w) : c.word.toNat = c.num := by
  have hlt : c.num < 2 ^ 32 := c.num_lt.trans_le (Nat.pow_le_pow_right (by decide) c.le)
  rw [word, BitVec.toNat_ofNat, Nat.mod_eq_of_lt hlt]

/-- The slot of the index `i`, in a ring of `num` slots. -/
def slot (num : BitVec 32) (i : BitVec w) : ℕ := (i.setWidth 32 &&& (num - 1)).toNat

/-- The index moved from `old` to `new` past the index `event`. -/
def crossed (event new old : BitVec w) : Bool := new - event - 1 < new - old

theorem ofNat_add_one (n : ℕ) : BitVec.ofNat w n + 1 = BitVec.ofNat w (n + 1) := by
  rw [BitVec.ofNat_add]
  rfl

/-- The distance of two indices is that of the numbers they stand for. -/
theorem toNat_ofNat_sub (h : m ≤ n) (hlt : n - m < 2 ^ w) :
    (BitVec.ofNat w n - BitVec.ofNat w m).toNat = n - m := by
  obtain ⟨d, rfl⟩ := Nat.exists_eq_add_of_le h
  rw [BitVec.ofNat_add, BitVec.add_comm, BitVec.add_sub_cancel, BitVec.toNat_ofNat]
  rw [Nat.add_sub_cancel_left] at *
  exact Nat.mod_eq_of_lt hlt

/-- Indices tell numbers apart that are less than `2 ^ w` apart. -/
theorem ofNat_inj_of_lt (h : m ≤ n) (hlt : n - m < 2 ^ w) :
    BitVec.ofNat w m = BitVec.ofNat w n ↔ m = n := by
  refine ⟨fun heq => ?_, fun heq => by rw [heq]⟩
  have hsub := toNat_ofNat_sub h hlt
  rw [heq, BitVec.sub_self, BitVec.toNat_ofNat, Nat.zero_mod] at hsub
  omega

/-- The slot of an index is its remainder. -/
theorem slot_word (c : Size w) (i : BitVec w) : slot c.word i = i.toNat % c.num := by
  have hword : (c.word - 1).toNat = c.num - 1 := by
    have hpos := c.num_pos
    rw [BitVec.toNat_sub_of_le, c.toNat_word]
    · rfl
    · rw [BitVec.le_def, c.toNat_word]
      exact hpos
  rw [slot, BitVec.toNat_and, hword, Size.num, Nat.and_two_pow_sub_one_eq_mod,
    BitVec.toNat_setWidth, Nat.mod_mod_of_dvd]
  exact Nat.pow_dvd_pow 2 (c.log_lt.le.trans c.le)

/-- The slot of a number is its remainder. -/
theorem slot_ofNat (c : Size w) (n : ℕ) : slot c.word (BitVec.ofNat w n) = n % c.num := by
  rw [slot_word, BitVec.toNat_ofNat, Nat.mod_mod_of_dvd]
  exact Nat.pow_dvd_pow 2 c.log_lt.le

/-- The slot of an index below the size is itself. -/
theorem slot_of_lt (c : Size w) {i : BitVec w} (h : i.toNat < c.num) : slot c.word i = i.toNat := by
  rw [slot_word, Nat.mod_eq_of_lt h]

/-- The numbers of a window of the size of the ring are in different slots. -/
theorem mod_ne_mod {num : ℕ} (h : m < n) (hlt : n - m < num) : m % num ≠ n % num := by
  intro heq
  have hdvd : num ∣ n - m := (Nat.modEq_iff_dvd' h.le).1 heq
  exact absurd (Nat.le_of_dvd (by omega) hdvd) (by omega)

/-- A number moved from `old` to `new` past an event between the two exactly when
    the event is not `new` itself. -/
theorem crossed_iff {old event new : ℕ} (ho : old ≤ event) (hn : event ≤ new)
    (hlt : new - old < 2 ^ w) :
    crossed (BitVec.ofNat w event) (BitVec.ofNat w new) (BitVec.ofNat w old) ↔ event < new := by
  have hold := toNat_ofNat_sub (ho.trans hn) hlt
  have hevent := toNat_ofNat_sub hn (by omega : new - event < 2 ^ w)
  rw [crossed, decide_eq_true_iff, BitVec.lt_def, hold]
  rcases hn.eq_or_lt with rfl | hne
  · -- The distance to the event itself wraps around to the largest index.
    rw [BitVec.sub_self, BitVec.zero_sub, show -(1 : BitVec w) = BitVec.allOnes w from
      BitVec.neg_one_eq_allOnes, BitVec.toNat_allOnes]
    omega
  · have hsub : (BitVec.ofNat w new - BitVec.ofNat w event - 1).toNat = new - (event + 1) := by
      rw [BitVec.sub_sub, ofNat_add_one, toNat_ofNat_sub hne (by omega)]
    rw [hsub]
    omega

end Ring

end NodeLkl
