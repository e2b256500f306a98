import Mathlib.Data.List.Basic
import Mathlib.Tactic.Common

/-!
# Stores

A *store* is an unbounded array of cells, read and written a list of cells at a
time. It is what a disk is to the requests it serves: a read is a list of
consecutive cells (`Store.read`), a write replaces some of them and keeps the
rest (`Store.write`).

* `Store.read_add`, `Store.write_append`: an access split in two is two
  accesses, one right after the other;
* `Store.write_of_lt`, `Store.write_of_le`: a write is confined to its cells;
* `Store.read_write`, `Store.read_write_of_apart`: what is read where something was
  written, and elsewhere.
-/

namespace NodeLkl

/-- An unbounded array of cells. -/
abbrev Store (α : Type*) := ℕ → α

namespace Store

variable {α : Type*}

/-- The `n` cells of `d` from `off` on. -/
def read (d : Store α) (off n : ℕ) : List α := (List.range n).map fun i => d (off + i)

/-- The store `d` with the cells `bs` put at `off`. -/
def write (d : Store α) (off : ℕ) (bs : List α) : Store α :=
  fun i => if off ≤ i then bs[i - off]?.getD (d i) else d i

variable (d : Store α)

@[simp]
theorem length_read (off n : ℕ) : (d.read off n).length = n := by simp [read]

@[simp]
theorem read_zero (off : ℕ) : d.read off 0 = [] := rfl

/-- A read of `m + n` cells is a read of `m` and then of the `n` after them. -/
theorem read_add (off m n : ℕ) : d.read off (m + n) = d.read off m ++ d.read (off + m) n := by
  simp [read, List.range_add, Function.comp_def, Nat.add_assoc]

@[simp]
theorem write_nil (off : ℕ) : d.write off [] = d := by
  funext i
  simp [write]

/-- A write leaves the cells before it. -/
theorem write_of_lt {off i : ℕ} (bs : List α) (h : i < off) : d.write off bs i = d i := by
  simp [write, Nat.not_le.2 h]

/-- A write leaves the cells after it. -/
theorem write_of_le {off i : ℕ} {bs : List α} (h : off + bs.length ≤ i) :
    d.write off bs i = d i := by
  have hi : bs.length ≤ i - off := by omega
  simp [write, List.getElem?_eq_none hi]

/-- A write of two lists of cells is a write of the first, and then of the
    second right after it. -/
theorem write_append (off : ℕ) (bs cs : List α) :
    d.write off (bs ++ cs) = (d.write off bs).write (off + bs.length) cs := by
  funext i
  by_cases h : off + bs.length ≤ i
  · have hi : bs.length ≤ i - off := by omega
    rw [write, write, write_of_le d h, List.getElem?_append_right hi, Nat.sub_sub]
    simp [h, show off ≤ i by omega]
  · rw [write_of_lt _ _ (Nat.not_le.1 h)]
    by_cases ho : off ≤ i
    · have hi : i - off < bs.length := by omega
      simp [write, ho, List.getElem?_append_left hi]
    · simp [write, ho]

/-- The cells written are read back. -/
theorem read_write (off : ℕ) (bs : List α) : (d.write off bs).read off bs.length = bs := by
  refine List.ext_getElem (length_read _ _ _) fun i hi hi' => ?_
  simp [read, write, hi']

/-- Some consecutive cells. -/
structure Span where
  start : ℕ
  length : ℕ
  deriving DecidableEq

/-- Two spans have no cell in common. -/
def Span.Apart (a b : Span) : Prop := a.start + a.length ≤ b.start ∨ b.start + b.length ≤ a.start

instance (a b : Span) : Decidable (a.Apart b) := inferInstanceAs (Decidable (_ ∨ _))

theorem Span.Apart.symm {a b : Span} (h : a.Apart b) : b.Apart a := Or.symm h

/-- The cells apart from those written are as they were. -/
theorem read_write_of_apart {off n off' : ℕ} {bs : List α}
    (h : Span.Apart ⟨off, n⟩ ⟨off', bs.length⟩) : (d.write off' bs).read off n = d.read off n := by
  refine List.map_congr_left fun i hi => ?_
  have hi := List.mem_range.1 hi
  rcases h with h | h
  · exact d.write_of_lt bs (by simp only at h; omega)
  · exact d.write_of_le (by simp only at h; omega)

end Store

end NodeLkl
