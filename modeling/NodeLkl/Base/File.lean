import Mathlib.Data.List.Basic
import Mathlib.Tactic.Common

/-!
# Open files

A file is a list of cells; a descriptor has a position in it. Cells are put at the position
of the descriptor, which then moves after them, or at another position. A descriptor may
instead be there to append.

* `overwrite_append`: a write that is split in two is two writes, one right after the other;
* `OpenFile.put_put`: so it is through a descriptor, wherever it writes.
-/

namespace NodeLkl

variable {α : Type*}

/-- The cells `b` are written at `off`. Those between the end of the file and `off` are
    blank. -/
def overwrite (blank : α) (c : List α) (off : ℕ) (b : List α) : List α :=
  if b.isEmpty then c
  else c.take off ++ List.replicate (off - c.length) blank ++ b ++ c.drop (off + b.length)

section Overwrite

variable (blank : α) (c : List α) (off : ℕ)

@[simp]
theorem overwrite_nil : overwrite blank c off [] = c := rfl

theorem overwrite_of_ne_nil {b : List α} (hb : b ≠ []) : overwrite blank c off b =
    c.take off ++ List.replicate (off - c.length) blank ++ b ++ c.drop (off + b.length) := by
  rw [overwrite, if_neg (by simpa using hb)]

/-- What is before the cells written takes `off` cells. -/
theorem length_take_append_replicate :
    (c.take off ++ List.replicate (off - c.length) blank).length = off := by
  simp only [List.length_append, List.length_take, List.length_replicate]
  omega

/-- A write of two lists of cells is a write of the first, and then of the second right
    after it. -/
theorem overwrite_append (a b : List α) : overwrite blank c off (a ++ b) =
    overwrite blank (overwrite blank c off a) (off + a.length) b := by
  by_cases ha : a = []
  · simp [ha]
  by_cases hb : b = []
  · simp [hb]
  have hab : a ++ b ≠ [] := by simp [ha]
  have hbefore := length_take_append_replicate blank c off
  rw [overwrite_of_ne_nil _ _ _ hab, overwrite_of_ne_nil _ _ _ ha, overwrite_of_ne_nil _ _ _ hb]
  generalize c.take off ++ List.replicate (off - c.length) blank = before at hbefore ⊢
  have hlen : (before ++ a).length = off + a.length := by rw [List.length_append, hbefore]
  -- there is no hole before the second list
  have hhole : off + a.length - (before ++ a ++ c.drop (off + a.length)).length = 0 := by
    rw [List.length_append, hlen]
    omega
  rw [List.take_left' hlen, hhole, List.replicate_zero, List.append_nil, ← hlen, List.drop_append,
    List.drop_eq_nil_of_le (Nat.le_add_right _ _), List.nil_append, Nat.add_sub_cancel_left,
    List.drop_drop, hlen, List.length_append, Nat.add_assoc, List.append_assoc before a b]

/-- At the end of a file, cells are appended. -/
theorem overwrite_length (b : List α) : overwrite blank c c.length b = c ++ b := by
  by_cases hb : b = []
  · simp [hb]
  · rw [overwrite_of_ne_nil _ _ _ hb, List.drop_eq_nil_of_le (Nat.le_add_right _ _)]
    simp

/-- At its start, they replace the first ones. -/
theorem overwrite_zero (b : List α) : overwrite blank c 0 b = b ++ c.drop b.length := by
  by_cases hb : b = []
  · simp [hb]
  · rw [overwrite_of_ne_nil _ _ _ hb]
    simp

end Overwrite

/-- A file, the position of a descriptor, and whether it is there to append. -/
structure OpenFile (α : Type*) where
  contents : List α
  offset : ℕ
  append : Bool

namespace OpenFile

variable (blank : α) (f : OpenFile α)

/-- Where cells are put: at the position given, or that of the descriptor. -/
def place (p : Option ℕ) : ℕ := if f.append then f.contents.length else p.getD f.offset

/-- Puts the cells `b` in a file. Without a position, the descriptor moves after them. -/
def put (p : Option ℕ) (b : List α) : OpenFile α :=
  { f with
    contents := overwrite blank f.contents (f.place p) b
    offset := if p.isSome || b.isEmpty then f.offset else f.place p + b.length }

/-- The cells from `p` on, up to `n` of them. -/
def get (p n : ℕ) : List α := (f.contents.drop p).take n

@[simp]
theorem put_nil (p : Option ℕ) : f.put blank p [] = f := by simp [put]

theorem append_put (p : Option ℕ) (b : List α) : (f.put blank p b).append = f.append := rfl

/-- Cells put right after others are put with them. -/
theorem put_put (p : Option ℕ) (a b : List α) :
    (f.put blank p a).put blank (p.map (· + a.length)) b = f.put blank p (a ++ b) := by
  by_cases ha : a = []
  · subst ha
    rw [put_nil, List.nil_append]
    cases p <;> rfl
  have hplace : (f.put blank p a).place (p.map (· + a.length)) = f.place p + a.length := by
    cases happend : f.append with
    | true =>
      have hlen : f.place p = f.contents.length := by simp [place, happend]
      rw [place, append_put, happend, if_pos rfl, put, hlen, overwrite_length, List.length_append]
    | false => cases p with
      | none => simp [place, put, happend, ha]
      | some p => simp [place, put, happend]
  have hcontents : ((f.put blank p a).put blank (p.map (· + a.length)) b).contents =
      (f.put blank p (a ++ b)).contents := by
    rw [put, hplace]
    exact (overwrite_append blank _ _ a b).symm
  have hoffset : ((f.put blank p a).put blank (p.map (· + a.length)) b).offset =
      (f.put blank p (a ++ b)).offset := by
    rw [put, hplace]
    cases p with
    | some p => rfl
    | none =>
      by_cases hb : b = []
      · simp [put, hb]
      · simp [put, ha, hb, Nat.add_assoc]
  calc (f.put blank p a).put blank (p.map (· + a.length)) b
      = ⟨((f.put blank p a).put blank (p.map (· + a.length)) b).contents,
          ((f.put blank p a).put blank (p.map (· + a.length)) b).offset, f.append⟩ := rfl
    _ = f.put blank p (a ++ b) := by rw [hcontents, hoffset]; rfl

end OpenFile

end NodeLkl
