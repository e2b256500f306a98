import Mathlib.Data.List.Basic
import Mathlib.Tactic.Common

/-!
# Parts of buffers

Buffers are at the addresses of a heap; a region is a part of one of them. Filling a region
leaves the regions apart from it as they are (`Heap.contents_fill_of_apart`), and so does a new
buffer (`Heap.contents_concat`).
-/

namespace NodeLkl

/-- A part of the buffer at an address. -/
structure Region where
  addr : ℕ
  start : ℕ
  length : ℕ
  deriving DecidableEq

namespace Region

/-- Two regions have no cell in common. -/
def Apart (r r' : Region) : Prop :=
  r.addr = r'.addr → r.start + r.length ≤ r'.start ∨ r'.start + r'.length ≤ r.start

/-- A region is part of another one. -/
structure Within (r r' : Region) : Prop where
  addr : r.addr = r'.addr
  start : r'.start ≤ r.start
  stop : r.start + r.length ≤ r'.start + r'.length

theorem Apart.symm {r r' : Region} (h : r.Apart r') : r'.Apart r :=
  fun haddr => (h haddr.symm).symm

/-- What is apart from a region is apart from its parts. -/
theorem Apart.within {r r' q : Region} (h : r'.Apart q) (hr : r.Within r') : r.Apart q := by
  intro haddr
  have hstart := hr.start
  have hstop := hr.stop
  rcases h (hr.addr.symm.trans haddr) with h | h
  · exact .inl (by omega)
  · exact .inr (by omega)

end Region

/-- The buffers, by their addresses. -/
abbrev Heap (α : Type*) := List (List α)

namespace Heap

variable {α : Type*}

def buffer (h : Heap α) (a : ℕ) : List α := h[a]?.getD []

/-- What a region holds. -/
def contents (h : Heap α) (r : Region) : List α := ((h.buffer r.addr).drop r.start).take r.length

/-- A region is part of its buffer. -/
structure InBounds (h : Heap α) (r : Region) : Prop where
  addr : r.addr < List.length h
  stop : r.start + r.length ≤ (h.buffer r.addr).length

/-- The cells `data` are put at the start of a region. -/
def fill (h : Heap α) (r : Region) (data : List α) : Heap α :=
  h.modify r.addr fun b => b.take r.start ++ data ++ b.drop (r.start + data.length)

variable {h : Heap α} {r : Region} {data : List α}

theorem buffer_concat_self (b : List α) : buffer (h ++ [b]) (List.length h) = b := by
  simp [buffer]

theorem buffer_concat_of_lt (b : List α) {a : ℕ} (ha : a < List.length h) :
    buffer (h ++ [b]) a = h.buffer a := by
  simp [buffer, List.getElem?_append_left ha]

theorem buffer_fill_of_ne {a : ℕ} (ha : r.addr ≠ a) : (h.fill r data).buffer a = h.buffer a := by
  simp [buffer, fill, ha]

theorem buffer_fill (hr : h.InBounds r) : (h.fill r data).buffer r.addr =
    (h.buffer r.addr).take r.start ++ data ++ (h.buffer r.addr).drop (r.start + data.length) := by
  simp [buffer, fill, hr.addr]

theorem length_buffer_fill (hr : h.InBounds r) (hdata : data.length ≤ r.length) (a : ℕ) :
    ((h.fill r data).buffer a).length = (h.buffer a).length := by
  by_cases ha : r.addr = a
  · subst ha
    have hstop := hr.stop
    simp only [buffer_fill hr, List.length_append, List.length_take, List.length_drop]
    omega
  · rw [buffer_fill_of_ne ha]

theorem InBounds.fill {r' : Region} (hr' : h.InBounds r') (hr : h.InBounds r)
    (hdata : data.length ≤ r.length) : (h.fill r data).InBounds r' := by
  refine ⟨?_, ?_⟩
  · rw [Heap.fill, List.length_modify]
    exact hr'.addr
  · rw [length_buffer_fill hr hdata]
    exact hr'.stop

theorem InBounds.concat (hr : h.InBounds r) (b : List α) : InBounds (h ++ [b]) r := by
  refine ⟨?_, ?_⟩
  · rw [List.length_append]
    exact Nat.lt_add_right _ hr.addr
  · rw [buffer_concat_of_lt b hr.addr]
    exact hr.stop

theorem InBounds.within {r' : Region} (hr : h.InBounds r) (hw : r'.Within r) : h.InBounds r' := by
  refine ⟨hw.addr ▸ hr.addr, ?_⟩
  rw [hw.addr]
  exact Nat.le_trans hw.stop hr.stop

/-- A new buffer changes no region. -/
theorem contents_concat (hr : h.InBounds r) (b : List α) :
    contents (h ++ [b]) r = h.contents r := by
  rw [contents, contents, buffer_concat_of_lt b hr.addr]

/-- A region that is filled holds what it is filled with. -/
theorem contents_fill (hr : h.InBounds r) (data : List α) :
    (h.fill r data).contents ⟨r.addr, r.start, data.length⟩ = data := by
  have hlength : ((h.buffer r.addr).take r.start).length = r.start := by
    have hstop := hr.stop
    rw [List.length_take]
    omega
  rw [contents, buffer_fill hr, List.append_assoc, List.drop_left' hlength, List.take_left]

/-- Cells put in a list do not change those before and after them. -/
theorem take_drop_splice {b : List α} {i s l : ℕ} (hlen : i + data.length ≤ b.length)
    (hapart : s + l ≤ i ∨ i + data.length ≤ s) :
    ((b.take i ++ data ++ b.drop (i + data.length)).drop s).take l = (b.drop s).take l := by
  rcases hapart with h | h
  · -- the cells before are those of `b.take i`
    rw [List.take_drop, List.take_drop, List.append_assoc, List.take_append_of_le_length,
      List.take_take, Nat.min_eq_left h]
    rw [List.length_take]
    omega
  · -- and the cells after, those of what follows `data`
    have hlength : (b.take i ++ data).length = i + data.length := by
      rw [List.length_append, List.length_take]
      omega
    rw [List.drop_append, List.drop_of_length_le (hlength ▸ h), List.nil_append,
      List.drop_drop, hlength, Nat.add_sub_cancel' h]

/-- The regions apart from a region that is filled are as they were. -/
theorem contents_fill_of_apart {r' : Region} (hr : h.InBounds r) (hdata : data.length ≤ r.length)
    (hapart : r'.Apart r) : (h.fill r data).contents r' = h.contents r' := by
  by_cases ha : r.addr = r'.addr
  · have hstop := hr.stop
    rw [contents, contents, ← ha, buffer_fill hr]
    refine take_drop_splice (by omega) ?_
    rcases hapart ha.symm with h | h
    · exact .inl h
    · exact .inr (by omega)
  · rw [contents, contents, buffer_fill_of_ne ha]

end Heap

end NodeLkl
