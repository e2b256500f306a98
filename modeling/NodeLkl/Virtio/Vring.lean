import NodeLkl.Base.Ring

/-!
# The memory of a virtio queue

A virtio queue is memory shared by the driver, in the kernel, and the device, in
the host:

* a table of descriptors, each of a buffer, chained by their `next`;
* the *available* ring, in which the driver puts the first descriptor of each
  request, and the *used* ring, in which the device puts it back once the request
  is served. Each of them has an index, the number of entries put in it so far;
* after each ring, an event index, at which the other side wants to be notified.

The host is little-endian, as the rings are.
-/

namespace NodeLkl

namespace Virtio

/-- A descriptor: a buffer, and the descriptor that comes next if the flag
    `VringDescF.next` is set. -/
structure VringDesc where
  addr : BitVec 64
  len : BitVec 32
  flags : BitVec 16
  next : BitVec 16
  deriving DecidableEq

namespace VringDescF

/-! The flags of a descriptor. -/

abbrev next : BitVec 16 := 1
abbrev write : BitVec 16 := 2

end VringDescF

/-- An entry of the used ring: the first descriptor of a request, and the number
    of bytes written to its buffers. -/
structure VringUsedElem where
  id : BitVec 32
  len : BitVec 32
  deriving DecidableEq

/-- The memory of a queue. The entry `num` of the available ring is the event
    index of the driver; the one of the device comes after the used ring. -/
structure Vring where
  desc : ℕ → VringDesc
  availFlags : BitVec 16
  availIdx : BitVec 16
  availRing : ℕ → BitVec 16
  usedFlags : BitVec 16
  usedIdx : BitVec 16
  usedRing : ℕ → VringUsedElem
  availEvent : BitVec 16

/-- The memory of a queue, as it is allocated. -/
def Vring.zero : Vring :=
  ⟨fun _ => ⟨0, 0, 0, 0⟩, 0, 0, fun _ => 0, 0, 0, fun _ => ⟨0, 0⟩, 0⟩

/-- A side is to be notified of the entries put in a ring, whose index goes from
    `old` to `new`: they are past its event index. -/
def vringNeedEvent (event new old : BitVec 16) : Bool := Ring.crossed event new old

/-- A buffer: its address and its length. -/
structure Iovec where
  iovBase : BitVec 64
  iovLen : BitVec 32
  deriving DecidableEq

/-- A buffer the device takes: neither `NULL` nor empty. -/
def Iovec.Valid (b : Iovec) : Prop := b.iovBase ≠ 0 ∧ b.iovLen ≠ 0

instance (b : Iovec) : Decidable b.Valid := inferInstanceAs (Decidable (_ ∧ _))

/-- The descriptors `c` are chained, and those of the buffers `bs`. -/
def Spells (desc : ℕ → VringDesc) : List ℕ → List Iovec → Prop
  | [i], [b] => (desc i).addr = b.iovBase ∧ (desc i).len = b.iovLen ∧
      (desc i).flags &&& VringDescF.next = 0
  | i :: j :: c, b :: b' :: bs => (desc i).addr = b.iovBase ∧ (desc i).len = b.iovLen ∧
      (desc i).flags &&& VringDescF.next ≠ 0 ∧ (desc i).next.toNat = j ∧
      Spells desc (j :: c) (b' :: bs)
  | _, _ => False

/-- A chain does not change with the other descriptors. -/
theorem Spells.congr {desc desc' : ℕ → VringDesc} {c : List ℕ} {bs : List Iovec}
    (h : Spells desc c bs) (heq : ∀ i ∈ c, desc' i = desc i) : Spells desc' c bs := by
  induction c generalizing bs with
  | nil => exact h.elim
  | cons i c ih =>
    have hi := heq i List.mem_cons_self
    match c, bs, h with
    | [], [b], h => simpa only [Spells, hi] using h
    | j :: c, b :: b' :: bs, h =>
      obtain ⟨haddr, hlen, hflags, hnext, h⟩ := h
      simp only [Spells, hi]
      exact ⟨haddr, hlen, hflags, hnext, ih h fun k hk => heq k (List.mem_cons_of_mem _ hk)⟩

theorem Spells.ne_nil {desc : ℕ → VringDesc} {c : List ℕ} {bs : List Iovec}
    (h : Spells desc c bs) : c ≠ [] := by
  rintro rfl
  exact h

theorem Spells.length_eq {desc : ℕ → VringDesc} {c : List ℕ} {bs : List Iovec}
    (h : Spells desc c bs) : c.length = bs.length := by
  induction c generalizing bs with
  | nil => exact h.elim
  | cons i c ih =>
    match c, bs, h with
    | [], [b], _ => rfl
    | j :: c, b :: b' :: bs, h => simpa using ih h.2.2.2.2

end Virtio

end NodeLkl
