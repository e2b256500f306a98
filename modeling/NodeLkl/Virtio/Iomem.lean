import Mathlib.Algebra.Group.Nat.Defs
import Mathlib.Data.Int.Notation
import Mathlib.Data.List.Nodup
import Mathlib.Data.List.Perm.Subperm
import NodeLkl.Base.System

/-!
# The addresses of the registers

The registers of a device have no memory behind them. LKL keeps a table of regions
instead (`Iomem`), and an address has in it the index of a region and an offset: a device
registers its region (`registerIomem`), and gets the address of its first byte; the
driver maps the region by that address (`lklIoremap`), and a read or a write of a
register finds the device by the address again (`lklIomemAccess`).

An index is shifted as an `int`, so that the addresses are as they should be for
the indices below 128 only.

* While at most 127 regions are registered at once, each access reaches the device
  whose region it is in, however the regions came and went before (`access_of_live`).
* The address of a region after these is one at which each access reads outside of the
  table (`access_of_crowded`).
-/

namespace NodeLkl

namespace Virtio

/-! ## Addresses -/

/-- The bits of an address that are the offset in a region. -/
def iomemOffsetBits : ℕ := 24

/-- The length of the table of regions. -/
def maxIomemRegions : ℕ := 256

/-- The address of the first byte of a region. The shift is one of an `int`, which is made
    a `uintptr_t` after it. -/
def iomemIndexToAddr (i : ℕ) : BitVec 64 :=
  (BitVec.ofNat 32 i <<< iomemOffsetBits).signExtend 64

/-- The index of an address, as it is assigned to an `unsigned int`. -/
def iomemAddrToIndex (addr : BitVec 64) : BitVec 32 :=
  (addr >>> iomemOffsetBits).setWidth 32

def iomemAddrToOffset (addr : BitVec 64) : ℕ :=
  (addr &&& BitVec.ofNat 64 (2 ^ iomemOffsetBits - 1)).toNat

theorem iomemAddrToOffset_eq (addr : BitVec 64) : iomemAddrToOffset addr = addr.toNat % 2 ^ 24 := by
  have hmask : (BitVec.ofNat 64 (2 ^ iomemOffsetBits - 1)).toNat = 2 ^ 24 - 1 := rfl
  rw [iomemAddrToOffset, BitVec.toNat_and, hmask, Nat.and_two_pow_sub_one_eq_mod]

theorem toNat_iomemAddrToIndex (addr : BitVec 64) :
    (iomemAddrToIndex addr).toNat = addr.toNat / 2 ^ 24 % 2 ^ 32 := by
  rw [iomemAddrToIndex, BitVec.toNat_setWidth, BitVec.toNat_ushiftRight,
    Nat.shiftRight_eq_div_pow, iomemOffsetBits]

theorem toNat_iomemIndexToAddr {i : ℕ} (hi : i < 128) :
    (iomemIndexToAddr i).toNat = i * 2 ^ 24 := by
  revert i
  decide

/-- The sign of the shifted index is in the upper half of the address. -/
theorem toNat_iomemIndexToAddr_of_le {i : ℕ} (hi : i < 256) (hle : 128 ≤ i) :
    (iomemIndexToAddr i).toNat = 2 ^ 64 + i * 2 ^ 24 - 2 ^ 32 := by
  revert i
  decide +kernel

theorem iomemIndexToAddr_inj {i j : ℕ} (hi : i < 128) (hj : j < 128)
    (h : iomemIndexToAddr i = iomemIndexToAddr j) : i = j := by
  have htoNat := congrArg BitVec.toNat h
  rw [toNat_iomemIndexToAddr hi, toNat_iomemIndexToAddr hj] at htoNat
  omega

section InRegion

variable {i offset : ℕ} (hi : i < 256) (hoffset : offset < 2 ^ 24)
include hi hoffset

theorem toNat_iomemIndexToAddr_add :
    (iomemIndexToAddr i + BitVec.ofNat 64 offset).toNat =
      if i < 128 then i * 2 ^ 24 + offset else 2 ^ 64 + i * 2 ^ 24 - 2 ^ 32 + offset := by
  rw [BitVec.toNat_add, BitVec.toNat_ofNat]
  split_ifs with h
  · rw [toNat_iomemIndexToAddr h]
    omega
  · rw [toNat_iomemIndexToAddr_of_le hi (by omega)]
    omega

/-- An index is found again in the addresses of its region if it is below 128, and is
    negative otherwise. -/
theorem toInt_iomemAddrToIndex_add :
    (iomemAddrToIndex (iomemIndexToAddr i + BitVec.ofNat 64 offset)).toInt =
      if i < 128 then (i : ℤ) else (i : ℤ) - 256 := by
  rw [BitVec.toInt_eq_toNat_cond, toNat_iomemAddrToIndex, toNat_iomemIndexToAddr_add hi hoffset]
  split_ifs <;> omega

theorem iomemAddrToOffset_add :
    iomemAddrToOffset (iomemIndexToAddr i + BitVec.ofNat 64 offset) = offset := by
  rw [iomemAddrToOffset_eq, toNat_iomemIndexToAddr_add hi hoffset]
  split_ifs <;> omega

omit hoffset in
theorem toInt_iomemAddrToIndex :
    (iomemAddrToIndex (iomemIndexToAddr i)).toInt =
      if i < 128 then (i : ℤ) else (i : ℤ) - 256 := by
  have h := toInt_iomemAddrToIndex_add hi (show 0 < 2 ^ 24 by decide)
  rwa [BitVec.add_zero] at h

end InRegion

/-! ## The table -/

/-- A region of a device: its size, and the data of the device, with the functions that
    read and write its registers. -/
structure IomemRegion (δ : Type*) where
  data : δ
  size : ℕ
  deriving DecidableEq

/-- The table of regions. An entry without functions is free. -/
structure Iomem (δ : Type*) where
  regions : ℕ → Option (IomemRegion δ)

/-- What an access of a register does. -/
inductive Access (δ : Type*)
  /-- It reads an entry outside of the table. -/
  | outside
  /-- It fails with `-1`. -/
  | refused
  /-- It calls a function of the device. -/
  | call (data : δ) (write : Bool) (offset size : ℕ)
  deriving DecidableEq

namespace Iomem

variable {δ : Type*}

def set (t : Iomem δ) (i : ℕ) (r : Option (IomemRegion δ)) : Iomem δ :=
  ⟨Function.update t.regions i r⟩

/-- The first entry that is free. The entry 0 is never used, since its address is `NULL`. -/
def firstFree (t : Iomem δ) : Option ℕ :=
  (List.range' 1 (maxIomemRegions - 1)).find? (fun i => (t.regions i).isNone)

def registerIomem (t : Iomem δ) (r : IomemRegion δ) : Option (BitVec 64) × Iomem δ :=
  if 2 ^ iomemOffsetBits - 1 < r.size then
    (none, t)
  else
    match t.firstFree with
    | none => (none, t)
    | some i => (some (iomemIndexToAddr i), t.set i (some r))

def unregisterIomem (t : Iomem δ) (base : BitVec 64) : Iomem δ :=
  let index := (iomemAddrToIndex base).toNat
  if maxIomemRegions ≤ index then
    t
  else
    t.set index none

/-- The entry of an index that is an `int`; `none` if it is outside of the table. -/
def entry (t : Iomem δ) (index : ℤ) : Option (Option (IomemRegion δ)) :=
  if 0 ≤ index ∧ index < maxIomemRegions then some (t.regions index.toNat) else none

/-- The address at which the driver finds a region, if there is one. The outer `none` is
    a read outside of the table. -/
def lklIoremap (t : Iomem δ) (addr : BitVec 64) (size : ℕ) : Option (Option (BitVec 64)) :=
  let index := (iomemAddrToIndex addr).toInt
  if maxIomemRegions ≤ index then
    some none
  else
    match t.entry index with
    | none => none
    | some none => some none
    | some (some r) =>
      if size ≤ r.size then some (some (iomemIndexToAddr index.toNat)) else some none

def lklIomemAccess (t : Iomem δ) (addr : BitVec 64) (size : ℕ) (write : Bool) : Access δ :=
  let index := (iomemAddrToIndex addr).toInt
  let offset := iomemAddrToOffset addr
  -- an index of `maxIomemRegions` passes the check
  if maxIomemRegions < index then
    .refused
  else
    match t.entry index with
    | none => .outside
    | some none => .refused
    | some (some r) =>
      if r.size < offset + size then .refused else .call r.data write offset size

/-! ### What the functions do at the addresses of a region -/

theorem firstFree_eq_some {t : Iomem δ} {i : ℕ} (h : t.firstFree = some i) :
    t.regions i = none ∧ 1 ≤ i ∧ i < 256 ∧ ∀ j, 1 ≤ j → j < i → t.regions j ≠ none := by
  rw [firstFree, List.find?_range'_eq_some] at h
  obtain ⟨hfree, hmem, hmin⟩ := h
  rw [List.mem_range'_1] at hmem
  refine ⟨Option.isNone_iff_eq_none.1 hfree, hmem.1, ?_, fun j hj hlt => ?_⟩
  · exact hmem.2
  · simpa [Option.isSome_iff_ne_none] using hmin j hj hlt

theorem registerIomem_eq_none {t t' : Iomem δ} {r : IomemRegion δ}
    (h : t.registerIomem r = (none, t')) : t' = t := by
  by_cases hsize : 2 ^ iomemOffsetBits - 1 < r.size
  · simpa [registerIomem, hsize] using h.symm
  · cases hi : t.firstFree with
    | none => simpa [registerIomem, hsize, hi] using h.symm
    | some i => simp [registerIomem, hsize, hi] at h

theorem registerIomem_eq_some {t t' : Iomem δ} {r : IomemRegion δ} {base : BitVec 64}
    (h : t.registerIomem r = (some base, t')) :
    r.size < 2 ^ 24 ∧ ∃ i, t.firstFree = some i ∧ base = iomemIndexToAddr i ∧
      t' = t.set i (some r) := by
  by_cases hsize : 2 ^ iomemOffsetBits - 1 < r.size
  · simp [registerIomem, hsize] at h
  · cases hi : t.firstFree with
    | none => simp [registerIomem, hsize, hi] at h
    | some i =>
      simp only [registerIomem, hsize, hi, if_false, Prod.mk.injEq, Option.some.injEq] at h
      rw [iomemOffsetBits] at hsize
      exact ⟨by omega, i, rfl, h.1.symm, h.2.symm⟩

theorem entry_of_lt (t : Iomem δ) {i : ℕ} (hi : i < 256) : t.entry i = some (t.regions i) := by
  rw [entry, if_pos ⟨by omega, by rw [maxIomemRegions]; omega⟩, Int.toNat_natCast]

theorem entry_of_neg (t : Iomem δ) {index : ℤ} (h : index < 0) : t.entry index = none :=
  if_neg fun hindex => absurd hindex.1 (by omega)

theorem unregisterIomem_of_lt (t : Iomem δ) {i : ℕ} (hi : i < 128) :
    t.unregisterIomem (iomemIndexToAddr i) = t.set i none := by
  have hindex : (iomemAddrToIndex (iomemIndexToAddr i)).toNat = i := by
    rw [toNat_iomemAddrToIndex, toNat_iomemIndexToAddr hi]
    omega
  simp only [unregisterIomem, hindex, maxIomemRegions]
  rw [if_neg (by omega)]

theorem set_regions_eq_some {t : Iomem δ} {i j : ℕ} {e : Option (IomemRegion δ)}
    {r : IomemRegion δ} :
    (t.set i e).regions j = some r ↔ j = i ∧ e = some r ∨ j ≠ i ∧ t.regions j = some r := by
  by_cases h : j = i
  · subst h
    simp [set]
  · simp [set, h]

section InRegion

variable {t : Iomem δ} {i offset size : ℕ} {r : IomemRegion δ}

theorem lklIoremap_of_lt (hi : i < 128) (hr : t.regions i = some r) :
    t.lklIoremap (iomemIndexToAddr i) r.size = some (some (iomemIndexToAddr i)) := by
  have hindex := toInt_iomemAddrToIndex (show i < 256 by omega)
  rw [if_pos hi] at hindex
  have hle : ¬(maxIomemRegions : ℤ) ≤ i := by rw [maxIomemRegions]; omega
  simp [lklIoremap, hindex, hle, t.entry_of_lt (show i < 256 by omega), hr]

theorem lklIomemAccess_of_lt (hi : i < 128) (hr : t.regions i = some r) (hsize : r.size < 2 ^ 24)
    (hle : offset + size ≤ r.size) (write : Bool) :
    t.lklIomemAccess (iomemIndexToAddr i + BitVec.ofNat 64 offset) size write =
      .call r.data write offset size := by
  have hi' : i < 256 := by omega
  have hoffset : offset < 2 ^ 24 := by omega
  have hindex := toInt_iomemAddrToIndex_add hi' hoffset
  rw [if_pos hi] at hindex
  have hlt : ¬(maxIomemRegions : ℤ) < i := by rw [maxIomemRegions]; omega
  have hfits : ¬r.size < offset + size := by omega
  simp [lklIomemAccess, hindex, iomemAddrToOffset_add hi' hoffset, hlt, t.entry_of_lt hi', hr,
    hfits]

/-- The entry of an address with the sign is outside of the table. -/
theorem lklIomemAccess_of_le (hi : i < 256) (hle : 128 ≤ i) (hoffset : offset < 2 ^ 24)
    (write : Bool) :
    t.lklIomemAccess (iomemIndexToAddr i + BitVec.ofNat 64 offset) size write = .outside := by
  have hindex := toInt_iomemAddrToIndex_add hi hoffset
  rw [if_neg (by omega)] at hindex
  have hlt : ¬(maxIomemRegions : ℤ) < i - 256 := by rw [maxIomemRegions]; omega
  simp only [lklIomemAccess, hindex, if_neg hlt, t.entry_of_neg (show (i : ℤ) - 256 < 0 by omega)]

theorem lklIoremap_of_le (hi : i < 256) (hle : 128 ≤ i) :
    t.lklIoremap (iomemIndexToAddr i) size = none := by
  have hindex := toInt_iomemAddrToIndex hi
  rw [if_neg (by omega)] at hindex
  have hlt : ¬(maxIomemRegions : ℤ) ≤ i - 256 := by rw [maxIomemRegions]; omega
  simp only [lklIoremap, hindex, if_neg hlt, t.entry_of_neg (show (i : ℤ) - 256 < 0 by omega)]

end InRegion

end Iomem

/-! ## Devices that come and go -/

/-- The table, and the regions that were registered, and not unregistered since, by the
    addresses their devices got for them. -/
structure IomemUse (δ : Type*) where
  table : Iomem δ
  live : List (BitVec 64 × IomemRegion δ)

namespace IomemUse

variable {δ : Type*}

inductive Event (δ : Type*)
  | register (r : IomemRegion δ)
  | unregister (base : BitVec 64)

def register (s : IomemUse δ) (r : IomemRegion δ) : IomemUse δ :=
  match s.table.registerIomem r with
  | (none, table) => { s with table := table }
  | (some base, table) => ⟨table, (base, r) :: s.live⟩

def unregister (s : IomemUse δ) (base : BitVec 64) : IomemUse δ :=
  ⟨s.table.unregisterIomem base, s.live.filter (fun region => region.1 ≠ base)⟩

/-- A device unregisters its region by the address it got for it. -/
def system : System (IomemUse δ) (Event δ) where
  Enabled s
    | .register _ => True
    | .unregister base => base ∈ s.live.map Prod.fst
  next s
    | .register r => s.register r
    | .unregister base => s.unregister base

instance (s : IomemUse δ) : ∀ l, Decidable (system.Enabled s l)
  | .register _ => inferInstanceAs (Decidable True)
  | .unregister _ => inferInstanceAs (Decidable (_ ∈ _))

def init : IomemUse δ := ⟨⟨fun _ => none⟩, []⟩

/-- No more than 127 regions are registered at once. -/
def Few (s : IomemUse δ) : Event δ → Prop
  | .register _ => s.live.length < 127
  | .unregister _ => True

instance (s : IomemUse δ) : ∀ l, Decidable (Few s l)
  | .register _ => inferInstanceAs (Decidable (_ < _))
  | .unregister _ => inferInstanceAs (Decidable True)

/-- The regions of the devices are those of the table, at indices below 128. -/
structure Kept (s : IomemUse δ) : Prop where
  mem_live : ∀ base r, (base, r) ∈ s.live ↔
    ∃ i, 1 ≤ i ∧ i < 128 ∧ base = iomemIndexToAddr i ∧ s.table.regions i = some r
  size_lt : ∀ region ∈ s.live, region.2.size < 2 ^ 24

theorem kept_init : Kept (init : IomemUse δ) :=
  ⟨by simp [init], by simp [init]⟩

/-- Were the entries 1 to 127 all in use, there would be as many addresses. -/
theorem Kept.firstFree_lt {s : IomemUse δ} (h : Kept s) (hfew : s.live.length < 127) {i : ℕ}
    (hi : s.table.firstFree = some i) : i < 128 := by
  obtain ⟨-, -, -, hused⟩ := Iomem.firstFree_eq_some hi
  by_contra hle
  have hnodup : ((List.range' 1 127).map iomemIndexToAddr).Nodup := by
    refine List.Nodup.map_on (fun j hj k hk hjk => ?_) List.nodup_range'
    rw [List.mem_range'_1] at hj hk
    exact iomemIndexToAddr_inj (by omega) (by omega) hjk
  have hsubset : (List.range' 1 127).map iomemIndexToAddr ⊆ s.live.map Prod.fst := by
    intro base hbase
    obtain ⟨j, hj, rfl⟩ := List.mem_map.1 hbase
    rw [List.mem_range'_1] at hj
    obtain ⟨r, hr⟩ := Option.ne_none_iff_exists'.1 (hused j hj.1 (by omega))
    exact List.mem_map.2 ⟨_, (h.mem_live _ r).2 ⟨j, hj.1, by omega, rfl, hr⟩, rfl⟩
  have hlength := (List.subperm_of_subset hnodup hsubset).length_le
  rw [List.length_map, List.length_map, List.length_range'] at hlength
  omega

theorem Kept.register {s : IomemUse δ} (h : Kept s) (hfew : s.live.length < 127)
    (r : IomemRegion δ) : Kept (s.register r) := by
  rcases hregister : s.table.registerIomem r with ⟨_ | base, table⟩
  · have htable := Iomem.registerIomem_eq_none hregister
    rwa [IomemUse.register, hregister, htable]
  · obtain ⟨hsize, i, hi, rfl, rfl⟩ := Iomem.registerIomem_eq_some hregister
    obtain ⟨hfree, hpos, -, -⟩ := Iomem.firstFree_eq_some hi
    have hlt := h.firstFree_lt hfew hi
    rw [IomemUse.register, hregister]
    refine ⟨fun base r' => ?_, ?_⟩
    · simp only [List.mem_cons, Prod.mk.injEq, h.mem_live, Iomem.set_regions_eq_some,
        Option.some.injEq]
      constructor
      · rintro (⟨rfl, rfl⟩ | ⟨j, hj, hj', rfl, hr⟩)
        · exact ⟨i, hpos, hlt, rfl, .inl ⟨rfl, rfl⟩⟩
        · refine ⟨j, hj, hj', rfl, .inr ⟨?_, hr⟩⟩
          rintro rfl
          simp [hfree] at hr
      · rintro ⟨j, hj, hj', rfl, ⟨rfl, rfl⟩ | ⟨-, hr⟩⟩
        · exact .inl ⟨rfl, rfl⟩
        · exact .inr ⟨j, hj, hj', rfl, hr⟩
    · exact List.forall_mem_cons.2 ⟨hsize, h.size_lt⟩

theorem Kept.unregister {s : IomemUse δ} (h : Kept s) {base : BitVec 64}
    (hbase : base ∈ s.live.map Prod.fst) : Kept (s.unregister base) := by
  obtain ⟨⟨_, r⟩, hlive, rfl⟩ := List.mem_map.1 hbase
  obtain ⟨i, -, hi, rfl, -⟩ := (h.mem_live _ r).1 hlive
  have hunregister : s.unregister (iomemIndexToAddr i) = ⟨s.table.set i none,
      s.live.filter (fun region => region.1 ≠ iomemIndexToAddr i)⟩ := by
    rw [IomemUse.unregister, s.table.unregisterIomem_of_lt hi]
  simp only [hunregister]
  refine ⟨fun base r' => ?_, fun region hregion => h.size_lt _ (List.mem_of_mem_filter hregion)⟩
  simp only [List.mem_filter, decide_eq_true_eq, h.mem_live, Iomem.set_regions_eq_some,
    reduceCtorEq, and_false, false_or]
  constructor
  · rintro ⟨⟨j, hj, hj', rfl, hr⟩, hne⟩
    refine ⟨j, hj, hj', rfl, ?_, hr⟩
    rintro rfl
    exact hne rfl
  · rintro ⟨j, hj, hj', rfl, hne, hr⟩
    exact ⟨⟨j, hj, hj', rfl, hr⟩, fun heq => hne (iomemIndexToAddr_inj hj' hi heq)⟩

theorem Kept.next {s : IomemUse δ} (h : Kept s) {l : Event δ}
    (hl : (system.restrict Few).Enabled s l) : Kept ((system.restrict Few).next s l) := by
  cases l with
  | register r => exact h.register hl.2 r
  | unregister base => exact h.unregister hl.1

/-- While at most 127 regions are registered at once, a driver can map each of them, and each
    of its accesses calls the functions of the device it is meant for, with the offset in the
    region of the device. -/
theorem access_of_live {s : IomemUse δ} (hs : (system.restrict Few).Reachable init s)
    {base : BitVec 64} {r : IomemRegion δ} (hlive : (base, r) ∈ s.live) :
    s.table.lklIoremap base r.size = some (some base) ∧
      ∀ offset size write, offset + size ≤ r.size →
        s.table.lklIomemAccess (base + BitVec.ofNat 64 offset) size write =
          .call r.data write offset size := by
  have hkept : Kept s := hs.invariant kept_init fun _ _ h hl => h.next hl
  obtain ⟨i, -, hi, rfl, hr⟩ := (hkept.mem_live _ r).1 hlive
  exact ⟨Iomem.lklIoremap_of_lt hi hr, fun _ _ write hle =>
    Iomem.lklIomemAccess_of_lt hi hr (hkept.size_lt _ hlive) hle write⟩

/-- The third device gets the address that the first one gave back. -/
def sampleUse : List (Event ℕ) :=
  [.register ⟨1, 0x108⟩, .register ⟨2, 0x108⟩, .unregister 0x1000000#64, .register ⟨3, 0x110⟩]

theorem access_of_live_sample :
    (0x1000000#64, ⟨3, 0x110⟩) ∈ (system.run init sampleUse).live ∧
      (system.run init sampleUse).table.lklIomemAccess
          (0x1000000#64 + BitVec.ofNat 64 0x10c) 4 false = .call 3 false 0x10c 4 := by
  have hrun : (system.restrict Few).IsRun init sampleUse :=
    System.isRun_restrict.2 ⟨⟨by decide, by decide, by decide, by decide, trivial⟩,
      by decide, by decide, by decide, by decide, trivial⟩
  have hlive : (0x1000000#64, ⟨3, 0x110⟩) ∈ (system.run init sampleUse).live := by decide
  exact ⟨hlive, (access_of_live (System.reachable_run hrun) hlive).2 0x10c 4 false (by decide)⟩

end IomemUse

/-- Once the entries 1 to 127 are in use, the next region gets an address at which
    neither the mapping of the region nor an access reads an entry of the table. -/
theorem access_of_crowded {δ : Type*} {t t' : Iomem δ} {r : IomemRegion δ} {base : BitVec 64}
    (hused : ∀ i, 1 ≤ i → i < 128 → t.regions i ≠ none)
    (hregister : t.registerIomem r = (some base, t')) :
    t'.lklIoremap base r.size = none ∧
      ∀ offset size write, offset + size ≤ r.size →
        t'.lklIomemAccess (base + BitVec.ofNat 64 offset) size write = .outside := by
  obtain ⟨hsize, i, hi, rfl, -⟩ := Iomem.registerIomem_eq_some hregister
  obtain ⟨hfree, hpos, hi', -⟩ := Iomem.firstFree_eq_some hi
  have hle : 128 ≤ i := by
    by_contra hlt
    exact hused i hpos (by omega) hfree
  exact ⟨Iomem.lklIoremap_of_le hi' hle, fun _ _ write h =>
    Iomem.lklIomemAccess_of_le hi' hle (by omega) write⟩

/-- The table with 127 devices. -/
def sampleCrowd : Iomem ℕ :=
  ⟨fun i => if 1 ≤ i ∧ i < 128 then some ⟨i, 0x108⟩ else none⟩

theorem access_of_crowded_sample :
    (sampleCrowd.registerIomem ⟨128, 0x108⟩).1 = some 0xFFFFFFFF80000000#64 ∧
      (sampleCrowd.registerIomem ⟨128, 0x108⟩).2.lklIomemAccess
          (0xFFFFFFFF80000000#64 + BitVec.ofNat 64 0) 4 false = .outside := by
  have hbase : (sampleCrowd.registerIomem ⟨128, 0x108⟩).1 = some 0xFFFFFFFF80000000#64 := by
    decide +kernel
  have hused : ∀ i, 1 ≤ i → i < 128 → sampleCrowd.regions i ≠ none := by
    intro i hpos hlt
    simp [sampleCrowd, hpos, hlt]
  exact ⟨hbase, (access_of_crowded hused (Prod.ext hbase rfl)).2 0 4 false (by decide)⟩

end Virtio

end NodeLkl
