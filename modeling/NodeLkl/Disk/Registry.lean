import NodeLkl.Base.System
import Mathlib.Logic.Function.Basic
import Mathlib.Data.BitVec

/-!
# The registry of disks

The disks attached to LKL are kept in a map, `disks`, from their identifiers:
`doDiskAdd` puts there what was given to `lkl_disk_add`, whether or not that
succeeded (a negative error is then taken for an unsigned identifier), and
`doDiskRemove` looks a disk up, inserting an empty one if there is none, and
erases it, whether or not `lkl_disk_remove` succeeded.

The map is what LKL has attached as long as no disk fails to be added, and no
attached disk fails to be removed, and no longer (`along_faithful_iff_clean`).
-/

namespace NodeLkl.Registry

/-- A disk: its device (`none` for a null pointer), and the callbacks serving
    its requests. -/
structure LklDisk where
  dev : Option ℕ
  handle : ℕ
  deriving DecidableEq

/-- The map of the disks, and what LKL knows of them: the disks attached, and
    the devices allocated (numbered in the order of their allocation) and freed. -/
structure State where
  disks : BitVec 32 → Option LklDisk
  attached : BitVec 32 → Option LklDisk
  allocated : ℕ
  freed : List ℕ

/-- At first, there is no disk. -/
def State.init : State := ⟨fun _ => none, fun _ => none, 0, []⟩

/-- The operations, with the results of the functions of LKL they call: adding a
    disk, given by its callbacks, and removing the disk `id`. -/
inductive Op
  | add (handle : ℕ) (ret : ℤ)
  | remove (id : BitVec 32) (ret : ℤ)

/-- The identifier that a (signed) result is taken for. -/
def toId (ret : ℤ) : BitVec 32 := BitVec.ofInt 32 ret

/-- The disk looked up: an empty one if there is none. -/
def State.lookup (s : State) (id : BitVec 32) : LklDisk := (s.disks id).getD ⟨none, 0⟩

/-- The error for a disk without a device. -/
abbrev lklEinval : ℤ := 22

/-- The result of removing a disk: `ret`, but for a null device. -/
def lklDiskRemove (disk : LklDisk) (ret : ℤ) : ℤ :=
  match disk.dev with
  | none => -lklEinval
  | some _ => ret

/-- Adding a disk: on failure, its device is freed. -/
def doDiskAdd (s : State) (handle : ℕ) (ret : ℤ) : State :=
  let disk : LklDisk := ⟨some s.allocated, handle⟩
  -- the disk is recorded whether it was added or not, under an error converted to an identifier
  { disks := Function.update s.disks (toId ret) disk
    attached := if 0 ≤ ret then Function.update s.attached (toId ret) disk else s.attached
    allocated := s.allocated + 1
    freed := if 0 ≤ ret then s.freed else s.allocated :: s.freed }

/-- Removing the disk `id`: on success, it is detached and its device is freed. -/
def doDiskRemove (s : State) (id : BitVec 32) (ret : ℤ) : State :=
  let ok := lklDiskRemove (s.lookup id) ret = 0
  -- the disk is erased whether it was removed or not
  { s with
    disks := Function.update s.disks id none
    attached := if ok then Function.update s.attached id none else s.attached
    freed := if ok then (s.lookup id).dev.toList ++ s.freed else s.freed }

/-- The result reported by an operation: an identifier, zero, or an error. -/
def report (s : State) : Op → ℤ
  | .add _ ret => ret
  | .remove id ret => lklDiskRemove (s.lookup id) ret

/-- The operations on the registry. A disk is added with an identifier that is
    not used by another one, and the other results are errors or zero. -/
def registry : System State Op where
  Enabled s
    | .add _ ret => -2 ^ 31 ≤ ret ∧ ret < 2 ^ 31 ∧ (0 ≤ ret → s.attached (toId ret) = none)
    | .remove _ ret => -2 ^ 31 ≤ ret ∧ ret ≤ 0
  next s
    | .add handle ret => doDiskAdd s handle ret
    | .remove id ret => doDiskRemove s id ret

/-- The registry holds the disks that are attached, and their devices are
    allocated. -/
structure Matches (s : State) : Prop where
  disks : s.disks = s.attached
  dev : ∀ id disk, s.disks id = some disk → ∃ dev, disk.dev = some dev ∧ dev ∉ s.freed

/-- What is expected of an operation: it leaves the registry matching what is
    attached, a failure leaves it as it was, removing a disk that is not
    attached is a failure, and the disk it looks up, if any, has its device. -/
structure Faithful (s : State) (op : Op) : Prop where
  matches_next : Matches (registry.next s op)
  unchanged : report s op < 0 → (registry.next s op).disks = s.disks
  unattached : ∀ id ret, op = .remove id ret → s.attached id = none → report s op < 0
  lookup : ∀ id ret disk, op = .remove id ret → s.disks id = some disk →
    ∃ dev, disk.dev = some dev ∧ dev ∉ s.freed

/-- An operation that does not fail: adding a disk succeeds, and so does
    removing one that is attached. -/
def Clean (s : State) : Op → Prop
  | .add _ ret => 0 ≤ ret
  | .remove id ret => s.attached id ≠ none → ret = 0

/-- The invariant of the registry: besides matching what is attached, its
    identifiers are those of successes, and its devices are distinct. -/
structure Inv (s : State) : Prop extends Matches s where
  id_lt : ∀ id disk, s.disks id = some disk → id.toNat < 2 ^ 31
  dev_lt : ∀ id disk dev, s.disks id = some disk → disk.dev = some dev → dev < s.allocated
  freed_lt : ∀ dev ∈ s.freed, dev < s.allocated
  dev_inj : ∀ id id' disk disk', s.disks id = some disk → s.disks id' = some disk' →
    disk.dev = disk'.dev → id = id'

theorem inv_init : Inv .init where
  disks := rfl
  dev _ _ h := by cases h
  id_lt _ _ h := by cases h
  dev_lt _ _ _ h := by cases h
  freed_lt _ h := by cases h
  dev_inj _ _ _ _ h := by cases h

theorem toNat_toId {ret : ℤ} (h₁ : -2 ^ 31 ≤ ret) (h₂ : ret < 2 ^ 31) :
    (toId ret).toNat < 2 ^ 31 ↔ 0 ≤ ret := by
  rw [toId, BitVec.toNat_ofInt]
  push_cast
  omega

variable {s : State} {handle : ℕ} {id : BitVec 32} {ret : ℤ}

/-! ## Adding a disk -/

/-- A disk that is added is registered as it is attached. -/
theorem inv_doDiskAdd (hs : Inv s) (h₁ : -2 ^ 31 ≤ ret) (h₂ : ret < 2 ^ 31) (h₀ : 0 ≤ ret) :
    Inv (doDiskAdd s handle ret) := by
  have hd : (doDiskAdd s handle ret).disks =
      Function.update s.disks (toId ret) (some ⟨some s.allocated, handle⟩) := rfl
  have hf : (doDiskAdd s handle ret).freed = s.freed := if_pos h₀
  -- The entries are the new one, with a new device, and the ones before.
  have hcases : ∀ i disk, (doDiskAdd s handle ret).disks i = some disk →
      (i = toId ret ∧ disk = ⟨some s.allocated, handle⟩) ∨
        (i ≠ toId ret ∧ s.disks i = some disk) := by
    intro i disk hi
    rw [hd] at hi
    by_cases hne : i = toId ret
    · subst hne
      rw [Function.update_self] at hi
      exact .inl ⟨rfl, (Option.some.inj hi).symm⟩
    · rw [Function.update_of_ne hne] at hi
      exact .inr ⟨hne, hi⟩
  refine ⟨⟨?_, fun i disk hi => ?_⟩, fun i disk hi => ?_, fun i disk dev hi hdev => ?_,
    fun dev hdev => ?_, fun i i' disk disk' hi hi' heq => ?_⟩
  · rw [hd, hs.disks]
    exact (if_pos h₀).symm
  · rw [hf]
    rcases hcases i disk hi with ⟨rfl, rfl⟩ | ⟨_, hi⟩
    · exact ⟨_, rfl, fun h => Nat.lt_irrefl _ (hs.freed_lt _ h)⟩
    · exact hs.dev i disk hi
  · rcases hcases i disk hi with ⟨rfl, rfl⟩ | ⟨_, hi⟩
    · exact (toNat_toId h₁ h₂).2 h₀
    · exact hs.id_lt i disk hi
  · rcases hcases i disk hi with ⟨rfl, rfl⟩ | ⟨_, hi⟩
    · exact Option.some.inj hdev ▸ Nat.lt_succ_self _
    · exact Nat.lt_succ_of_lt (hs.dev_lt i disk dev hi hdev)
  · exact Nat.lt_succ_of_lt (hs.freed_lt dev (hf ▸ hdev))
  · have hold : ∀ j disk, s.disks j = some disk → disk.dev ≠ some s.allocated :=
      fun j disk hj hdev => Nat.lt_irrefl _ (hs.dev_lt j disk _ hj hdev)
    rcases hcases i disk hi with ⟨rfl, rfl⟩ | ⟨_, hi⟩ <;>
      rcases hcases i' disk' hi' with ⟨rfl, rfl⟩ | ⟨_, hi'⟩
    · rfl
    · exact absurd heq.symm (hold _ _ hi')
    · exact absurd heq (hold _ _ hi)
    · exact hs.dev_inj i i' disk disk' hi hi' heq

/-- A failure to add a disk is registered all the same. -/
theorem disks_doDiskAdd_ne (hs : Inv s) (h₁ : -2 ^ 31 ≤ ret) (h₂ : ret < 2 ^ 31) (h₀ : ret < 0) :
    (doDiskAdd s handle ret).disks ≠ s.disks := by
  intro h
  have hi := congrFun h (toId ret)
  rw [show (doDiskAdd s handle ret).disks (toId ret) = some ⟨some s.allocated, handle⟩ from
    Function.update_self ..] at hi
  exact absurd ((toNat_toId h₁ h₂).1 (hs.id_lt _ _ hi.symm)) (Int.not_le.2 h₀)

/-! ## Removing a disk -/

/-- Removing a disk that is not attached changes nothing: what the lookup
    inserts is erased. -/
theorem doDiskRemove_of_unattached (hs : Inv s) (h : s.attached id = none) (ret : ℤ) :
    lklDiskRemove (s.lookup id) ret = -lklEinval ∧ doDiskRemove s id ret = s := by
  have hd : s.disks id = none := hs.disks ▸ h
  have hr : lklDiskRemove (s.lookup id) ret = -lklEinval := by
    simp [lklDiskRemove, State.lookup, hd]
  refine ⟨hr, ?_⟩
  simp only [doDiskRemove, hr]
  rw [show Function.update s.disks id none = s.disks by rw [← hd, Function.update_eq_self]]
  simp

/-- The result of removing a disk that is attached is that of LKL. -/
theorem lklDiskRemove_of_attached (hs : Inv s) (h : s.attached id ≠ none) (ret : ℤ) :
    ∃ disk dev, s.disks id = some disk ∧ disk.dev = some dev ∧ dev ∉ s.freed ∧
      s.lookup id = disk ∧ lklDiskRemove (s.lookup id) ret = ret := by
  obtain ⟨disk, hd⟩ := Option.ne_none_iff_exists'.1 (hs.disks ▸ h)
  obtain ⟨dev, hdev, hfree⟩ := hs.dev id disk hd
  have hl : s.lookup id = disk := by simp [State.lookup, hd]
  exact ⟨disk, dev, hd, hdev, hfree, hl, by simp [lklDiskRemove, hl, hdev]⟩

/-- A disk that is removed is no longer registered, as it is detached. -/
theorem inv_doDiskRemove (hs : Inv s) (h : s.attached id ≠ none) :
    Inv (doDiskRemove s id 0) := by
  obtain ⟨disk, dev, hd, hdev, -, hl, hr⟩ := lklDiskRemove_of_attached hs h 0
  have hf : (doDiskRemove s id 0).freed = dev :: s.freed := by
    simp [doDiskRemove, hl ▸ hr, hl, hdev]
  have ha : (doDiskRemove s id 0).attached = Function.update s.attached id none := if_pos hr
  -- The entries are those of the other disks, which have other devices.
  have hold : ∀ i disk', (doDiskRemove s id 0).disks i = some disk' →
      s.disks i = some disk' ∧ disk'.dev ≠ some dev := by
    intro i disk' hi
    by_cases hne : i = id
    · subst hne
      simp [doDiskRemove] at hi
    · have hi' : s.disks i = some disk' := by simpa [doDiskRemove, hne] using hi
      exact ⟨hi', fun h' => hne (hs.dev_inj i id disk' disk hi' hd (h'.trans hdev.symm))⟩
  refine ⟨⟨by rw [ha, ← hs.disks]; rfl, fun i disk' hi => ?_⟩, fun i disk' hi => ?_,
    fun i disk' dev' hi hdev' => ?_, fun dev' hdev' => ?_, fun i i' d d' hi hi' heq => ?_⟩
  · obtain ⟨hi, hne⟩ := hold i disk' hi
    obtain ⟨dev', hdev', hfree⟩ := hs.dev i disk' hi
    refine ⟨dev', hdev', ?_⟩
    rw [hf, List.mem_cons, not_or]
    exact ⟨fun h' => hne (h' ▸ hdev'), hfree⟩
  · exact hs.id_lt i disk' (hold i disk' hi).1
  · exact hs.dev_lt i disk' dev' (hold i disk' hi).1 hdev'
  · rw [hf] at hdev'
    rcases List.mem_cons.1 hdev' with rfl | hdev'
    · exact hs.dev_lt id disk _ hd hdev
    · exact hs.freed_lt dev' hdev'
  · exact hs.dev_inj i i' d d' (hold i d hi).1 (hold i' d' hi').1 heq

/-! ## Runs -/

variable {op : Op}

/-- An operation that does not fail keeps the invariant. -/
theorem inv_next (hs : Inv s) (hop : registry.Enabled s op) (hc : Clean s op) :
    Inv (registry.next s op) := by
  cases op with
  | add handle ret => exact inv_doDiskAdd hs hop.1 hop.2.1 hc
  | remove id ret =>
    by_cases ha : s.attached id = none
    · rwa [show registry.next s (.remove id ret) = s from
        (doDiskRemove_of_unattached hs ha ret).2]
    · exact hc ha ▸ inv_doDiskRemove hs ha

/-- An operation is as expected exactly when it does not fail. -/
theorem faithful_iff_clean (hs : Inv s) (hop : registry.Enabled s op) :
    Faithful s op ↔ Clean s op := by
  constructor
  · intro h
    cases op with
    | add handle ret =>
      by_contra h₀
      exact disks_doDiskAdd_ne hs hop.1 hop.2.1 (Int.not_le.1 h₀) (h.unchanged (Int.not_le.1 h₀))
    | remove id ret =>
      intro ha
      by_contra hret
      obtain ⟨disk, -, hd, -, -, -, hr⟩ := lklDiskRemove_of_attached hs ha ret
      have hneg : report s (.remove id ret) < 0 := by
        have := hop.2
        rw [report, hr]
        omega
      have hu := congrFun (h.unchanged hneg) id
      rw [hd] at hu
      simp [registry, doDiskRemove] at hu
  · intro hc
    refine ⟨(inv_next hs hop hc).toMatches, fun hneg => ?_, ?_, ?_⟩
    · cases op with
      | add handle ret => exact absurd hc (Int.not_le.2 hneg)
      | remove id ret =>
        by_cases ha : s.attached id = none
        · exact congrArg State.disks (doDiskRemove_of_unattached hs ha ret).2
        · obtain ⟨-, -, -, -, -, -, hr⟩ := lklDiskRemove_of_attached hs ha ret
          rw [report, hr, hc ha] at hneg
          exact absurd hneg (Int.lt_irrefl 0)
    · rintro id ret rfl ha
      rw [report, (doDiskRemove_of_unattached hs ha ret).1]
      decide
    · rintro id ret disk rfl hd
      exact hs.dev id disk hd

theorem along_faithful_iff_along_clean (ops : List Op) (hs : Inv s) (hr : registry.IsRun s ops) :
    registry.Along Faithful s ops ↔ registry.Along Clean s ops := by
  induction ops generalizing s with
  | nil => exact Iff.rfl
  | cons op ops ih =>
    obtain ⟨hop, hr⟩ := hr
    -- the invariant is kept by clean operations only, so that the rest is compared under `hc`
    rw [System.Along, System.Along, faithful_iff_clean hs hop]
    exact and_congr_right fun hc => ih (inv_next hs hop hc) hr

/-- In a run of the registry, every operation leaves it with the disks that are
    attached, and reports a failure without changing it, exactly when no disk
    fails to be added and no attached disk fails to be removed. -/
theorem along_faithful_iff_clean (ops : List Op) (hr : registry.IsRun .init ops) :
    registry.Along Faithful .init ops ↔ registry.Along Clean .init ops :=
  along_faithful_iff_along_clean ops inv_init hr

/-- Adding a disk and removing it, twice. -/
theorem along_faithful_add_remove :
    registry.IsRun .init [.add 7 0, .remove 0 0, .remove 0 0] ∧
      (registry.Along Faithful .init [.add 7 0, .remove 0 0, .remove 0 0] ↔
        registry.Along Clean .init [.add 7 0, .remove 0 0, .remove 0 0]) := by
  have hr : registry.IsRun .init [.add 7 0, .remove 0 0, .remove 0 0] := by
    simp [System.IsRun, registry, State.init]
  exact ⟨hr, along_faithful_iff_clean _ hr⟩

/-- A disk whose capacity cannot be read is registered, with the device that
    was freed. -/
theorem not_faithful_add : registry.IsRun .init [.add 7 (-12)] ∧
    ¬registry.Along Faithful .init [.add 7 (-12)] := by
  refine ⟨by simp [System.IsRun, registry], fun h => ?_⟩
  have hd := congrFun (h.1.unchanged (by decide)) (toId (-12))
  simp [registry, doDiskAdd, State.init] at hd

end NodeLkl.Registry
