import NodeLkl.Disk.Block

/-!
# The status of a request

How a failure of a JavaScript disk reaches the kernel: the reason of the
rejected promise is converted to an integer, which LKL truncates to the status
byte of the request (`blkEnqueue`), or, for the capacity, tests to refuse the
disk (`lklDiskAdd`).

A failure is reported if and only if that integer is not zero, modulo `2 ^ 8`
or `2 ^ 32` (`requestReported_iff`, `capacityReported_iff`). In particular a
failure with an `Error`, whose conversion is `NaN`, is reported as a success.
-/

namespace NodeLkl

/-! ## Requests from the virtio queue -/

/-- The number written in little-endian order. -/
def leNat : Bytes → ℕ
  | [] => 0
  | b :: bs => b.toNat + 256 * leNat bs

/-- The block request in the buffers of a virtio request: a header of 16 bytes,
    the data, and a trailer of one byte for the status. Of the sector, 32 bits
    are kept. -/
def lklBlkReq (buf : List Bytes) : Option LklBlkReq :=
  match buf with
  | h :: b :: bs =>
    let t := (b :: bs).getLast (List.cons_ne_nil _ _)
    if bs ≠ [] ∧ h.length = 16 ∧ t.length = 1 then
      some {
        type := BitVec.ofNat 32 (leNat (h.take 4))
        sector := leNat (h.drop 8) % 2 ^ 32
        buf := (b :: bs).dropLast
        sector_lt := (Nat.mod_lt _ (by decide)).trans (by decide) }
    else none
  | _ => none

/-- What becomes of the status of a virtio request: it is left as it was, or
    stored, or the request is not completed. -/
inductive Status
  | unwritten
  | stored (status : BitVec 8)
  | pending
  deriving DecidableEq

/-- A virtio request, served by the block requests `ops`. -/
def blkEnqueue {σ : Type*} (ops : LklBlkReq → Completion σ) (buf : List Bytes) : Status :=
  if buf.length < 3 then .unwritten
  else match lklBlkReq buf with
    | none => .stored (statusByte LklDevBlkStatus.ioerr)
    | some r => match (ops r).ret with
      | none => .pending
      | some ret => .stored (statusByte ret)

theorem lt_length_of_lklBlkReq {buf : List Bytes} {r : LklBlkReq}
    (h : lklBlkReq buf = some r) : ¬buf.length < 3 := by
  match buf, h with
  | h' :: b :: b' :: bs, _ => simp

/-! ## The capacity of a disk -/

/-- The error for a disk that cannot be added. -/
abbrev lklEnomem : ℤ := 12

/-- Adding a disk, whose capacity is asked for with the status `ret`: `alloc` is
    whether its device is allocated, `setup` the status of setting it up, and
    `mmioId` the identifier it gets. -/
def lklDiskAdd (alloc : Bool) (ret setup mmioId : ℤ) : ℤ :=
  if !alloc then -lklEnomem
  else if ret ≠ 0 then -lklEnomem
  else if setup ≠ 0 then setup
  else mmioId

/-! ## Reporting failures -/

variable {σ : Type*} (kMaxLength : ℕ) (d : JsDisk σ) (s : σ)

/-- How the promise of the method called for the request `r` settles, if one is. -/
def outcome (r : LklBlkReq) : Option Outcome :=
  if ∀ b ∈ r.buf, b.length ≤ kMaxLength then
    if r.type.toNat = LklDevBlkType.read then
      r.buf.head?.map fun b => (d.read s b 0 b.length r.offset).outcome
    else if r.type.toNat = LklDevBlkType.write then
      r.buf.head?.map fun b => (d.write s b 0 b.length r.offset).2
    else if r.type.toNat = LklDevBlkType.flush ∨ r.type.toNat = LklDevBlkType.flushOut then
      some (d.flush s).2
    else none
  else none

/-- The callback is called with what the method settles with. -/
theorem request_info (r : LklBlkReq) :
    (request kMaxLength d s r).info = (outcome kMaxLength d s r).map asCallback := by
  simp only [request, outcome, DiskWrapper.request]
  split
  · rcases r.buf with _ | ⟨b, bs⟩ <;> simp only [List.head?_nil, List.head?_cons] <;>
      split_ifs <;> rfl
  · rfl

/-- A failure of the method called for a request is reported: the status stored
    is zero exactly when the method succeeded. -/
def RequestReported (buf : List Bytes) : Prop :=
  ∀ r o, lklBlkReq buf = some r → outcome kMaxLength d s r = some o →
    ∃ b, blkEnqueue (jsRequestEntry kMaxLength d s) buf = .stored b ∧
      (b = 0 ↔ ∃ v, o = .fulfilled v)

/-- A failure to read the capacity is reported: the status is zero exactly when
    the method succeeded, and otherwise the disk is not added. -/
def CapacityReported : Prop :=
  ((jsGetCapacityEntry d s).2.1 = 0 ↔ ∃ v, (d.getCapacity s).2 = .fulfilled v) ∧
    ∀ alloc setup mmioId, (¬∃ v, (d.getCapacity s).2 = .fulfilled v) →
      lklDiskAdd alloc (jsGetCapacityEntry d s).2.1 setup mmioId = -lklEnomem

/-- A rejection of the promise is told from a success by an integer of `w` bits:
    its reason converts to an integer which is not zero modulo `2 ^ w`. -/
def Outcome.Told (w : ℕ) (o : Outcome) : Prop :=
  ∀ reason, o = .rejected reason → (callbackReason reason).integerValue % 2 ^ w ≠ 0

/-- A reason given to a callback is never `null`. -/
theorem callbackReason_ne_null (reason : JsValue) : callbackReason reason ≠ .null := by
  rw [callbackReason]
  split
  · rename_i ht
    rintro rfl
    simp [JsValue.truthy] at ht
  · simp

theorem requestDone_rejected (reason : JsValue) :
    requestDone (asCallback (.rejected reason)) =
      toInt (callbackReason reason).integerValue := by
  simp [requestDone, asCallback, arg, callbackReason_ne_null]

theorem toInt_eq_zero_iff (n : ℤ) : toInt n = 0 ↔ n % 2 ^ 32 = 0 := by
  rw [toInt, Int.bmod]
  norm_num
  split <;> omega

theorem statusByte_toInt_eq_zero_iff (n : ℤ) : statusByte (toInt n) = 0 ↔ n % 2 ^ 8 = 0 := by
  rw [statusByte, ← BitVec.toNat_inj, BitVec.toNat_ofInt, toInt, Int.bmod,
    show (0 : BitVec 8).toNat = 0 from rfl]
  norm_num
  split <;> omega

/-- Failures are told from successes exactly when the reason is. -/
theorem zero_iff_fulfilled_iff {o : Outcome} {w : ℕ} {P : Prop} (hf : ∀ v, o = .fulfilled v → P)
    (hr : ∀ reason, o = .rejected reason →
      (P ↔ (callbackReason reason).integerValue % 2 ^ w = 0)) :
    (P ↔ ∃ v, o = .fulfilled v) ↔ o.Told w := by
  cases o with
  | fulfilled v =>
    have := hf v rfl
    simp [this, Outcome.Told]
  | rejected reason => simp [hr reason rfl, Outcome.Told]

theorem requestReported_iff (buf : List Bytes) :
    RequestReported kMaxLength d s buf ↔
      ∀ r o, lklBlkReq buf = some r → outcome kMaxLength d s r = some o → o.Told 8 := by
  refine forall₄_congr fun r o hr ho => ?_
  have hret : (jsRequestEntry kMaxLength d s r).ret = some (requestDone (asCallback o)) := by
    simp [jsRequestEntry, request_info, ho]
  have hst : blkEnqueue (jsRequestEntry kMaxLength d s) buf =
      .stored (statusByte (requestDone (asCallback o))) := by
    simp [blkEnqueue, lt_length_of_lklBlkReq hr, hr, hret]
  simp only [hst, Status.stored.injEq, exists_eq_left']
  refine zero_iff_fulfilled_iff (fun v hv => ?_) fun reason hreason => ?_
  · rw [hv, requestDone_fulfilled]
    rfl
  · rw [hreason, requestDone_rejected, statusByte_toInt_eq_zero_iff]

theorem capacityReported_iff : CapacityReported d s ↔ (d.getCapacity s).2.Told 32 := by
  have hz : ((jsGetCapacityEntry d s).2.1 = 0 ↔ ∃ v, (d.getCapacity s).2 = .fulfilled v) ↔
      (d.getCapacity s).2.Told 32 := by
    refine zero_iff_fulfilled_iff (fun v hv => ?_) fun reason hreason => ?_
    · simp only [jsGetCapacityEntry, DiskWrapper.getCapacity, hv, asCallback, getCapacityDone]
      split <;> simp [arg]
    · rw [← toInt_eq_zero_iff]
      simp [jsGetCapacityEntry, DiskWrapper.getCapacity, hreason, asCallback, getCapacityDone, arg,
        callbackReason_ne_null]
  rw [CapacityReported, hz, and_iff_left_iff_imp]
  intro ht alloc setup mmioId hf
  have hne : (jsGetCapacityEntry d s).2.1 ≠ 0 := fun h => hf ((hz.2 ht).1 h)
  simp [lklDiskAdd, hne]

/-- A failure of a disk is reported to the kernel exactly when its reason
    converts to an integer that is not zero, modulo `2 ^ 8` for a request and
    `2 ^ 32` for the capacity. -/
theorem reported_iff_told (buf : List Bytes) :
    (RequestReported kMaxLength d s buf ↔
      ∀ r o, lklBlkReq buf = some r → outcome kMaxLength d s r = some o → o.Told 8) ∧
    (CapacityReported d s ↔ (d.getCapacity s).2.Told 32) :=
  ⟨requestReported_iff kMaxLength d s buf, capacityReported_iff d s⟩

/-- A disk of which everything fails, for the same reason. -/
def brokenDisk (reason : JsValue) : JsDisk Unit where
  read _ buf _ _ _ := ⟨(), buf, .rejected reason⟩
  write _ _ _ _ _ := ((), .rejected reason)
  flush _ := ((), .rejected reason)
  getCapacity _ := ((), .rejected reason)

/-- Failures with an `Error` are not reported. -/
theorem not_told_error (w : ℕ) (message : List Char) :
    ¬Outcome.Told w (.rejected (.error "Error".toList message)) := by
  intro h
  refine h _ rfl ?_
  simp only [callbackReason, JsValue.truthy, ↓reduceIte, JsValue.integerValue_error]
  exact Int.zero_emod _

/-- A read of one byte, of the first sector. -/
def readByte : List Bytes := [List.replicate 16 0, [0], [255]]

/-- An error in reading a sector is reported as a success. -/
theorem not_requestReported_readByte :
    ¬RequestReported 0x7fffffff
      (brokenDisk (.error "Error".toList "EIO: i/o error, read".toList)) () readByte := by
  intro h
  exact not_told_error 8 _
    ((requestReported_iff _ _ _ _).1 h ⟨0, 0, [[0]], by decide⟩ _ rfl rfl)

end NodeLkl
