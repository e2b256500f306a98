import NodeLkl.Base.Bits
import NodeLkl.Virtio.Blk

/-!
# Setting up a device

The driver finds a device by its registers, which the device implements by two
functions for reading and writing them (`virtioRead`, `virtioWrite`). Before the queue
is used, the two sides agree on their features, and the driver tells the device where
the queue is (`virtioMmioProbe`):

* the driver resets the device, and acknowledges it (`registerVirtioDevice`);
* it reads the features of the device, in two halves, and writes back those it knows
  (`vmGetFeatures`, `vmFinalizeFeatures`); the device may refuse them (`setStatus`);
* it allocates the memory of the queue, and writes its size and its addresses, in two
  halves each (`vmSetupVq`).

A block device accepts a driver that knows all of its features
(`probe_eq_zero_iff`). The disks of LKL are set up, whatever the memory of the device
held before, as the queues are that the other modules start with
(`probe_sets_up`).
-/

namespace NodeLkl

namespace Virtio

open Bits

/-! ## The registers -/

/-- The registers of a device. -/
inductive Register
  | magicValue
  | version
  | deviceId
  | vendorId
  | deviceFeatures
  | deviceFeaturesSel
  | driverFeatures
  | driverFeaturesSel
  | queueSel
  | queueNumMax
  | queueNum
  | queueReady
  | queueNotify
  | interruptStatus
  | interruptAck
  | status
  | queueDescLow
  | queueDescHigh
  | queueAvailLow
  | queueAvailHigh
  | queueUsedLow
  | queueUsedHigh
  | configGeneration
  deriving DecidableEq

def Register.offset : Register → ℕ
  | magicValue => 0x000
  | version => 0x004
  | deviceId => 0x008
  | vendorId => 0x00c
  | deviceFeatures => 0x010
  | deviceFeaturesSel => 0x014
  | driverFeatures => 0x020
  | driverFeaturesSel => 0x024
  | queueSel => 0x030
  | queueNumMax => 0x034
  | queueNum => 0x038
  | queueReady => 0x044
  | queueNotify => 0x050
  | interruptStatus => 0x060
  | interruptAck => 0x064
  | status => 0x070
  | queueDescLow => 0x080
  | queueDescHigh => 0x084
  | queueAvailLow => 0x090
  | queueAvailHigh => 0x094
  | queueUsedLow => 0x0a0
  | queueUsedHigh => 0x0a4
  | configGeneration => 0x0fc

/-- The offset of the configuration, which is after the registers. -/
abbrev virtioMmioConfig : ℕ := 0x100

/-- The register at an offset. -/
def Register.ofOffset : ℕ → Option Register
  | 0x000 => some magicValue
  | 0x004 => some version
  | 0x008 => some deviceId
  | 0x00c => some vendorId
  | 0x010 => some deviceFeatures
  | 0x014 => some deviceFeaturesSel
  | 0x020 => some driverFeatures
  | 0x024 => some driverFeaturesSel
  | 0x030 => some queueSel
  | 0x034 => some queueNumMax
  | 0x038 => some queueNum
  | 0x044 => some queueReady
  | 0x050 => some queueNotify
  | 0x060 => some interruptStatus
  | 0x064 => some interruptAck
  | 0x070 => some status
  | 0x080 => some queueDescLow
  | 0x084 => some queueDescHigh
  | 0x090 => some queueAvailLow
  | 0x094 => some queueAvailHigh
  | 0x0a0 => some queueUsedLow
  | 0x0a4 => some queueUsedHigh
  | 0x0fc => some configGeneration
  | _ => none

theorem Register.ofOffset_offset (r : Register) : ofOffset r.offset = some r := by
  cases r <;> rfl

theorem Register.offset_lt (r : Register) : r.offset < virtioMmioConfig := by
  cases r <;> decide

namespace VirtioF

abbrev eventIdx : ℕ := 29

abbrev version1 : ℕ := 32

end VirtioF

namespace VirtioConfigS

abbrev acknowledge : BitVec 8 := 1

abbrev driver : BitVec 8 := 2

abbrev driverOk : BitVec 8 := 4

abbrev featuresOk : BitVec 8 := 8

abbrev failed : BitVec 8 := 0x80

end VirtioConfigS

/-- A device, as far as its registers go. `checkFeatures` is the test of its kind, of the
    features of the driver and its own. -/
structure VirtioDev where
  deviceId : BitVec 32
  vendorId : BitVec 32
  deviceFeatures : BitVec 64
  deviceFeaturesSel : BitVec 32
  driverFeatures : BitVec 64
  driverFeaturesSel : BitVec 32
  queueSel : BitVec 32
  queue : ℕ → VirtioQueue
  intStatus : BitVec 32
  status : BitVec 32
  configGen : BitVec 32
  configData : Bytes
  checkFeatures : BitVec 64 → BitVec 64 → ℤ

def lklEinval : ℤ := 22

def setPtrLow (ptr : BitVec 64) (val : BitVec 32) : BitVec 64 :=
  (ptr &&& 0xFFFFFFFF00000000#64) ||| val.setWidth 64

def setPtrHigh (ptr : BitVec 64) (val : BitVec 32) : BitVec 64 :=
  (ptr &&& 0x00000000FFFFFFFF#64) ||| (val.setWidth 64 <<< 32)

namespace VirtioDev

variable (dev : VirtioDev)

def virtioReadDeviceFeatures : BitVec 32 :=
  if dev.deviceFeaturesSel ≠ 0 then (dev.deviceFeatures >>> 32).setWidth 32
  else dev.deviceFeatures.setWidth 32

def virtioWriteDriverFeatures (val : BitVec 32) : VirtioDev :=
  if dev.driverFeaturesSel ≠ 0 then
    let tmp := dev.driverFeatures &&& 0xFFFFFFFF#64
    { dev with driverFeatures := tmp ||| (val.setWidth 64 <<< 32) }
  else
    let tmp := dev.driverFeatures &&& 0xFFFFFFFF00000000#64
    { dev with driverFeatures := tmp ||| val.setWidth 64 }

def setStatus (val : BitVec 32) : VirtioDev :=
  let featuresOk := VirtioConfigS.featuresOk.setWidth 32
  if val &&& featuresOk ≠ 0 ∧ (dev.driverFeatures.getLsbD VirtioF.version1 = false ∨
      dev.driverFeatures.getLsbD VirtioF.eventIdx = false ∨
      dev.checkFeatures dev.driverFeatures dev.deviceFeatures ≠ 0) then
    { dev with status := val &&& ~~~featuresOk }
  else { dev with status := val }

/-- The queue that is selected. -/
def selected : VirtioQueue := dev.queue dev.queueSel.toNat

def modifySelected (f : VirtioQueue → VirtioQueue) : VirtioDev :=
  { dev with queue := Function.update dev.queue dev.queueSel.toNat (f dev.selected) }

/-- The value of a register, if it can be read. -/
def readRegister : Register → Option (BitVec 32)
  | .magicValue => some 0x74726976
  | .version => some 2
  | .deviceId => some dev.deviceId
  | .vendorId => some dev.vendorId
  | .deviceFeatures => some dev.virtioReadDeviceFeatures
  | .queueNumMax => some dev.selected.numMax
  | .queueReady => some dev.selected.ready
  | .interruptStatus => some dev.intStatus
  | .status => some dev.status
  | .configGeneration => some dev.configGen
  | _ => none

def virtioRead (offset size : ℕ) : Except ℤ Bytes :=
  if virtioMmioConfig ≤ offset then
    let offset := offset - virtioMmioConfig
    if dev.configData.length < offset + size then .error (-lklEinval)
    else .ok ((dev.configData.drop offset).take size)
  else if size ≠ 4 then .error (-lklEinval)
  else match (Register.ofOffset offset).bind dev.readRegister with
    | some val => .ok (Fs.littleEndian 4 val.toNat)
    | none => .error (-1)

/-- A value is written to a register: the device, and the queue it goes through then, if it is
    notified of one. -/
def writeRegister (val : BitVec 32) : Register → Except ℤ (VirtioDev × Option (BitVec 32))
  | .deviceFeaturesSel =>
    if 1 < val then .error (-lklEinval) else .ok ({ dev with deviceFeaturesSel := val }, none)
  | .driverFeaturesSel =>
    if 1 < val then .error (-lklEinval) else .ok ({ dev with driverFeaturesSel := val }, none)
  | .driverFeatures => .ok (dev.virtioWriteDriverFeatures val, none)
  | .queueSel => .ok ({ dev with queueSel := val }, none)
  | .queueNum => .ok (dev.modifySelected fun q => { q with num := val }, none)
  | .queueReady => .ok (dev.modifySelected fun q => { q with ready := val }, none)
  | .queueNotify => .ok (dev, some val)
  | .interruptAck => .ok ({ dev with intStatus := 0 }, none)
  | .status => .ok (dev.setStatus val, none)
  | .queueDescLow => .ok (dev.modifySelected fun q => { q with desc := setPtrLow q.desc val }, none)
  | .queueDescHigh =>
    .ok (dev.modifySelected fun q => { q with desc := setPtrHigh q.desc val }, none)
  | .queueAvailLow =>
    .ok (dev.modifySelected fun q => { q with avail := setPtrLow q.avail val }, none)
  | .queueAvailHigh =>
    .ok (dev.modifySelected fun q => { q with avail := setPtrHigh q.avail val }, none)
  | .queueUsedLow => .ok (dev.modifySelected fun q => { q with used := setPtrLow q.used val }, none)
  | .queueUsedHigh =>
    .ok (dev.modifySelected fun q => { q with used := setPtrHigh q.used val }, none)
  | _ => .error (-1)

def virtioWrite (offset : ℕ) (res : Bytes) : Except ℤ (VirtioDev × Option (BitVec 32)) :=
  if virtioMmioConfig ≤ offset then
    let offset := offset - virtioMmioConfig
    -- The last byte of the configuration cannot be written.
    if dev.configData.length ≤ offset + res.length then .error (-lklEinval)
    else
      let data := dev.configData.take offset ++ res ++ dev.configData.drop (offset + res.length)
      .ok ({ dev with configData := data }, none)
  else if res.length ≠ 4 then .error (-lklEinval)
  else match Register.ofOffset offset with
    | some r => dev.writeRegister (BitVec.ofNat 32 (leNat res)) r
    | none => .error (-1)

/-! ## The driver -/

/-- What the driver reads from a register. It would be a value that is not initialised, if the
    device refused to read the register. -/
def readl (r : Register) : BitVec 32 :=
  match dev.virtioRead r.offset 4 with
  | .ok bytes => BitVec.ofNat 32 (leNat bytes)
  | .error _ => 0

/-- The device, once the driver has written to a register. -/
def writel (val : BitVec 32) (r : Register) : VirtioDev :=
  match dev.virtioWrite r.offset (Fs.littleEndian 4 val.toNat) with
  | .ok (dev, _) => dev
  | .error _ => dev

def vmGetFeatures : BitVec 64 × VirtioDev :=
  let dev := dev.writel 1 .deviceFeaturesSel
  let high := dev.readl .deviceFeatures
  let dev := dev.writel 0 .deviceFeaturesSel
  ((high.setWidth 64 <<< 32) ||| (dev.readl .deviceFeatures).setWidth 64, dev)

def vmGetStatus : BitVec 8 := (dev.readl .status &&& 0xff).setWidth 8

def vmSetStatus (status : BitVec 8) : VirtioDev := dev.writel (status.setWidth 32) .status

def vmReset : VirtioDev := dev.writel 0 .status

def addStatus (status : BitVec 8) : VirtioDev := dev.vmSetStatus (dev.vmGetStatus ||| status)

end VirtioDev

/-- The features of the transport. -/
def transportFeatures : List ℕ := List.range' 28 6

/-- Those of them the driver knows: indirect descriptors, event indices, the version, and
    platforms that map memory. -/
def knownTransportFeatures : List ℕ := [28, VirtioF.eventIdx, VirtioF.version1, 33]

def vringTransportFeatures (features : BitVec 64) : BitVec 64 :=
  transportFeatures.foldl
    (fun features i =>
      if i ∈ knownTransportFeatures then features else features &&& ~~~BitVec.twoPow 64 i)
    features

/-- A driver: the features it knows, and those it knows of devices without the version, and what
    it does with a device it has agreed with on features. The tables are such that
    `virtio_dev_probe` does not find a bug in them. -/
structure VirtioDriver where
  featureTable : List ℕ
  featureTableLegacy : Option (List ℕ)
  probe : VirtioDev → BitVec 64 → ℤ × VirtioDev
  featureTable_lt : ∀ f ∈ featureTable, f < 64
  featureTableLegacy_lt : ∀ table ∈ featureTableLegacy, ∀ f ∈ table, f < 64

/-- The features of a table. -/
def featureBits (table : List ℕ) : BitVec 64 :=
  table.foldl (fun features f => features ||| BitVec.twoPow 64 f) 0

/-- The features of the device a driver wants to use. -/
def VirtioDriver.features (drv : VirtioDriver) (deviceFeatures : BitVec 64) : BitVec 64 :=
  let table := if deviceFeatures.getLsbD VirtioF.version1 then drv.featureTable
    else drv.featureTableLegacy.getD drv.featureTable
  -- Those of the transport are left to `vring_transport_features`.
  transportFeatures.foldl
    (fun features i =>
      if deviceFeatures.getLsbD i then features ||| BitVec.twoPow 64 i else features)
    (featureBits table &&& deviceFeatures)

/-- The memory of a queue. -/
structure VringAddrs where
  num : BitVec 32
  desc : BitVec 64
  avail : BitVec 64
  used : BitVec 64

namespace VirtioDev

variable (dev : VirtioDev)

/-- The features are written, if the version is one of them. -/
def vmFinalizeFeatures (features : BitVec 64) : ℤ × VirtioDev :=
  let features := vringTransportFeatures features
  if features.getLsbD VirtioF.version1 = false then (-22, dev)
  else
    let dev := dev.writel 1 .driverFeaturesSel
    let dev := dev.writel ((features >>> 32).setWidth 32) .driverFeatures
    let dev := dev.writel 0 .driverFeaturesSel
    let dev := dev.writel (features.setWidth 32) .driverFeatures
    (0, dev)

def virtioFinalizeFeatures (features : BitVec 64) : ℤ × VirtioDev :=
  let (ret, dev) := dev.vmFinalizeFeatures features
  if ret ≠ 0 then (ret, dev)
  else
    let dev := dev.addStatus VirtioConfigS.featuresOk
    if dev.vmGetStatus &&& VirtioConfigS.featuresOk = 0 then (-19, dev) else (0, dev)

/-- The queue `index` is set up, in the memory that is allocated for a number of
    descriptors. -/
def vmSetupVq (index : BitVec 32) (alloc : BitVec 32 → Option VringAddrs) : ℤ × VirtioDev :=
  let dev := dev.writel index .queueSel
  if dev.readl .queueReady ≠ 0 then (-2, dev)
  else
    let num := dev.readl .queueNumMax
    if num = 0 then (-2, dev.writel 0 .queueReady)
    else match alloc num with
      | none => (-12, dev.writel 0 .queueReady)
      | some vq =>
        let dev := dev.writel vq.num .queueNum
        let dev := dev.writel (vq.desc.setWidth 32) .queueDescLow
        let dev := dev.writel ((vq.desc >>> 32).setWidth 32) .queueDescHigh
        let dev := dev.writel (vq.avail.setWidth 32) .queueAvailLow
        let dev := dev.writel ((vq.avail >>> 32).setWidth 32) .queueAvailHigh
        let dev := dev.writel (vq.used.setWidth 32) .queueUsedLow
        let dev := dev.writel ((vq.used >>> 32).setWidth 32) .queueUsedHigh
        (0, dev.writel 1 .queueReady)

def virtioDeviceReady : VirtioDev := dev.addStatus VirtioConfigS.driverOk

def virtioDevProbe (drv : VirtioDriver) : ℤ × VirtioDev :=
  let dev := dev.addStatus VirtioConfigS.driver
  let (deviceFeatures, dev) := dev.vmGetFeatures
  let features := drv.features deviceFeatures
  let (err, dev) := dev.virtioFinalizeFeatures features
  if err ≠ 0 then (err, dev.addStatus VirtioConfigS.failed)
  else
    let (err, dev) := drv.probe dev (vringTransportFeatures features)
    if err ≠ 0 then (err, dev.addStatus VirtioConfigS.failed)
    else if dev.vmGetStatus &&& VirtioConfigS.driverOk = 0 then (0, dev.virtioDeviceReady)
    else (0, dev)

def registerVirtioDevice : VirtioDev := dev.vmReset.addStatus VirtioConfigS.acknowledge

/-- The device is found, and given to its driver. -/
def virtioMmioProbe (drv : VirtioDriver) : ℤ × VirtioDev :=
  if dev.readl .magicValue ≠ 0x74726976 then (-19, dev)
  else if dev.readl .version < 1 ∨ 2 < dev.readl .version then (-6, dev)
  else if dev.readl .deviceId = 0 then (-19, dev)
  else dev.registerVirtioDevice.virtioDevProbe drv

def vmDelVq (index : BitVec 32) : VirtioDev :=
  (dev.writel index .queueSel).writel 0 .queueReady

/-- The queues `is` are set up; those that have been are deleted if one cannot be. -/
def vmFindVqs (alloc : BitVec 32 → BitVec 32 → Option VringAddrs) (done : List (BitVec 32))
    (dev : VirtioDev) : List (BitVec 32) → ℤ × VirtioDev
  | [] => (0, dev)
  | i :: is =>
    let (err, dev) := dev.vmSetupVq i (alloc i)
    if err ≠ 0 then (err, done.foldl vmDelVq dev) else vmFindVqs alloc (i :: done) dev is

end VirtioDev

/-! ## Block devices -/

def blkCheckFeatures (driverFeatures deviceFeatures : BitVec 64) : ℤ :=
  if driverFeatures = deviceFeatures then 0 else -lklEinval

/-- What `virtio_dev_setup` does to the registers. -/
def VirtioDev.virtioDevSetup (dev : VirtioDev) (queues : ℕ) (numMax : BitVec 32) : VirtioDev :=
  { dev with
    deviceFeatures := dev.deviceFeatures |||
      (BitVec.twoPow 64 VirtioF.version1 ||| BitVec.twoPow 64 VirtioF.eventIdx)
    queue := fun i => if i < queues then ⟨numMax, 0, 0, 0, 0, 0, 0, 0, 0⟩ else dev.queue i }

/-- What `lkl_disk_add` does to the registers, in memory that is not initialised. -/
def VirtioDev.ofDisk (junk : VirtioDev) (config : Bytes) : VirtioDev :=
  let dev := { junk with
    deviceId := 2
    vendorId := 0
    deviceFeatures := 0
    configGen := 0
    configData := config
    checkFeatures := blkCheckFeatures }
  dev.virtioDevSetup 1 32

/-- The feature of devices with several queues. -/
abbrev virtioBlkFMq : ℕ := 12

/-- The queues of a block device: one, or as many as its configuration says. -/
def VirtioDev.numVqs (dev : VirtioDev) (features : BitVec 64) : ℕ :=
  if features.getLsbD virtioBlkFMq then
    match dev.virtioRead (virtioMmioConfig + 34) 2 with
    | .ok bytes => leNat bytes
    | .error _ => 0
  else 1

/-- The driver of block devices, up to the disk it makes of the device. The queues may not be
    allocated; the rest of what it needs (the memory for itself and the queues' names, the
    interrupt, and what the block layer makes of the device) is taken to be there. -/
def virtioBlk (alloc : BitVec 32 → BitVec 32 → Option VringAddrs) : VirtioDriver where
  featureTable := [2, 1, 4, 5, 6, 9, 10, 11, virtioBlkFMq]
  featureTableLegacy := some [2, 1, 4, 5, 6, 7, 9, 10, 11, virtioBlkFMq]
  probe dev features :=
    let indices := (List.range (dev.numVqs features)).map (BitVec.ofNat 32)
    let (err, dev) := VirtioDev.vmFindVqs alloc [] dev indices
    if err ≠ 0 then (err, dev) else (0, dev.virtioDeviceReady)
  featureTable_lt := by decide
  featureTableLegacy_lt := by decide

/-! ## Halves of words -/

theorem getLsbD_low {i : ℕ} (hi : i < 64) :
    (0x00000000FFFFFFFF#64).getLsbD i = decide (i < 32) := by
  revert i
  decide

theorem getLsbD_high {i : ℕ} (hi : i < 64) :
    (0xFFFFFFFF00000000#64).getLsbD i = decide (32 ≤ i) := by
  revert i
  decide

theorem getLsbD_setPtrLow (ptr : BitVec 64) (val : BitVec 32) {i : ℕ} (hi : i < 64) :
    (setPtrLow ptr val).getLsbD i = if i < 32 then val.getLsbD i else ptr.getLsbD i := by
  rw [setPtrLow, BitVec.getLsbD_or, BitVec.getLsbD_and, getLsbD_high hi, BitVec.getLsbD_setWidth]
  split_ifs with hlow
  · simp [hi, Nat.not_le.2 hlow]
  · simp [Nat.not_lt.1 hlow]

theorem getLsbD_setPtrHigh (ptr : BitVec 64) (val : BitVec 32) {i : ℕ} (hi : i < 64) :
    (setPtrHigh ptr val).getLsbD i = if i < 32 then ptr.getLsbD i else val.getLsbD (i - 32) := by
  rw [setPtrHigh, BitVec.getLsbD_or, BitVec.getLsbD_and, getLsbD_low hi,
    BitVec.getLsbD_shiftLeft, BitVec.getLsbD_setWidth]
  split_ifs with hlow
  · simp [hlow]
  · have hlt : i - 32 < 64 := by omega
    simp [hlow, hi, hlt]

theorem getLsbD_shift_setWidth (val : BitVec 64) {i : ℕ} (hle : 32 ≤ i) (hi : i < 64) :
    ((val >>> 32).setWidth 32).getLsbD (i - 32) = val.getLsbD i := by
  rw [BitVec.getLsbD_setWidth, BitVec.getLsbD_ushiftRight, Nat.add_sub_cancel' hle]
  simp [show i - 32 < 32 by omega]

theorem getLsbD_setWidth_low (val : BitVec 64) {i : ℕ} (hi : i < 32) :
    (val.setWidth 32).getLsbD i = val.getLsbD i := by
  simp [hi]

/-- A word written in two halves, the lower one first, whatever there was before. -/
theorem setPtrHigh_setPtrLow (ptr val : BitVec 64) :
    setPtrHigh (setPtrLow ptr (val.setWidth 32)) ((val >>> 32).setWidth 32) = val := by
  apply BitVec.eq_of_getLsbD_eq
  intro i hi
  rw [getLsbD_setPtrHigh _ _ hi, getLsbD_setPtrLow _ _ hi]
  split_ifs with hlow
  · exact getLsbD_setWidth_low val hlow
  · exact getLsbD_shift_setWidth val (Nat.not_lt.1 hlow) hi

/-- A word written in two halves, the higher one first. -/
theorem setPtrLow_setPtrHigh (ptr val : BitVec 64) :
    setPtrLow (setPtrHigh ptr ((val >>> 32).setWidth 32)) (val.setWidth 32) = val := by
  apply BitVec.eq_of_getLsbD_eq
  intro i hi
  rw [getLsbD_setPtrLow _ _ hi, getLsbD_setPtrHigh _ _ hi]
  split_ifs with hlow
  · exact getLsbD_setWidth_low val hlow
  · exact getLsbD_shift_setWidth val (Nat.not_lt.1 hlow) hi

/-- A word read in two halves. -/
theorem or_halves (val : BitVec 64) :
    (((val >>> 32).setWidth 32).setWidth 64 <<< 32) ||| (val.setWidth 32).setWidth 64 = val := by
  apply BitVec.eq_of_getLsbD_eq
  intro i hi
  rw [BitVec.getLsbD_or, BitVec.getLsbD_shiftLeft, BitVec.getLsbD_setWidth,
    BitVec.getLsbD_setWidth 64 (val.setWidth 32)]
  by_cases hlow : i < 32
  · simp [hlow, hi]
  · rw [getLsbD_shift_setWidth val (Nat.not_lt.1 hlow) hi]
    simp [hlow, hi, BitVec.getLsbD_of_ge _ i (Nat.not_lt.1 hlow), show i - 32 < 64 by omega]

/-! ## Accesses of registers -/

namespace VirtioDev

variable (dev : VirtioDev)

theorem ofNat_leNat (val : BitVec 32) :
    BitVec.ofNat 32 (leNat (Fs.littleEndian 4 val.toNat)) = val := by
  rw [leNat_littleEndian, show 256 ^ 4 = 2 ^ 32 from rfl, Nat.mod_eq_of_lt val.isLt,
    BitVec.ofNat_toNat, BitVec.setWidth_eq]

theorem readl_eq (r : Register) : dev.readl r = (dev.readRegister r).getD 0 := by
  unfold readl virtioRead
  rw [if_neg (Nat.not_le.2 r.offset_lt), if_neg (not_not.2 rfl), r.ofOffset_offset,
    Option.bind_some]
  cases dev.readRegister r with
  | none => rfl
  | some val => exact ofNat_leNat val

theorem writel_eq (val : BitVec 32) (r : Register) :
    dev.writel val r =
      match dev.writeRegister val r with
      | .ok (dev, _) => dev
      | .error _ => dev := by
  have hwrite : dev.virtioWrite r.offset (Fs.littleEndian 4 val.toNat) =
      dev.writeRegister val r := by
    unfold virtioWrite
    have hlength : (Fs.littleEndian 4 val.toNat).length = 4 := rfl
    rw [if_neg (Nat.not_le.2 r.offset_lt), if_neg (not_not.2 hlength), r.ofOffset_offset]
    change dev.writeRegister (BitVec.ofNat 32 (leNat (Fs.littleEndian 4 val.toNat))) r = _
    rw [ofNat_leNat]
  rw [writel, hwrite]

theorem vmGetFeatures_eq :
    dev.vmGetFeatures = (dev.deviceFeatures, { dev with deviceFeaturesSel := 0 }) := by
  simp [vmGetFeatures, writel_eq, writeRegister, readl_eq, readRegister, virtioReadDeviceFeatures,
    or_halves]

theorem vmFinalizeFeatures_eq (features : BitVec 64) :
    dev.vmFinalizeFeatures features =
      if (vringTransportFeatures features).getLsbD VirtioF.version1 = false then (-22, dev)
      else (0, { dev with
        driverFeaturesSel := 0
        driverFeatures := vringTransportFeatures features }) := by
  have hwrite := setPtrLow_setPtrHigh dev.driverFeatures (vringTransportFeatures features)
  simp only [setPtrLow, setPtrHigh] at hwrite
  simp [vmFinalizeFeatures, writel_eq, writeRegister, virtioWriteDriverFeatures, hwrite]

/-- The queue is where the driver said, and the rest of the device is as it was. -/
theorem vmSetupVq_eq (index : BitVec 32) {alloc : BitVec 32 → Option VringAddrs} {vq : VringAddrs}
    (hready : (dev.queue index.toNat).ready = 0#32)
    (hnum : (dev.queue index.toNat).numMax ≠ 0#32)
    (halloc : alloc (dev.queue index.toNat).numMax = some vq) :
    dev.vmSetupVq index alloc =
      (0, { dev with
        queueSel := index
        queue := Function.update dev.queue index.toNat
          { dev.queue index.toNat with
            num := vq.num
            ready := 1
            desc := vq.desc
            avail := vq.avail
            used := vq.used } }) := by
  simp [vmSetupVq, writel_eq, writeRegister, readl_eq, readRegister, selected, modifySelected,
    hready, hnum, halloc, setPtrHigh_setPtrLow]

theorem vmGetStatus_eq : dev.vmGetStatus = dev.status.setWidth 8 := by
  rw [vmGetStatus, readl_eq]
  change (dev.status &&& 0xff).setWidth 8 = _
  apply BitVec.eq_of_getLsbD_eq
  intro i hi
  have hbit : ∀ i < 8, (0xff : BitVec 32).getLsbD i = true := by decide
  simp only [BitVec.getLsbD_setWidth, BitVec.getLsbD_and, hbit i hi, Bool.and_true]

theorem vmSetStatus_eq (status : BitVec 8) :
    dev.vmSetStatus status = dev.setStatus (status.setWidth 32) := by
  rw [vmSetStatus, writel_eq]
  rfl

/-- The device has a reason to refuse features of the driver. -/
def Refuses (driverFeatures : BitVec 64) : Prop :=
  driverFeatures.getLsbD VirtioF.version1 = false ∨
    driverFeatures.getLsbD VirtioF.eventIdx = false ∨
    dev.checkFeatures driverFeatures dev.deviceFeatures ≠ 0

/-- The status is all that changes. -/
theorem exists_addStatus (status : BitVec 8) :
    ∃ val, dev.addStatus status = { dev with status := val } := by
  rw [addStatus, vmSetStatus_eq, setStatus]
  split_ifs <;> exact ⟨_, rfl⟩

theorem addStatus_eq {status : BitVec 8}
    (h : (dev.status.setWidth 8 ||| status) &&& VirtioConfigS.featuresOk = 0#8) :
    dev.addStatus status =
      { dev with status := (dev.status.setWidth 8 ||| status).setWidth 32 } := by
  have hzero : (dev.status.setWidth 8 ||| status).setWidth 32 &&&
      VirtioConfigS.featuresOk.setWidth 32 = 0#32 := by
    rw [← BitVec.setWidth_and, h]
    rfl
  rw [addStatus, vmSetStatus_eq, vmGetStatus_eq, setStatus]
  exact if_neg fun hne => hne.1 hzero

theorem addStatus_status {old new : BitVec 32} {status : BitVec 8}
    (h : (old.setWidth 8 ||| status) &&& VirtioConfigS.featuresOk = 0#8)
    (hnew : (old.setWidth 8 ||| status).setWidth 32 = new) :
    addStatus { dev with status := old } status = { dev with status := new } := by
  rw [addStatus_eq, ← hnew]
  exact h

theorem addStatus_of_not_refuses (h : ¬dev.Refuses dev.driverFeatures) (status : BitVec 8) :
    dev.addStatus status =
      { dev with status := (dev.status.setWidth 8 ||| status).setWidth 32 } := by
  rw [addStatus, vmSetStatus_eq, vmGetStatus_eq, setStatus, if_neg fun hr => h hr.2]

/-- The device leaves the bit that the features are fine, or clears it. -/
theorem vmGetStatus_addStatus_featuresOk :
    (dev.addStatus VirtioConfigS.featuresOk).vmGetStatus &&& VirtioConfigS.featuresOk = 0 ↔
      dev.Refuses dev.driverFeatures := by
  by_cases hrefuses : dev.Refuses dev.driverFeatures
  · refine iff_of_true ?_ hrefuses
    have hne : (dev.vmGetStatus ||| VirtioConfigS.featuresOk).setWidth 32 &&&
        VirtioConfigS.featuresOk.setWidth 32 ≠ 0 := by
      rw [← BitVec.setWidth_and, or_and_self]
      decide
    rw [addStatus, vmSetStatus_eq, setStatus, if_pos ⟨hne, hrefuses⟩, vmGetStatus_eq]
    change ((_ &&& ~~~VirtioConfigS.featuresOk.setWidth 32 : BitVec 32).setWidth 8) &&& _ = 0#8
    rw [BitVec.setWidth_and, BitVec.setWidth_not (by decide),
      BitVec.setWidth_setWidth_of_le VirtioConfigS.featuresOk (by decide), BitVec.setWidth_eq]
    exact and_not_and_self _ _
  · refine iff_of_false ?_ hrefuses
    rw [dev.addStatus_of_not_refuses hrefuses, vmGetStatus_eq]
    change ((dev.status.setWidth 8 ||| VirtioConfigS.featuresOk).setWidth 32).setWidth 8 &&& _ ≠ 0
    rw [BitVec.setWidth_setWidth_of_le _ (by decide), BitVec.setWidth_eq, or_and_self]
    decide

/-- The device agrees to the features of the driver if it has no reason to refuse them. -/
theorem virtioFinalizeFeatures_eq_zero_iff (features : BitVec 64) :
    (dev.virtioFinalizeFeatures features).1 = 0 ↔
      ¬dev.Refuses (vringTransportFeatures features) := by
  rw [virtioFinalizeFeatures, vmFinalizeFeatures_eq]
  split_ifs with hversion
  · exact iff_of_false (by simp) (not_not.2 (.inl hversion))
  · set written : VirtioDev := { dev with
      driverFeaturesSel := 0, driverFeatures := vringTransportFeatures features }
    have hiff := written.vmGetStatus_addStatus_featuresOk
    change _ ↔ ¬written.Refuses written.driverFeatures
    rw [← hiff]
    simp only [ne_eq, not_true_eq_false, if_false]
    split_ifs with hzero
    · exact iff_of_false (by simp) (not_not.2 hzero)
    · exact iff_of_true rfl hzero

end VirtioDev

/-! ## Features -/

theorem getLsbD_foldl_set (p : ℕ → Bool) (l : List ℕ) (features : BitVec 64) {j : ℕ}
    (hj : j < 64) :
    (l.foldl (fun features i => if p i then features ||| BitVec.twoPow 64 i else features)
      features).getLsbD j = (features.getLsbD j || (decide (j ∈ l) && p j)) := by
  induction l generalizing features with
  | nil => simp
  | cons i l ih =>
    rw [List.foldl_cons, ih]
    by_cases hji : j = i
    · subst hji
      cases hp : p j <;> simp [hj]
    · cases hp : p i <;> simp [hji, Ne.symm hji]

theorem getLsbD_foldl_clear (p : ℕ → Prop) [DecidablePred p] (l : List ℕ) (features : BitVec 64)
    {j : ℕ} (hj : j < 64) :
    (l.foldl (fun features i => if p i then features else features &&& ~~~BitVec.twoPow 64 i)
      features).getLsbD j = (features.getLsbD j && decide (j ∈ l → p j)) := by
  induction l generalizing features with
  | nil => simp
  | cons i l ih =>
    rw [List.foldl_cons, ih]
    by_cases hji : j = i
    · subst hji
      by_cases hp : p j <;> simp [hp, hj]
    · by_cases hp : p i <;> simp [hp, hji, hj]

theorem getLsbD_featureBits (table : List ℕ) {j : ℕ} (hj : j < 64) :
    (featureBits table).getLsbD j = decide (j ∈ table) := by
  have h := getLsbD_foldl_set (fun _ => true) table 0 hj
  simpa [featureBits] using h

/-- The driver knows a feature: one of the transport, or one of its table. -/
def VirtioDriver.Knows (drv : VirtioDriver) (i : ℕ) : Prop :=
  if i ∈ transportFeatures then i ∈ knownTransportFeatures else i ∈ drv.featureTable

instance (drv : VirtioDriver) (i : ℕ) : Decidable (drv.Knows i) :=
  inferInstanceAs (Decidable
    (if i ∈ transportFeatures then i ∈ knownTransportFeatures else i ∈ drv.featureTable))

/-- The features the driver writes are those it knows of the ones of the device. -/
theorem getLsbD_features (drv : VirtioDriver) {deviceFeatures : BitVec 64} {i : ℕ} (hi : i < 64)
    (h : deviceFeatures.getLsbD VirtioF.version1 = true ∨ i ∈ transportFeatures) :
    (vringTransportFeatures (drv.features deviceFeatures)).getLsbD i =
      (deviceFeatures.getLsbD i && decide (drv.Knows i)) := by
  rw [vringTransportFeatures, getLsbD_foldl_clear _ _ _ hi, VirtioDriver.features,
    getLsbD_foldl_set _ _ _ hi, BitVec.getLsbD_and, getLsbD_featureBits _ hi]
  by_cases htransport : i ∈ transportFeatures
  · cases deviceFeatures.getLsbD i <;> simp [htransport, VirtioDriver.Knows]
  · rw [if_pos (h.resolve_right htransport)]
    cases deviceFeatures.getLsbD i <;> simp [htransport, VirtioDriver.Knows]

namespace VirtioDev

variable (dev : VirtioDev)

/-- If what the driver does itself succeeds, it is up to the features. -/
theorem virtioDevProbe_eq_zero_iff {drv : VirtioDriver}
    (hprobe : ∀ dev features, (drv.probe dev features).1 = 0) :
    (dev.virtioDevProbe drv).1 = 0 ↔
      ¬dev.Refuses (vringTransportFeatures (drv.features dev.deviceFeatures)) := by
  obtain ⟨val, hstatus⟩ := dev.exists_addStatus VirtioConfigS.driver
  set started : VirtioDev := { dev with status := val, deviceFeaturesSel := 0 }
  have hfinal := started.virtioFinalizeFeatures_eq_zero_iff (drv.features dev.deviceFeatures)
  change _ ↔ ¬started.Refuses _
  rw [← hfinal]
  simp only [virtioDevProbe, hstatus, vmGetFeatures_eq]
  rcases started.virtioFinalizeFeatures (drv.features dev.deviceFeatures) with ⟨err, final⟩
  by_cases herr : err = 0
  · have hzero := hprobe final (vringTransportFeatures (drv.features dev.deviceFeatures))
    simp only [herr, hzero, ne_eq, not_true_eq_false, if_false, iff_true]
    split_ifs <;> rfl
  · simp [herr]

theorem blkCheckFeatures_eq_zero_iff {driverFeatures deviceFeatures : BitVec 64} :
    blkCheckFeatures driverFeatures deviceFeatures = 0 ↔ driverFeatures = deviceFeatures := by
  unfold blkCheckFeatures
  split_ifs with heq
  · exact iff_of_true rfl heq
  · exact iff_of_false (by decide) heq

/-- A block device wants all of its features. -/
theorem not_refuses_iff (hcheck : dev.checkFeatures = blkCheckFeatures) {features : BitVec 64} :
    ¬dev.Refuses features ↔
      features.getLsbD VirtioF.version1 = true ∧ features.getLsbD VirtioF.eventIdx = true ∧
        features = dev.deviceFeatures := by
  simp only [Refuses, hcheck, not_or, not_not, ne_eq, Bool.not_eq_false,
    blkCheckFeatures_eq_zero_iff]

/-- A block device and a driver come to an agreement, if the device has the version and event
    indices, and the driver knows all of its features. -/
theorem probe_eq_zero_iff (hcheck : dev.checkFeatures = blkCheckFeatures) {drv : VirtioDriver}
    (hprobe : ∀ dev features, (drv.probe dev features).1 = 0) :
    (dev.virtioDevProbe drv).1 = 0 ↔
      dev.deviceFeatures.getLsbD VirtioF.version1 = true ∧
        dev.deviceFeatures.getLsbD VirtioF.eventIdx = true ∧
        ∀ i, dev.deviceFeatures.getLsbD i = true → drv.Knows i := by
  rw [dev.virtioDevProbe_eq_zero_iff hprobe]
  set features := vringTransportFeatures (drv.features dev.deviceFeatures) with hfeatures
  rw [dev.not_refuses_iff hcheck]
  constructor
  · rintro ⟨hversion, hevent, heq⟩
    rw [heq] at hversion hevent
    refine ⟨hversion, hevent, fun i hi => ?_⟩
    have hlt : i < 64 := BitVec.lt_of_getLsbD hi
    have hbit := getLsbD_features drv hlt (.inl hversion)
    rw [← hfeatures, heq, hi, Bool.true_and] at hbit
    exact of_decide_eq_true hbit.symm
  · rintro ⟨hversion, hevent, hknows⟩
    have heq : features = dev.deviceFeatures := by
      apply BitVec.eq_of_getLsbD_eq
      intro i hi
      rw [hfeatures, getLsbD_features drv hi (.inl hversion)]
      cases hbit : dev.deviceFeatures.getLsbD i with
      | false => rfl
      | true => simp [hknows i hbit]
    rw [heq]
    exact ⟨hversion, hevent, rfl⟩

/-- A driver that does nothing with its devices. -/
def sampleDriver : VirtioDriver where
  featureTable := [5]
  featureTableLegacy := none
  probe dev _ := (0, dev)
  featureTable_lt := by decide
  featureTableLegacy_lt := by decide

/-- A read-only disk, which is agreed on. -/
def sampleDisk : VirtioDev :=
  ⟨2, 0, 0x120000020, 0, 0, 0, 0, fun _ => ⟨32, 0, 0, 0, 0, 0, 0, 0, 0⟩, 0, 1, 0, [],
    blkCheckFeatures⟩

theorem probe_eq_zero_iff_sample : (sampleDisk.virtioDevProbe sampleDriver).1 = 0 := by
  refine (probe_eq_zero_iff sampleDisk rfl fun _ _ => rfl).2 ⟨rfl, rfl, fun i hi => ?_⟩
  have hknows : ∀ i < 64, sampleDisk.deviceFeatures.getLsbD i = true → sampleDriver.Knows i := by
    decide
  exact hknows i (BitVec.lt_of_getLsbD hi) hi

/-! ## Disks -/

theorem registerVirtioDevice_eq : dev.registerVirtioDevice = { dev with status := 1 } := by
  have hreset : dev.vmReset = { dev with status := 0 } := by
    rw [vmReset, writel_eq]
    change dev.setStatus 0 = _
    rw [setStatus, if_neg fun h => h.1 rfl]
  rw [registerVirtioDevice, hreset]
  exact dev.addStatus_status (by decide) (by decide)

theorem virtioFinalizeFeatures_eq (features : BitVec 64)
    (h : ¬dev.Refuses (vringTransportFeatures features)) :
    dev.virtioFinalizeFeatures features =
      (0, { dev with
        driverFeaturesSel := 0
        driverFeatures := vringTransportFeatures features
        status := (dev.status.setWidth 8 ||| VirtioConfigS.featuresOk).setWidth 32 }) := by
  have hversion : ¬(vringTransportFeatures features).getLsbD VirtioF.version1 = false :=
    fun hfalse => h (.inl hfalse)
  rw [virtioFinalizeFeatures, vmFinalizeFeatures_eq, if_neg hversion]
  set written : VirtioDev := { dev with
    driverFeaturesSel := 0, driverFeatures := vringTransportFeatures features }
  have hok : ¬(written.addStatus VirtioConfigS.featuresOk).vmGetStatus &&&
      VirtioConfigS.featuresOk = 0 := fun hzero =>
    h (written.vmGetStatus_addStatus_featuresOk.1 hzero)
  simp only [ne_eq, not_true_eq_false, if_false, if_neg hok]
  rw [written.addStatus_of_not_refuses h]

theorem virtioBlk_probe_eq {alloc : BitVec 32 → BitVec 32 → Option VringAddrs} {vq : VringAddrs}
    {features : BitVec 64} (hmq : features.getLsbD virtioBlkFMq = false)
    (hready : (dev.queue 0).ready = 0#32) (hnum : (dev.queue 0).numMax ≠ 0#32)
    (halloc : alloc 0 (dev.queue 0).numMax = some vq) (h : ¬dev.Refuses dev.driverFeatures) :
    (virtioBlk alloc).probe dev features =
      (0, { dev with
        queueSel := 0
        queue := Function.update dev.queue 0 { dev.queue 0 with
          num := vq.num, ready := 1, desc := vq.desc, avail := vq.avail, used := vq.used }
        status := (dev.status.setWidth 8 ||| VirtioConfigS.driverOk).setWidth 32 }) := by
  have hvqs : (List.range (dev.numVqs features)).map (BitVec.ofNat 32) = [0] := by
    rw [numVqs, hmq]
    rfl
  have hsetup := dev.vmSetupVq_eq 0 hready hnum halloc
  simp only [virtioBlk, hvqs, vmFindVqs, hsetup, ne_eq, not_true_eq_false, if_false]
  rw [virtioDeviceReady, addStatus_of_not_refuses]
  · rfl
  · exact h

theorem getLsbD_deviceFeatures_ofDisk (junk : VirtioDev) (config : Bytes) (i : ℕ) :
    (ofDisk junk config).deviceFeatures.getLsbD i =
      (decide (VirtioF.version1 = i) || decide (VirtioF.eventIdx = i)) := by
  change BitVec.getLsbD (0#64 ||| (BitVec.twoPow 64 VirtioF.version1 |||
    BitVec.twoPow 64 VirtioF.eventIdx)) i = _
  simp [BitVec.getLsbD_twoPow, VirtioF.version1, VirtioF.eventIdx]

/-- The driver knows the features of the disks of LKL. -/
theorem features_ofDisk (junk : VirtioDev) (config : Bytes)
    (alloc : BitVec 32 → BitVec 32 → Option VringAddrs) :
    vringTransportFeatures ((virtioBlk alloc).features (ofDisk junk config).deviceFeatures) =
      (ofDisk junk config).deviceFeatures := by
  have hversion : (ofDisk junk config).deviceFeatures.getLsbD VirtioF.version1 = true := by
    rw [getLsbD_deviceFeatures_ofDisk]
    rfl
  have hknows : (virtioBlk alloc).Knows VirtioF.version1 ∧
      (virtioBlk alloc).Knows VirtioF.eventIdx := by
    constructor <;> rw [VirtioDriver.Knows, if_pos (by decide)] <;> decide
  apply BitVec.eq_of_getLsbD_eq
  intro i hi
  rw [getLsbD_features _ hi (.inl hversion), getLsbD_deviceFeatures_ofDisk]
  by_cases hone : VirtioF.version1 = i
  · subst hone
    simp [hknows.1]
  · by_cases htwo : VirtioF.eventIdx = i
    · subst htwo
      simp [hknows.2]
    · simp [hone, htwo]

theorem not_refuses_ofDisk (junk : VirtioDev) (config : Bytes) :
    ¬(ofDisk junk config).Refuses (ofDisk junk config).deviceFeatures := by
  rw [not_refuses_iff _ rfl, getLsbD_deviceFeatures_ofDisk, getLsbD_deviceFeatures_ofDisk]
  exact ⟨rfl, rfl, rfl⟩

theorem virtioMmioProbe_ofDisk (junk : VirtioDev) (config : Bytes) (drv : VirtioDriver) :
    (ofDisk junk config).virtioMmioProbe drv =
      virtioDevProbe { ofDisk junk config with status := 1 } drv := by
  have hid : (ofDisk junk config).deviceId ≠ 0 := show (2 : BitVec 32) ≠ 0 by decide
  rw [← registerVirtioDevice_eq]
  simp only [virtioMmioProbe, readl_eq, readRegister, Option.getD_some]
  rw [if_neg (by decide), if_neg (by decide), if_neg hid]

theorem addStatus_driver :
    addStatus { dev with status := 1 } VirtioConfigS.driver = { dev with status := 3 } :=
  dev.addStatus_status (by decide) (by decide)

/-- A probe of a disk of LKL by the driver of block devices that gets the memory of its queue, and
    what else it needs of the kernel, succeeds, whatever the memory of the device held before. The
    two sides have agreed on all the features of the device, and the queue is set up where the
    driver allocated it. -/
theorem probe_sets_up (junk : VirtioDev) (config : Bytes) (c : Ring.Size 16)
    (desc avail used : BitVec 64) (alloc : BitVec 32 → BitVec 32 → Option VringAddrs)
    (halloc : alloc 0 32 = some ⟨c.word, desc, avail, used⟩) :
    (ofDisk junk config).virtioMmioProbe (virtioBlk alloc) =
      (0, { ofDisk junk config with
        deviceFeaturesSel := 0
        driverFeatures := (ofDisk junk config).deviceFeatures
        driverFeaturesSel := 0
        queueSel := 0
        queue := Function.update (ofDisk junk config).queue 0 (.setUp c 32 desc avail used)
        status := 15 }) := by
  have hfeatures := features_ofDisk junk config alloc
  have hagree := not_refuses_ofDisk junk config
  rw [virtioMmioProbe_ofDisk]
  set dev := ofDisk junk config
  have hfinal := virtioFinalizeFeatures_eq { dev with status := 3, deviceFeaturesSel := 0 }
    ((virtioBlk alloc).features dev.deviceFeatures) (by rw [hfeatures]; exact hagree)
  have hmq : (vringTransportFeatures ((virtioBlk alloc).features dev.deviceFeatures)).getLsbD
      virtioBlkFMq = false := by
    rw [hfeatures, getLsbD_deviceFeatures_ofDisk]
    rfl
  have hprobe := virtioBlk_probe_eq { dev with
      status := 11, deviceFeaturesSel := 0, driverFeaturesSel := 0
      driverFeatures := dev.deviceFeatures } hmq rfl (show (32 : BitVec 32) ≠ 0#32 by decide)
    halloc hagree
  have hfeaturesOk : ((3 : BitVec 32).setWidth 8 ||| VirtioConfigS.featuresOk).setWidth 32 =
    (11 : BitVec 32) := by decide
  have hdriverOk : ((11 : BitVec 32).setWidth 8 ||| VirtioConfigS.driverOk).setWidth 32 =
    (15 : BitVec 32) := by decide
  rw [hfeatures, hfeaturesOk] at hfinal
  rw [hfeatures, hdriverOk] at hprobe
  have hready : ¬((15 : BitVec 32).setWidth 8 &&& VirtioConfigS.driverOk = 0) := by decide
  simp only [virtioDevProbe, addStatus_driver, vmGetFeatures_eq, hfinal, hfeatures, hprobe,
    vmGetStatus_eq, ne_eq, not_true_eq_false, if_false, if_neg hready]
  rfl

/-- What the memory of a device may hold before. -/
def sampleJunk : VirtioDev :=
  ⟨0, 0, 0, 1, 0xdeadbeef, 1, 7, fun _ => ⟨0, 0, 0, 0, 0, 0, 0, 0, 0⟩, 1, 0xff, 0, [],
    blkCheckFeatures⟩

/-- The memory of the queue is at these addresses. -/
def sampleAlloc (_ num : BitVec 32) : Option VringAddrs :=
  some ⟨num, 0x100000000, 0x100001000, 0x100002000⟩

theorem probe_sets_up_sample :
    ((ofDisk sampleJunk []).virtioMmioProbe (virtioBlk sampleAlloc)).2.queue 0 =
      .setUp ⟨5, by decide, by decide⟩ 32 0x100000000 0x100001000 0x100002000 := by
  rw [probe_sets_up sampleJunk [] ⟨5, by decide, by decide⟩ 0x100000000 0x100001000 0x100002000
    sampleAlloc rfl]
  rfl

end VirtioDev

end Virtio

end NodeLkl
