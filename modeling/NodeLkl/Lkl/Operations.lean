import NodeLkl.Disk.Wrapper
import NodeLkl.Loop.Worker

/-!
# Operations

The operations of the library: adding and removing disks, mounting and
unmounting them, and system calls. Each calls a native function through the
worker thread (`NodeLkl.Loop.Worker`). Mounting and unmounting keep a table of
what is mounted, `mounts`, an object: besides its own properties, it has those
that every object inherits (`lookup`).
-/

namespace NodeLkl

namespace Lkl

/-! ## The mount table -/

/-- The name of a property. -/
abbrev Key := List Char

/-- What `mount` stores about a mount. -/
structure MountInfo where
  diskId : JsValue
  partition : JsValue
  deriving DecidableEq

/-- The own properties of `mounts`. -/
abbrev Mounts := Key → Option MountInfo

/-- The table of what is mounted, when nothing is. -/
def noMounts : Mounts := fun _ => none

/-- The properties that an object inherits from `Object.prototype`. -/
def inherited : List Key :=
  ["constructor", "__defineGetter__", "__defineSetter__", "hasOwnProperty", "__lookupGetter__",
    "__lookupSetter__", "isPrototypeOf", "propertyIsEnumerable", "toString", "valueOf", "__proto__",
    "toLocaleString"].map String.toList

/-- The value of a property of `mounts`: what was stored, a function or an object
    of `Object.prototype`, or `undefined`. -/
inductive Lookup
  | own (info : MountInfo)
  | inherited
  | undefined

/-- `mounts[mountpoint]`. -/
def lookup (mounts : Mounts) (mountpoint : Key) : Lookup :=
  match mounts mountpoint with
  | some info => .own info
  | none => if mountpoint ∈ inherited then .inherited else .undefined

/-! ## Native functions -/

/-- The functions run by the worker. -/
inductive Fn
  | doDiskAdd
  | doDiskRemove
  | doMount
  | doUmount
  | doSyscall
  deriving DecidableEq

/-- Their arguments, for disks `D` and system calls `S`. -/
inductive Args (D S : Type*)
  | diskAdd (disk : D)
  | diskRemove (diskId : BitVec 32)
  | mount (diskId : BitVec 32) (readonly : Bool) (fsType : Bytes) (part : BitVec 32)
  | umount (diskId partition : BitVec 32)
  | syscall (call : S)

/-- The results: the value returned, and the number of the device mounted. -/
structure Res where
  ret : ℤ
  dev : BitVec 32

/-- Where LKL mounts a device. -/
def mountpoint (dev : BitVec 32) : Key :=
  "/mnt/".toList ++ (Nat.toDigits 16 dev.toNat).leftpad 8 '0'

/-- The name of a file system, as copied by `mount`: at most seven bytes. -/
def fsType (filesystem : List Char) : Bytes :=
  ((filesystem.flatMap String.utf8EncodeChar).takeWhile (· ≠ 0)).take 7

/-! ## The operations -/

/-- The options of a mount. -/
structure MountOpts where
  readOnly : JsValue
  filesystem : List Char
  partition : JsValue

/-- The partition to mount, `0` if none is given. -/
def MountOpts.part (opts : MountOpts) : JsValue :=
  if opts.partition.truthy then opts.partition else .prim (.number (.fin 0))

/-- The operations. The options of a mount may be missing (`undefined` or
    `null`). -/
inductive Op (D S : Type*)
  | diskAdd (disk : D)
  | diskRemove (diskId : JsValue)
  | mount (diskId : JsValue) (opts : Option MountOpts)
  | umount (mountpoint : Key)
  | syscall (call : S)

variable {D S : Type*}

/-- What an operation has the worker run, if it does not throw: reading a
    property of `undefined` or `null` does. -/
def start (mounts : Mounts) : Op D S → Option (Fn × Args D S)
  | .diskAdd disk => some (.doDiskAdd, .diskAdd disk)
  | .diskRemove diskId => some (.doDiskRemove, .diskRemove diskId.uint32Value)
  | .mount _ none => none
  | .mount diskId (some opts) => some (.doMount,
      .mount diskId.uint32Value opts.readOnly.truthy (fsType opts.filesystem) opts.part.uint32Value)
  | .umount m => match lookup mounts m with
    | .own info => some (.doUmount, .umount info.diskId.uint32Value info.partition.uint32Value)
    -- an inherited property is an object, of which neither property is defined
    | .inherited => some (.doUmount,
        .umount JsValue.undefined.uint32Value JsValue.undefined.uint32Value)
    -- reading a property of `undefined` throws
    | .undefined => none
  | .syscall call => some (.doSyscall, .syscall call)

/-- What an operation does to the mount table, given its result. -/
def done (mounts : Mounts) (op : Op D S) (r : Res) : Mounts :=
  match op with
  | .mount diskId (some opts) =>
    if r.ret < 0 then mounts
    else Function.update mounts (mountpoint r.dev) (some ⟨diskId, opts.part⟩)
  | .umount m => if r.ret < 0 then mounts else Function.update mounts m none
  | _ => mounts

/-- The operations of the library. -/
def client (D S : Type*) : Client (Op D S) Mounts Fn (Args D S) Res where
  start := start
  done := done

/-- The threads running them. -/
abbrev State (D S : Type*) := Worker.State (Op D S) Mounts Fn (Args D S) Res

abbrev Event (D S : Type*) := Worker.Event (Op D S) Res

abbrev Job (D S : Type*) := Worker.Job (Op D S) Fn (Args D S)

abbrev system (D S : Type*) : System (State D S) (Event D S) := Worker.system (client D S)

/-- Initially, nothing is mounted. -/
abbrev init (D S : Type*) : State D S := Worker.init noMounts

end Lkl

end NodeLkl
