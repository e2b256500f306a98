import NodeLkl.Base.Js

/-!
# Disks in JavaScript

A disk is a JavaScript object whose methods return promises (`JsDisk`, what
each method does to the state of the disk and to the buffer it is given, and
how its promise settles). `DiskWrapper` turns a block request into a call of
one of them, and has the promise answer a native callback (`asCallback`), from
whose arguments the status of the request is computed (`requestDone`,
`getCapacityDone`).

The request is made by an LKL thread, which waits for the callback
(`jsRequestEntry`, `jsGetCapacityEntry`). That the callback it waits for is the
first call of its own callback, and of no other, is shown in
`NodeLkl.Loop.Requests`; here an entry function is its result, `none` when the
callback is never called and the thread waits forever.
-/

namespace NodeLkl

/-! ## Promises and callbacks -/

/-- How a promise settles. -/
inductive Outcome
  | fulfilled (v : JsValue)
  | rejected (reason : JsValue)
  deriving DecidableEq

/-- The string a value that is not `truthy` converts to. -/
def falsyToString : JsValue → List Char
  | .prim .undefined => "undefined".toList
  | .prim .null => "null".toList
  | .prim (.bool _) => "false".toList
  | .prim (.number .nan) => "NaN".toList
  | .prim (.number _) => "0".toList
  | _ => []

/-- The reason a callback is given for a rejection: never a falsy value, which
    is wrapped in an `Error`. -/
def callbackReason (reason : JsValue) : JsValue :=
  if reason.truthy then reason else .error "Error".toList (falsyToString reason)

/-- The arguments a settled promise calls a node-style callback with. -/
def asCallback : Outcome → List JsValue
  | .fulfilled v => if v = .undefined then [.null] else [.null, v]
  | .rejected reason => [callbackReason reason]

/-- The argument `i` of a call, `undefined` past the last one. -/
def arg (info : List JsValue) (i : ℕ) : JsValue := info[i]?.getD .undefined

/-- The conversion of a wider integer to an `int`. -/
def toInt (n : ℤ) : ℤ := Int.bmod n (2 ^ 32)

/-- The status a request completes with, from the arguments of its callback. -/
def requestDone (info : List JsValue) : ℤ :=
  -- the status of an error is what it converts to: an `Error` is `NaN`, that is `0`
  if arg info 0 = .null then 0 else toInt (arg info 0).integerValue

/-- The status and the capacity (an `unsigned long long`) read, from the
    arguments of the callback. -/
def getCapacityDone (info : List JsValue) : ℤ × ℕ :=
  if arg info 0 = .null then (0, ((arg info 1).integerValue % 2 ^ 64).toNat)
  else (toInt (arg info 0).integerValue, 0)

/-! ## Disks -/

variable {σ : Type*}

/-- What a method that fills a buffer leaves: the disk, the buffer, and how its
    promise settles. -/
structure Filled (σ : Type*) where
  disk : σ
  buf : Bytes
  outcome : Outcome

/-- A disk with states `σ`: its methods. -/
structure JsDisk (σ : Type*) where
  read : σ → (buf : Bytes) → (bufOffset length offset : ℕ) → Filled σ
  write : σ → (buf : Bytes) → (bufOffset length offset : ℕ) → σ × Outcome
  flush : σ → σ × Outcome
  getCapacity : σ → σ × Outcome

namespace LklDevBlkType

/-! The types of the block requests. -/

abbrev read : ℕ := 0
abbrev write : ℕ := 1
abbrev flush : ℕ := 4
abbrev flushOut : ℕ := 5

end LklDevBlkType

/-- What a request leaves: the disk, the buffers, and the arguments its callback
    is called with, if it is. -/
structure Reply (σ : Type*) where
  disk : σ
  iovecs : List Bytes
  info : Option (List JsValue)

namespace DiskWrapper

/-- A block request to the disk `d`. Only the first buffer is used; without one,
    taking its length throws. The callback is not called for other types. -/
def request (d : JsDisk σ) (s : σ) (type offset : ℕ) (iovecs : List Bytes) : Reply σ :=
  if type = LklDevBlkType.read then
    match iovecs with
    | [] => ⟨s, [], none⟩
    | buf :: rest =>
      -- the other buffers are left as they are
      let r := d.read s buf 0 buf.length offset
      ⟨r.disk, r.buf :: rest, some (asCallback r.outcome)⟩
  else if type = LklDevBlkType.write then
    match iovecs with
    | [] => ⟨s, [], none⟩
    | buf :: rest =>
      let r := d.write s buf 0 buf.length offset
      ⟨r.1, buf :: rest, some (asCallback r.2)⟩
  else if type = LklDevBlkType.flush ∨ type = LklDevBlkType.flushOut then
    let r := d.flush s
    ⟨r.1, iovecs, some (asCallback r.2)⟩
  else
    -- the `switch` has no other case: the callback is never called
    ⟨s, iovecs, none⟩

/-- The capacity of the disk `d`. -/
def getCapacity (d : JsDisk σ) (s : σ) : σ × List JsValue :=
  let r := d.getCapacity s
  (r.1, asCallback r.2)

end DiskWrapper

/-! ## Requests from LKL -/

/-- The size of a sector, in bytes. -/
abbrev sectorSize : ℕ := 512

/-- A block request of LKL. Its sectors are such that their offsets in bytes are
    exact as doubles. -/
structure LklBlkReq where
  type : BitVec 32
  sector : ℕ
  buf : List Bytes
  sector_lt : sector < 2 ^ 44

/-- The offset of a request, in bytes. -/
def LklBlkReq.offset (r : LklBlkReq) : ℕ := r.sector * sectorSize

/-- The request, run on the main loop: every buffer is wrapped, in a `Buffer` of
    at most `kMaxLength` bytes (wrapping a longer one aborts), and the wrapper
    called. -/
def request (kMaxLength : ℕ) (d : JsDisk σ) (s : σ) (r : LklBlkReq) : Reply σ :=
  if ∀ b ∈ r.buf, b.length ≤ kMaxLength then
    DiskWrapper.request d s r.type.toNat r.offset r.buf
  else ⟨s, r.buf, none⟩

/-- What a request leaves, and the value it returns, if it does. -/
structure Completion (σ : Type*) where
  disk : σ
  iovecs : List Bytes
  ret : Option ℤ

/-- The request made by an LKL thread: it returns what the callback computes. -/
def jsRequestEntry (kMaxLength : ℕ) (d : JsDisk σ) (s : σ) (r : LklBlkReq) : Completion σ :=
  let reply := request kMaxLength d s r
  ⟨reply.disk, reply.iovecs, reply.info.map requestDone⟩

/-- The capacity asked by an LKL thread: the value returned, and the capacity. -/
def jsGetCapacityEntry (d : JsDisk σ) (s : σ) : σ × ℤ × ℕ :=
  let r := DiskWrapper.getCapacity d s
  (r.1, getCapacityDone r.2)

end NodeLkl
