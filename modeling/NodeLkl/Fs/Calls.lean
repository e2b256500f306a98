import NodeLkl.Base.EventLoop
import NodeLkl.Fs.Structs

/-!
# The `fs` module

The functions of `fs`, which issue system calls through the operation queue, and
answer by calling a callback of the user. They are programs of callbacks
(`NodeLkl.Base.EventLoop`): each function of the source given as a callback is a
label (`Cb`), holding the variables it captures, and what it does is `apply`. The
order of the definitions is that of the calls: `binding.js`, `readdir.js`, `fs.js`.

The results of system calls are those the kernel may give (`Fits`): an error, or a
success, in which a transfer is not longer than what was asked for, and directories
are read in whole entries.

The functions of Node are given by a `Host`, together with what the callback of the
user throws, if it does.
-/

namespace NodeLkl

namespace Fs

/-! ## Arguments -/

/-- A path: a string, a buffer, a number, or another value, given by the string it
    converts to. -/
inductive Path
  | string (s : List Char)
  | buffer (b : Bytes)
  | number (n : JsNumber)
  | other (s : List Char)

/-- A mode: a number, a string, or another value. -/
inductive Mode
  | number (n : ℤ)
  | string (s : List Char)
  | other

/-- The flags of a file. -/
inductive Flag
  | number (n : ℕ)
  | string (s : List Char)

/-- The name of an encoding. One that is not given, or is empty, is `none`. -/
abbrev Encoding := List Char

/-- The options. A flag that is missing, empty or zero is `none`. -/
structure Options where
  encoding : Option Encoding
  mode : Mode
  flag : Option Flag

/-- The argument `options`: it may be missing, be a string, an object, or another
    value. -/
inductive OptionsArg
  | missing
  | string (encoding : Option Encoding)
  | object (options : Options)
  | other (type : String)

/-- The data to be written: a buffer, or another value. -/
inductive Data
  | buffer (b : Bytes)
  | other (v : JsValue)

/-- An exception: an error of a system call, an `Error`, or another value. -/
inductive Err
  | errno (n : ℕ)
  | error (name message : String) (code : Option String)
  | other (n : ℕ)
  deriving DecidableEq

/-- The values given to callbacks. -/
inductive Value
  | number (n : ℕ)
  | stats (st : Stats)
  | buffer (b : Buf)
  | string (s : List Char)
  | buffers (names : List Bytes)
  | strings (names : List (List Char))
  deriving DecidableEq

/-- The arguments of a callback: an error, or `null`, and other values. -/
structure Args where
  err : Option Err
  values : List Value
  deriving DecidableEq

/-- The number given to a callback, `0` if there is none. -/
def Args.num : Args → ℕ
  | ⟨_, .number n :: _⟩ => n
  | _ => 0

/-- The functions of Node, and what the `n`-th call of the user's callback throws. -/
structure Host where
  kMaxLength : ℕ
  isEncoding : Encoding → Bool
  bufferToString : Option Encoding → Buf → Except Err (List Char)
  bufferFrom : JsValue → Encoding → Except Err Bytes
  throws : ℕ → Option Err

/-! ## System calls -/

/-- The address of a buffer. -/
abbrev Addr := ℕ

/-- A part of a buffer. -/
structure Slice where
  addr : Addr
  start : ℕ
  length : ℕ
  deriving DecidableEq

/-- The system calls issued. -/
inductive Syscall
  | access (path : Path) (mode : ℤ)
  | chmod (path : Path) (mode : ℤ)
  | close (fd : ℤ)
  | fstat (fd : ℤ) (buf : Addr)
  | getdents64 (fd : ℤ) (buf : Slice)
  | mkdirat (path : Path) (mode : ℤ)
  | openat (path : Path) (flags : ℕ) (mode : ℤ)
  | pread64 (fd : ℤ) (buf : Slice) (position : ℤ)
  | pwrite64 (fd : ℤ) (buf : Slice) (position : ℤ)
  | read (fd : ℤ) (buf : Slice)
  | unlinkat (path : Path) (flags : ℕ)
  | write (fd : ℤ) (buf : Slice)

/-- The result of a system call: an error, or the value returned, with what was
    written to the buffer, or to the structure, that was given. -/
inductive Reply
  | error (errno : ℕ)
  | ok (ret : ℕ) (data : Bytes) (stat : LklStat)

/-- The results of a system call. -/
def Fits : Syscall → Reply → Prop
  | .read _ buf, .ok ret data _ | .pread64 _ buf _, .ok ret data _ =>
    data.length = ret ∧ ret ≤ buf.length
  | .getdents64 _ buf, .ok ret data _ =>
    data.length = ret ∧ ret ≤ buf.length ∧ (parseDirent64 (ofBytes data)).isSome
  | .write _ buf, .ok ret _ _ | .pwrite64 _ buf _, .ok ret _ _ => ret ≤ buf.length
  | _, _ => True

/-- The arguments of a callback given a result. -/
def Reply.args : Reply → Args
  | error errno => ⟨some (.errno errno), []⟩
  | ok ret _ _ => ⟨none, [.number ret]⟩

/-! ## Memory -/

/-- A buffer, or a structure. -/
inductive Cell
  | bytes (b : Buf)
  | stat (s : LklStat)

/-- The context of `readFile`, which its callbacks share. -/
structure ReadFileContext where
  fd : ℤ
  isUserFd : Bool
  size : Option ℕ
  buffers : List Slice
  buffer : Option Addr
  pos : ℕ
  encoding : Option Encoding
  err : Option Err

/-- The buffers, and the context of `readFile`. -/
structure Mem where
  heap : List Cell
  context : ReadFileContext

/-- A context, before anything is known of the file. -/
def newContext (isUserFd : Bool) (encoding : Option Encoding) : ReadFileContext :=
  ⟨0, isUserFd, none, [], none, 0, encoding, none⟩

namespace Mem

def buf (m : Mem) (a : Addr) : Buf :=
  match m.heap[a]? with
  | some (.bytes b) => b
  | _ => []

def stat (m : Mem) (a : Addr) : LklStat :=
  match m.heap[a]? with
  | some (.stat s) => s
  | _ => .zero

/-- The bytes of a part of a buffer. -/
def contents (m : Mem) (s : Slice) : Buf := ((m.buf s.addr).drop s.start).take s.length

/-- The kernel writes `data` to a part of a buffer. -/
def fill (m : Mem) (s : Slice) (data : Bytes) : Mem :=
  { m with heap := m.heap.modify s.addr fun
    | .bytes b => .bytes (b.take s.start ++ ofBytes data ++ b.drop (s.start + data.length))
    | c => c }

section Fill

variable {m : Mem} {b : Buf} {a : Addr} (i n : ℕ) (data : Bytes)

theorem heap_fill_self (h : m.heap[a]? = some (.bytes b)) : (m.fill ⟨a, i, n⟩ data).heap[a]? =
    some (.bytes (b.take i ++ ofBytes data ++ b.drop (i + data.length))) := by
  simp [fill, h]

theorem heap_fill_of_ne {a' : Addr} (h : a' ≠ a) :
    (m.fill ⟨a, i, n⟩ data).heap[a']? = m.heap[a']? := by
  simp [fill, h.symm]

theorem buf_of_heap (h : m.heap[a]? = some (.bytes b)) : m.buf a = b := by
  simp [buf, h]

end Fill

/-- What the kernel does to the memory. -/
def receive (m : Mem) : Syscall → Reply → Mem
  | .read _ buf, .ok _ data _ | .pread64 _ buf _, .ok _ data _ | .getdents64 _ buf, .ok _ data _ =>
    m.fill buf data
  | .fstat _ buf, .ok _ _ st => { m with heap := m.heap.set buf (.stat st) }
  | _, _ => m

end Mem

/-! ## Callbacks -/

/-- The callbacks: that of the user, and the functions of the source given as
    callbacks, with what they capture. -/
inductive Cb
  | user
  /-- In `binding.fstat`, given the request to complete. -/
  | fstat (oncomplete : Cb) (buf : Addr)
  /-- The same, given no request. -/
  | fstatUnrequested (buf : Addr)
  /-- The `wrapper` of `fs.read`. -/
  | readWrapper (callback : Cb) (buffer : Addr)
  /-- The callback of `fs.read` for its legacy string interface. -/
  | readString (encoding : Option Encoding) (buffer : Addr)
  /-- The `wrapper` of `fs.write`. -/
  | writeWrapper (callback : Cb) (buffer : Addr)
  | readFileAfterOpen
  | readFileAfterStat
  | readFileAfterRead
  | readFileAfterClose
  /-- In `fs.writeFile`, given to `fs.open`. -/
  | writeFileAfterOpen (data : Data) (encoding : Option Encoding) (flag : Flag)
  /-- In `writeAll`, given to `fs.write`. -/
  | writeAll (fd : ℤ) (isUserFd : Bool) (buffer : Addr) (offset length : ℤ) (position : Option ℤ)
  /-- In `writeAll`, given to `fs.close` after an error. -/
  | writeAllAfterClose (writeErr : Err)
  /-- In `fs.truncate`, given to `fs.open`. -/
  | truncateAfterOpen (len : ℤ)
  /-- In `fs.truncate`, given to `binding.ftruncate`. -/
  | truncateOncomplete (fd : ℤ)
  /-- In `fs.truncate`, given to `fs.close`. -/
  | truncateAfterClose (er : Option Err)
  /-- In `readdir`, given to `openat`. -/
  | readdirAfterOpen (encoding : Option Encoding)
  /-- In `listdir`. -/
  | listdir (fd : ℤ) (buf : Addr) (encoding : Option Encoding) (result : List Bytes)
  /-- In `readdir`, given to `close`. -/
  | readdirAfterClose (encoding : Option Encoding) (err : Option Err) (result : List Bytes)

/-- The computations of the module. -/
abbrev Js := EventLoop.Js Mem Syscall Reply Cb Args Err

/-- The states of a call. -/
abbrev Loop := EventLoop Mem Syscall Reply Cb Args

abbrev Log := List (Syscall × Reply)

open EventLoop (issue defer answer exec)

/-- A new buffer, or structure. -/
def alloc (c : Cell) : Js Addr := do
  let l ← get
  modify fun l => { l with state := { l.state with heap := l.state.heap ++ [c] } }
  return l.state.heap.length

/-- The bytes of a buffer. -/
def getBuf (a : Addr) : Js Buf := return (← get).state.buf a

def getContext : Js ReadFileContext := return (← get).state.context

def modifyContext (f : ReadFileContext → ReadFileContext) : Js Unit :=
  modify fun l => { l with state := { l.state with context := f l.state.context } }

/-- The position in a buffer that an argument of `Buffer.slice` stands for. -/
def adjustOffset (offset : ℤ) (length : ℕ) : ℕ :=
  if offset < 0 then (offset + length).toNat else min offset.toNat length

@[simp]
theorem adjustOffset_natCast (n length : ℕ) : adjustOffset n length = min n length := by
  simp [adjustOffset]

@[simp]
theorem adjustOffset_zero (length : ℕ) : adjustOffset 0 length = 0 := by
  simp [adjustOffset]

/-- The part of a buffer that `Buffer.slice` returns. -/
def slice (buffer : Addr) (start stop : ℤ) : Js Slice := do
  let b ← getBuf buffer
  return ⟨buffer, adjustOffset start b.length,
    adjustOffset stop b.length - adjustOffset start b.length⟩

/-- The contents of the buffer that `Buffer.concat` returns. -/
def concat (bs : List Buf) (totalLength : ℕ) : Buf :=
  (bs.flatten ++ List.replicate totalLength none).take totalLength

section Exec

variable (l : Loop)

@[simp]
theorem exec_alloc (c : Cell) : exec (alloc c) l =
    (.ok l.state.heap.length,
      { l with state := { l.state with heap := l.state.heap ++ [c] } }) := rfl

@[simp]
theorem exec_getBuf (a : Addr) : exec (getBuf a) l = (.ok (l.state.buf a), l) := rfl

@[simp]
theorem exec_getContext : exec getContext l = (.ok l.state.context, l) := rfl

@[simp]
theorem exec_modifyContext (f : ReadFileContext → ReadFileContext) : exec (modifyContext f) l =
    (.ok (), { l with state := { l.state with context := f l.state.context } }) := rfl

@[simp]
theorem exec_slice (buffer : Addr) (start stop : ℤ) : exec (slice buffer start stop) l =
    (.ok ⟨buffer, adjustOffset start (l.state.buf buffer).length,
      adjustOffset stop (l.state.buf buffer).length -
        adjustOffset start (l.state.buf buffer).length⟩, l) := rfl

@[simp]
theorem exec_ofExcept {α : Type} (x : Except Err α) :
    exec (ofExcept x : Js α) l = (x, l) := by
  cases x <;> rfl

end Exec

/-! ## Errors -/

def nullBytesError : Err :=
  .error "Error" "Path must be a string without null bytes" (some "ENOENT")

def notStringOrBufferError : Err :=
  .error "TypeError" "TypeError: Path must be a string or a Buffer." none

def invalidEncodingError : Err :=
  .error "Error" "EINVAL: Invalid character encoding for filename" (some "EINVAL")

def callbackRequiredError : Err := .error "Error" "A callback is required." none

def unimplementedError : Err := .error "Error" "Unimplemented" none

def unknownEncodingError (encoding : Encoding) : Err :=
  .error "Error" ("Unknown encoding: " ++ String.ofList encoding) none

def unknownFlagError (flag : List Char) : Err :=
  .error "Error" ("Unknown file open flag: " ++ String.ofList flag) none

def optionsError (type : String) : Err :=
  .error "TypeError" ("\"options\" must be a string or an object, got " ++ type ++ " instead.") none

def fileTooLargeError (kMaxLength : ℕ) : Err :=
  .error "RangeError" ("File size is greater than possible Buffer: 0x" ++
    String.ofList (Nat.toDigits 16 kMaxLength) ++ " bytes") none

def undefinedError : Err := .error "TypeError" "Cannot read property 'isFile' of undefined" none

/-! ## `binding.js` -/

namespace Binding

/-- A null byte is added to a buffer. -/
def addNullTerminationIfNeeded : Path → Path
  | .buffer b => .buffer (b ++ [0])
  | p => p

def access (path : Path) (mode : ℤ) (oncomplete : Cb) : Js Unit :=
  issue (.access (addNullTerminationIfNeeded path) mode) oncomplete

def chmod (path : Path) (mode : ℤ) (oncomplete : Cb) : Js Unit :=
  issue (.chmod (addNullTerminationIfNeeded path) mode) oncomplete

def close (fd : ℤ) (oncomplete : Cb) : Js Unit := issue (.close fd) oncomplete

def fstat (fd : ℤ) (oncomplete : Cb) : Js Unit := do
  let buf ← alloc (.stat .zero)
  issue (.fstat fd buf) (.fstat oncomplete buf)

def ftruncate (_fd _len : ℤ) (_oncomplete : Cb) : Js Unit := throw unimplementedError

def mkdir (path : Path) (mode : ℤ) (oncomplete : Cb) : Js Unit :=
  issue (.mkdirat (addNullTerminationIfNeeded path) mode) oncomplete

def openPath (path : Path) (flags : ℕ) (mode : ℤ) (oncomplete : Cb) : Js Unit :=
  issue (.openat (addNullTerminationIfNeeded path) flags mode) oncomplete

/-- The system call transferring bytes at a position, or at that of the file. -/
def transferCall (atPosition : Slice → ℤ → Syscall) (sequential : Slice → Syscall) (s : Slice) :
    Option ℤ → Syscall
  -- `-1` is what `readFile` passes, to read on where the file is
  | some p => if p ≠ -1 then atPosition s p else sequential s
  | none => sequential s

def transfer (atPosition : Slice → ℤ → Syscall) (sequential : Slice → Syscall) (buffer : Addr)
    (offset length : ℤ) (position : Option ℤ) (oncomplete : Cb) : Js Unit := do
  let s ← slice buffer offset (offset + length)
  issue (transferCall atPosition sequential s position) oncomplete

def read (fd : ℤ) (buffer : Addr) (offset length : ℤ) (position : Option ℤ) (oncomplete : Cb) :
    Js Unit :=
  transfer (.pread64 fd) (.read fd) buffer offset length position oncomplete

/-- `AT_REMOVEDIR`. -/
def atRemovedir : ℕ := 0x200

def rmdir (path : Path) (oncomplete : Cb) : Js Unit :=
  issue (.unlinkat (addNullTerminationIfNeeded path) atRemovedir) oncomplete

def unlink (path : Path) (oncomplete : Cb) : Js Unit :=
  issue (.unlinkat (addNullTerminationIfNeeded path) 0) oncomplete

def writeBuffer (fd : ℤ) (buffer : Addr) (offset length : ℤ) (position : Option ℤ)
    (oncomplete : Cb) : Js Unit :=
  transfer (.pwrite64 fd) (.write fd) buffer offset length position oncomplete

end Binding

/-! ## `readdir.js` -/

/-- `O_DIRECTORY | O_RDONLY`. -/
def openOptions : ℕ := 0o200000 ||| 0o0

def bufferSize : ℕ := 1024

def bufferEncoding : Encoding := "buffer".toList

/-- The names, decoded, unless they are wanted as buffers. -/
def decodeArray (host : Host) (arr : List Bytes) (encoding : Option Encoding) :
    Except Err Value :=
  if encoding = some bufferEncoding then .ok (.buffers arr)
  else Value.strings <$> arr.mapM fun name => do
    let s ← host.bufferToString encoding (ofBytes name)
    -- a name is never empty: a decoded one that is was in another encoding
    if s.length = 0 then throw invalidEncodingError
    return s

def listdir (fd : ℤ) (buf : Addr) (encoding : Option Encoding) (result : List Bytes) : Js Unit :=
  issue (.getdents64 fd ⟨buf, 0, bufferSize⟩) (.listdir fd buf encoding result)

/-- What `readdir` does with what `listdir` found. -/
def readdirListed (fd : ℤ) (encoding : Option Encoding) (err : Option Err) (result : List Bytes) :
    Js Unit :=
  issue (.close fd) (.readdirAfterClose encoding err result)

/-! ## `fs.js` -/

variable (host : Host)

/-- The callback of the user is called. -/
def callback (a : Args) : Js Unit := answer host.throws a

def assertEncoding (encoding : Option Encoding) : Except Err Unit :=
  match encoding with
  | some e => if host.isEncoding e then .ok () else .error (unknownEncodingError e)
  | none => .ok ()

def getOptions (options : OptionsArg) (defaultOptions : Options) : Except Err Options :=
  match options with
  | .missing => .ok defaultOptions
  | .string encoding => checked { defaultOptions with encoding }
  | .object options => checked options
  | .other type => .error (optionsError type)
where
  checked (options : Options) : Except Err Options := do
    -- `'buffer'` is not an encoding, but asks for buffers
    if options.encoding ≠ some bufferEncoding then
      assertEncoding host options.encoding
    return options

/-- Whether a path has a null byte. -/
def Path.hasNull : Path → Bool
  | string s | other s => s.contains (Char.ofNat 0)
  | buffer b => b.contains 0
  | number _ => false

/-- Goes on with a path without null bytes; one with some is an error for the
    callback, which is deferred. -/
def nullCheck (path : Path) (callback : Cb) (rest : Js Unit) : Js Unit :=
  if path.hasNull then defer callback ⟨some nullBytesError, []⟩ else rest

/-- The file descriptor a path is, if it is one. -/
def isFd : Path → Option ℕ
  | .number n => if .fin n.toUint32.toNat = n then some n.toUint32.toNat else none
  | _ => none

/-- The number a string starts with, in the base 8; `NaN`, which converts to `0`, if
    there is none. -/
def parseInt8 (s : List Char) : ℤ :=
  match s.dropWhile isStrWhiteSpace with
  | '-' :: cs => -(ofDigits 8 (digits 8 cs).1 : ℤ)
  | '+' :: cs => ofDigits 8 (digits 8 cs).1
  | cs => ofDigits 8 (digits 8 cs).1

/-- The number for a mode, `dflt` if there is none. -/
def modeNum (m : Mode) (dflt : ℤ) : ℤ :=
  match m with
  | .number n => n
  | .string s => parseInt8 s
  | .other => dflt

/-- `O_RDONLY`, `O_WRONLY`, `O_RDWR`, `O_CREAT`, `O_EXCL`, `O_TRUNC`, `O_APPEND` and
    `O_SYNC`, on Linux. -/
def oRdonly : ℕ := 0o0
def oWronly : ℕ := 0o1
def oRdwr : ℕ := 0o2
def oCreat : ℕ := 0o100
def oExcl : ℕ := 0o200
def oTrunc : ℕ := 0o1000
def oAppend : ℕ := 0o2000
def oSync : ℕ := 0o4010000

/-- The flags that a string stands for. -/
def flagTable : List (String × ℕ) :=
  [("r", oRdonly), ("rs", oRdonly ||| oSync), ("sr", oRdonly ||| oSync), ("r+", oRdwr),
    ("rs+", oRdwr ||| oSync), ("sr+", oRdwr ||| oSync),
    ("w", oTrunc ||| oCreat ||| oWronly), ("wx", oTrunc ||| oCreat ||| oWronly ||| oExcl),
    ("xw", oTrunc ||| oCreat ||| oWronly ||| oExcl), ("w+", oTrunc ||| oCreat ||| oRdwr),
    ("wx+", oTrunc ||| oCreat ||| oRdwr ||| oExcl), ("xw+", oTrunc ||| oCreat ||| oRdwr ||| oExcl),
    ("a", oAppend ||| oCreat ||| oWronly), ("ax", oAppend ||| oCreat ||| oWronly ||| oExcl),
    ("xa", oAppend ||| oCreat ||| oWronly ||| oExcl), ("a+", oAppend ||| oCreat ||| oRdwr),
    ("ax+", oAppend ||| oCreat ||| oRdwr ||| oExcl),
    ("xa+", oAppend ||| oCreat ||| oRdwr ||| oExcl)]

def stringToFlags : Flag → Except Err ℕ
  | .number n => .ok n
  | .string s => match flagTable.find? fun p => p.1.toList = s with
    | some (_, flags) => .ok flags
    | none => .error (unknownFlagError s)

/-- A mode that is missing is `F_OK`. -/
def access (path : Path) (mode : Option ℤ) : Js Unit :=
  nullCheck path .user (Binding.access path (BitVec.ofInt 32 (mode.getD 0)).toInt .user)

/-! ### `readFile` -/

def kReadFileBufferLength : ℕ := 8 * 1024

namespace ReadFileContext

/-- `ReadFileContext.prototype.read`. -/
def read : Js Unit := do
  let context ← getContext
  if context.size = some 0 then
    -- the size is not known: every part is read into a buffer of its own
    let buffer ← alloc (.bytes (List.replicate kReadFileBufferLength none))
    modifyContext fun context => { context with buffer := some buffer }
    Binding.read context.fd buffer 0 kReadFileBufferLength (some (-1)) .readFileAfterRead
  else
    Binding.read context.fd (context.buffer.getD 0) context.pos
      (context.size.getD 0 - context.pos) (some (-1)) .readFileAfterRead

/-- `ReadFileContext.prototype.close`. -/
def close (err : Option Err) : Js Unit := do
  modifyContext fun context => { context with err }
  let context ← getContext
  -- a file descriptor given by the user is left open
  if context.isUserFd then
    defer .readFileAfterClose ⟨none, []⟩
  else
    Binding.close context.fd .readFileAfterClose

end ReadFileContext

def readFileAfterOpen (a : Args) : Js Unit := do
  match a.err with
  | some err => callback host ⟨some err, []⟩
  | none =>
    modifyContext fun context => { context with fd := a.num }
    Binding.fstat a.num .readFileAfterStat

/-- The size of a regular file, `0` for another one. -/
def knownSize (st : Stats) : ℕ := if st.isFile then st.size.toNat else 0

def readFileAfterStat (a : Args) : Js Unit :=
  match a.err, a.values with
  | some err, _ => ReadFileContext.close (some err)
  | none, .stats st :: _ => do
    let size := knownSize st
    modifyContext fun context => { context with size := some size }
    if size = 0 then
      modifyContext fun context => { context with buffers := [] }
      ReadFileContext.read
    else if size > host.kMaxLength then
      ReadFileContext.close (some (fileTooLargeError host.kMaxLength))
    else
      let buffer ← alloc (.bytes (List.replicate size none))
      modifyContext fun context => { context with buffer := some buffer }
      ReadFileContext.read
  | none, _ => throw undefinedError

def readFileAfterRead (a : Args) : Js Unit := do
  match a.err with
  | some err => ReadFileContext.close (some err)
  | none =>
    let bytesRead := a.num
    if bytesRead = 0 then
      ReadFileContext.close none
    else
      modifyContext fun context => { context with pos := context.pos + bytesRead }
      let context ← getContext
      if context.size ≠ some 0 then
        if some context.pos = context.size then
          ReadFileContext.close none
        else
          ReadFileContext.read
      else
        -- the size is not known: only an empty read ends the file
        let s ← slice (context.buffer.getD 0) 0 bytesRead
        modifyContext fun context => { context with buffers := context.buffers ++ [s] }
        ReadFileContext.read

/-- What has been read. -/
def readFileBuffer (m : Mem) : Buf :=
  let context := m.context
  if context.size = some 0 then concat (context.buffers.map m.contents) context.pos
  else if context.pos < context.size.getD 0 then (m.buf (context.buffer.getD 0)).take context.pos
  else m.buf (context.buffer.getD 0)

def tryToString (buf : Buf) (encoding : Encoding) : Js Unit :=
  match host.bufferToString (some encoding) buf with
  | .ok s => callback host ⟨none, [.string s]⟩
  | .error e => callback host ⟨some e, [.buffer buf]⟩

def readFileAfterClose (a : Args) : Js Unit := do
  let context ← getContext
  match context.err with
  | some err => callback host ⟨some err, []⟩
  | none =>
    let buffer := readFileBuffer (← get).state
    match a.err with
    -- an error of `close` comes with what was read
    | some err => callback host ⟨some err, [.buffer buffer]⟩
    | none => match context.encoding with
      | some encoding => tryToString host buffer encoding
      | none => callback host ⟨none, [.buffer buffer]⟩

def readFile (path : Path) (options : OptionsArg) : Js Unit := do
  let options ← ofExcept (getOptions host options ⟨none, .other, some (.string ['r'])⟩)
  nullCheck path .user do
    modifyContext fun _ => newContext (isFd path).isSome options.encoding
    match isFd path with
    | some fd => defer .readFileAfterOpen ⟨none, [.number fd]⟩
    | none =>
      let flags ← ofExcept (stringToFlags (options.flag.getD (.string ['r'])))
      Binding.openPath path flags 0o666 .readFileAfterOpen

/-! ### Files and directories -/

def close (fd : ℤ) (callback : Cb) : Js Unit := Binding.close fd callback

def openPath (path : Path) (flags : Flag) (mode : Mode) (callback : Cb) : Js Unit :=
  nullCheck path callback do
    let flags ← ofExcept (stringToFlags flags)
    Binding.openPath path flags (modeNum mode 0o666) callback

/-- `fs.read`, once its arguments are sorted out. -/
def readInto (fd : ℤ) (buffer : Addr) (offset length : ℤ) (position : Option ℤ) (callback : Cb) :
    Js Unit := do
  if length = 0 then
    -- no system call is made
    defer callback ⟨none, [.number 0, .buffer (← getBuf buffer)]⟩
  else
    Binding.read fd buffer offset length position (.readWrapper callback buffer)

def read (fd : ℤ) (buffer : Buf) (offset length : ℤ) (position : Option ℤ) : Js Unit := do
  let buffer ← alloc (.bytes buffer)
  readInto fd buffer offset length position .user

/-- The legacy string interface of `fs.read`. -/
def readString (fd : ℤ) (length : ℕ) (position : Option ℤ) (encoding : Option Encoding) :
    Js Unit := do
  ofExcept (assertEncoding host encoding)
  let buffer ← alloc (.bytes (List.replicate length none))
  readInto fd buffer 0 length position (.readString encoding buffer)

def tryToStringWithEnd (buf : Buf) (encoding : Option Encoding) (stop : ℕ) : Js Unit :=
  match host.bufferToString encoding (buf.take stop) with
  | .ok s => callback host ⟨none, [.string s, .number stop]⟩
  | .error e => callback host ⟨some e, [.buffer buf, .number stop]⟩

/-- `fs.write`, for a buffer. -/
def write (fd : ℤ) (buffer : Addr) (offset length position : Option ℤ) (callback : Cb) :
    Js Unit := do
  let b ← getBuf buffer
  let offset := offset.getD 0
  let length := length.getD (b.length - offset)
  Binding.writeBuffer fd buffer offset length position (.writeWrapper callback buffer)

def ftruncate (fd len : ℤ) (callback : Cb) : Js Unit := Binding.ftruncate fd len callback

def truncate (path : Path) (len : ℤ) : Js Unit :=
  match path with
  | .number n => ftruncate n.toInt64 len .user
  | path => openPath path (.string "r+".toList) .other (.truncateAfterOpen len)

def rmdir (path : Path) : Js Unit := nullCheck path .user (Binding.rmdir path .user)

def mkdir (path : Path) (mode : Mode) : Js Unit :=
  nullCheck path .user (Binding.mkdir path (modeNum mode 0o777) .user)

/-- `exports.readdir` of `readdir.js`. -/
def Binding.readdir (path : Path) (encoding : Option Encoding) : Js Unit :=
  match addNullTerminationIfNeeded path with
  | .number _ | .other _ => callback host ⟨some notStringOrBufferError, []⟩
  | path => issue (.openat path openOptions 0) (.readdirAfterOpen encoding)

def readdir (path : Path) (options : OptionsArg) : Js Unit := do
  let options ← ofExcept (getOptions host options ⟨none, .other, none⟩)
  nullCheck path .user (Binding.readdir host path options.encoding)

def fstat (fd : ℤ) : Js Unit := Binding.fstat fd .user

def unlink (path : Path) : Js Unit := nullCheck path .user (Binding.unlink path .user)

def chmod (path : Path) (mode : Mode) : Js Unit :=
  nullCheck path .user (Binding.chmod path (modeNum mode 0) .user)

/-! ### `writeFile` -/

def writeAll (fd : ℤ) (isUserFd : Bool) (buffer : Addr) (offset length : ℤ)
    (position : Option ℤ) : Js Unit :=
  write fd buffer (some offset) (some length) position
    (.writeAll fd isUserFd buffer offset length position)

/-- The buffer to be written. -/
def Data.toBuffer (data : Data) (encoding : Option Encoding) : Except Err Bytes :=
  match data with
  | .buffer b => .ok b
  | .other v => host.bufferFrom v (encoding.getD "utf8".toList)

/-- Whether a flag has an `a`, for which `/a/` is tested. -/
def Flag.hasA : Flag → Bool
  | .number _ => false
  | .string s => s.contains 'a'

def writeFd (data : Data) (encoding : Option Encoding) (flag : Flag) (fd : ℤ) (isUserFd : Bool) :
    Js Unit := do
  let b ← ofExcept (data.toBuffer host encoding)
  let buffer ← alloc (.bytes (ofBytes b))
  writeAll fd isUserFd buffer 0 b.length (if flag.hasA then none else some 0)

/-- `fs.writeFile`, given its options. -/
def writeFileWith (path : Path) (data : Data) (options : Options) : Js Unit :=
  let flag := options.flag.getD (.string ['w'])
  match isFd path with
  | some fd => writeFd host data options.encoding flag fd true
  | none => openPath path flag options.mode (.writeFileAfterOpen data options.encoding flag)

def writeFile (path : Path) (data : Data) (options : OptionsArg) : Js Unit := do
  let options ← ofExcept (getOptions host options
    ⟨some "utf8".toList, .number 0o666, some (.string ['w'])⟩)
  writeFileWith host path data options

def appendFile (path : Path) (data : Data) (options : OptionsArg) : Js Unit := do
  let options ← ofExcept (getOptions host options
    ⟨some "utf8".toList, .number 0o666, some (.string ['a'])⟩)
  let flag := if options.flag.isNone ∨ (isFd path).isSome then some (.string ['a'])
    else options.flag
  writeFile host path data (.object { options with flag })

/-! ### Callbacks -/

/-- What a callback does. -/
def apply : Cb → Args → Js Unit
  | .user, a => callback host a
  | .fstat oncomplete buf, a => do
    match a.err with
    | some err => apply oncomplete ⟨some err, []⟩
    | none => pure ()
    apply oncomplete ⟨none, [.stats (parseLklStat ((← get).state.stat buf))]⟩
  | .fstatUnrequested _, _ => throw callbackRequiredError
  | .readWrapper callback buffer, a => do
    apply callback ⟨a.err, [.number a.num, .buffer (← getBuf buffer)]⟩
  | .readString encoding buffer, a => do
    match a.err with
    | some err => callback host ⟨some err, []⟩
    | none =>
      if a.num > 0 then
        tryToStringWithEnd host (← getBuf buffer) encoding a.num
      else
        callback host ⟨none, [.string [], .number a.num]⟩
  | .writeWrapper callback buffer, a => do
    apply callback ⟨a.err, [.number a.num, .buffer (← getBuf buffer)]⟩
  | .readFileAfterOpen, a => readFileAfterOpen host a
  | .readFileAfterStat, a => readFileAfterStat host a
  | .readFileAfterRead, a => readFileAfterRead a
  | .readFileAfterClose, a => readFileAfterClose host a
  | .writeFileAfterOpen data encoding flag, a => match a.err with
    | some openErr => callback host ⟨some openErr, []⟩
    | none => writeFd host data encoding flag a.num false
  | .writeAll fd isUserFd buffer offset length position, a => match a.err with
    | some writeErr =>
      if isUserFd then callback host ⟨some writeErr, []⟩
      else close fd (.writeAllAfterClose writeErr)
    | none =>
      let written : ℤ := a.num
      if written = length then
        if isUserFd then callback host ⟨none, []⟩ else close fd .user
      else
        writeAll fd isUserFd buffer (offset + written) (length - written)
          (position.map (· + written))
  | .writeAllAfterClose writeErr, _ => callback host ⟨some writeErr, []⟩
  | .truncateAfterOpen len, a => match a.err with
    | some er => callback host ⟨some er, []⟩
    | none => Binding.ftruncate a.num len (.truncateOncomplete a.num)
  | .truncateOncomplete fd, a => close fd (.truncateAfterClose a.err)
  | .truncateAfterClose er, a => callback host ⟨er <|> a.err, []⟩
  | .readdirAfterOpen encoding, a => match a.err with
    | some err => callback host ⟨some err, []⟩
    | none => do
      let buf ← alloc (.bytes (List.replicate bufferSize none))
      listdir a.num buf encoding []
  | .listdir fd buf encoding result, a => match a.err with
    | some err => readdirListed fd encoding (some err) []
    | none => do
      if a.num > 0 then
        let names := (parseDirent64 ((← getBuf buf).take a.num)).getD []
        listdir fd buf encoding (result ++ names)
      else
        readdirListed fd encoding none result
  | .readdirAfterClose encoding err result, a => match err <|> a.err with
    | some err => callback host ⟨some err, []⟩
    | none =>
      tryCatch
        (do
          let names ← ofExcept (decodeArray host result encoding)
          callback host ⟨none, [names]⟩)
        fun decodeErr => callback host ⟨some decodeErr, []⟩

/-! ## Calls -/

/-- The calls of the functions of `fs`. -/
inductive Call
  | access (path : Path) (mode : Option ℤ)
  | appendFile (path : Path) (data : Data) (options : OptionsArg)
  | chmod (path : Path) (mode : Mode)
  | close (fd : ℤ)
  | fstat (fd : ℤ)
  | mkdir (path : Path) (mode : Mode)
  | openPath (path : Path) (flags : Flag) (mode : Mode)
  | read (fd : ℤ) (buffer : Buf) (offset length : ℤ) (position : Option ℤ)
  | readString (fd : ℤ) (length : ℕ) (position : Option ℤ) (encoding : Option Encoding)
  | readdir (path : Path) (options : OptionsArg)
  | readFile (path : Path) (options : OptionsArg)
  | rmdir (path : Path)
  | truncate (path : Path) (len : ℤ)
  | unlink (path : Path)
  | write (fd : ℤ) (buffer : Bytes) (offset length position : Option ℤ)
  | writeFile (path : Path) (data : Data) (options : OptionsArg)

/-- What a call does before it returns. -/
def Call.main : Call → Js Unit
  | .access path mode => Fs.access path mode
  | .appendFile path data options => Fs.appendFile host path data options
  | .chmod path mode => Fs.chmod path mode
  | .close fd => Fs.close fd .user
  | .fstat fd => Fs.fstat fd
  | .mkdir path mode => Fs.mkdir path mode
  | .openPath path flags mode => Fs.openPath path flags mode .user
  | .read fd buffer offset length position => Fs.read fd buffer offset length position
  | .readString fd length position encoding => Fs.readString host fd length position encoding
  | .readdir path options => Fs.readdir host path options
  | .readFile path options => Fs.readFile host path options
  | .rmdir path => Fs.rmdir path
  | .truncate path len => Fs.truncate path len
  | .unlink path => Fs.unlink path
  | .write fd buffer offset length position => do
    let buffer ← alloc (.bytes (ofBytes buffer))
    Fs.write fd buffer offset length position .user
  | .writeFile path data options => Fs.writeFile host path data options

/-- The callbacks of the module. -/
def program : EventLoop.Program Mem Syscall Reply Cb Args Err where
  Fits := Fits
  receive := Mem.receive
  args := Reply.args
  apply := apply host

abbrev Event := EventLoop.Event Reply

abbrev system : System Loop Event := EventLoop.system (program host)

/-- What a call did before it returned, or threw. -/
def Call.start (c : Call) : Except Err Unit × Loop :=
  exec (c.main host) (EventLoop.idle [] ⟨[], newContext false none⟩ [] [])

/-- A call is accepted, unless it throws something that the callback did not. -/
def Call.Accepted (c : Call) : Prop :=
  ∀ e, (c.start host).1 = .error e → (c.start host).2.answers ≠ []

end Fs

end NodeLkl
