import NodeLkl.Base.Bounded
import NodeLkl.Fs.Calls

/-!
# The synchronous functions of `fs`

Each function of `fs` comes with one that is meant to return its result (`openSync` for
`open`, and so on). These call the same bindings, with no request. There is no such thing
as a synchronous system call here: the bindings need the callback of a request.

* The bindings are those of `NodeLkl.Fs.Calls`, which are given a callback, together with
  the check of the request (`Binding.getCallback`). All of them check it first, but
  `Binding.fstat`, which does when the system call has been replied to.
* Functions are given any values (`Arg`). Objects are given by the primitive they convert
  to, and by their fields, for those that are options.
* Loops may not end (`NodeLkl.Base.Bounded`).

The platform is not Windows, for which paths are rewritten.
-/

namespace NodeLkl

namespace Fs

namespace Sync

open EventLoop (issue exec)

/-! ## Values -/

/-- A `Map` between paths. -/
abbrev Cache := List (List Char × List Char)

/-- A value that is given to a function, or returned: a function, a `Buffer`, a `Date`, a
    `Stats`, options, an array of two values, or any other value. -/
inductive Arg
  | value (v : JsValue)
  | function (source : List Char)
  | buffer (b : Buf)
  | date (t : JsNumber)
  | stats (st : Stats)
  | options (encoding mode flag : Arg) (cache : Option Cache)
  | pair (first second : Arg)
  deriving DecidableEq

namespace Arg

@[match_pattern]
abbrev undefined : Arg := value .undefined

@[match_pattern]
abbrev null : Arg := value .null

@[match_pattern]
abbrev bool (b : Bool) : Arg := value (.prim (.bool b))

@[match_pattern]
abbrev number (n : JsNumber) : Arg := value (.prim (.number n))

@[match_pattern]
abbrev string (s : List Char) : Arg := value (.prim (.string s))

/-- What the operator `typeof` gives. -/
def typeOf : Arg → String
  | undefined => "undefined"
  | bool _ => "boolean"
  | number _ => "number"
  | string _ => "string"
  | value (.prim .symbol) => "symbol"
  | function _ => "function"
  | _ => "object"

/-- The values a condition takes for true. -/
def truthy : Arg → Bool
  | value v => v.truthy
  | _ => true

/-- `v || dflt`. -/
def orElse (v dflt : Arg) : Arg := if v.truthy then v else dflt

/-- The fields of options, which other values do not have, but for the mode of a `Stats`. -/
def encoding : Arg → Arg
  | options encoding _ _ _ => encoding
  | _ => undefined

@[inherit_doc encoding]
def mode : Arg → Arg
  | options _ mode _ _ => mode
  | stats st => number (.fin st.mode)
  | _ => undefined

@[inherit_doc encoding]
def flag : Arg → Arg
  | options _ _ flag _ => flag
  | _ => undefined

/-- The cache of `realpathSync`, `options[internalFS.realpathCacheKey]`. -/
def cache : Arg → Option Cache
  | options _ _ _ cache => cache
  | _ => none

/-- The name of an encoding, if the value is one. -/
def encodingName : Arg → Option Encoding
  | string s => if s = [] then none else some s
  | _ => none

/-- The position in a file, if the value is one. -/
def position : Arg → Option ℤ
  | number n => some n.toInt64
  | _ => none

end Arg

/-- The functions of Node that the synchronous functions call, besides those of `Host`. -/
structure Node extends Host where
  numberToString : JsNumber → List Char
  dateToString : JsNumber → List Char
  /-- What converting a value throws, if it does. -/
  conversionError : JsValue → Err
  /-- The length of the buffer that `Buffer.allocUnsafe` returns. -/
  allocUnsafe : Arg → Except Err ℕ
  /-- The method `toString` of a value, given `'utf8'`. -/
  toStringUtf8 : Arg → Except Err (List Char)
  /-- `path.resolve`. -/
  resolve : List Arg → Except Err (List Char)
  /-- `Date.now() / 1000`. -/
  now : JsNumber
  /-- The address that is given to the kernel for a string, or for a `Buffer`. -/
  address : Arg → ℤ

/-- The computations of synchronous functions. -/
abbrev SyncJs := Comp Loop Err

variable (node : Node)

namespace Node

/-- The string a primitive converts to. -/
def primToString : Prim → Except Err (List Char)
  | .undefined => .ok "undefined".toList
  | .null => .ok "null".toList
  | .bool b => .ok (toString b).toList
  | .number n => .ok (node.numberToString n)
  | .string s => .ok s
  | .symbol => .error (node.conversionError (.prim .symbol))

/-- The string a value converts to. -/
def toStr : Arg → Except Err (List Char)
  | .value (.prim p) | .value (.object (some p)) => node.primToString p
  | .value (.error name message) => .ok (errorToString name message)
  | .value (.object none) => .error (node.conversionError (.object none))
  | .function source => .ok source
  | .buffer b => node.bufferToString none b
  | .date t => .ok (node.dateToString t)
  | .stats _ | .options _ _ _ _ => .ok "[object Object]".toList
  | .pair first second => do
    -- nothing stands for `undefined` and `null` in an array
    let first ← if first = .undefined ∨ first = .null then pure [] else toStr first
    let second ← if second = .undefined ∨ second = .null then pure [] else toStr second
    return first ++ ",".toList ++ second

/-- The number a value converts to. -/
def toNumber : Arg → Except Err JsNumber
  | .value v => match v.toNumber with
    | some n => .ok n
    | none => .error (node.conversionError v)
  | .date t => .ok t
  | v => stringToNumber <$> node.toStr v

/-- What is in a buffer, as a string. -/
def decode (encoding : Arg) (b : Buf) : Except Err (List Char) :=
  if encoding.truthy then do
    node.bufferToString (some (← node.toStr encoding)) b
  else node.bufferToString none b

/-- What the native module gives to the kernel for a value. -/
def word : Arg → ℤ
  | .value (.prim (.string s)) => node.address (.string s)
  | .buffer b => node.address (.buffer b)
  | .value v => v.integerValue
  | v => match node.toNumber v with
    | .ok n => n.toInt64
    | .error _ => 0

/-- A value given as a path. A byte that was not written may be any. -/
def toPath : Arg → Path
  | .string s => .string s
  | .number n => .number n
  | .buffer b => .buffer (b.map fun x => x.getD 0)
  | v => .other ((node.toStr v).toOption.getD [])

end Node

/-! ## Errors -/

def prefixRequiredError : Err := .error "TypeError" "filename prefix is required" none

def parseTimeError (time : List Char) : Err :=
  .error "Error" ("Cannot parse time: " ++ String.ofList time) none

def propertyError (property of : String) : Err :=
  .error "TypeError" ("Cannot read property '" ++ property ++ "' of " ++ of) none

def notFunctionError (function : String) : Err :=
  .error "TypeError" (function ++ " is not a function") none

/-! ## `binding.js` -/

namespace Binding

/-- The callback of a request, which may be missing. -/
def getCallback : Option Cb → Js Cb
  | some oncomplete => return oncomplete
  | none => throw callbackRequiredError

/-- A binding that issues system calls with the callback of a request, and returns
    nothing. -/
def withCallback (req : Option Cb) (binding : Cb → Js Unit) : Js Arg := do
  let callback ← getCallback req
  binding callback
  return .undefined

def unimplemented : Js Arg := throw unimplementedError

def access (path mode : Arg) (req : Option Cb) : Js Arg :=
  withCallback req (Fs.Binding.access (node.toPath path) (node.word mode))

def chmod (path mode : Arg) (req : Option Cb) : Js Arg :=
  withCallback req (Fs.Binding.chmod (node.toPath path) (node.word mode))

def chown : Js Arg := unimplemented

def close (fd : Arg) (req : Option Cb) : Js Arg :=
  withCallback req (Fs.Binding.close (node.word fd))

def fchmod : Js Arg := unimplemented

def fchown : Js Arg := unimplemented

def fdatasync : Js Arg := unimplemented

def fstat (fd : Arg) (req : Option Cb) : Js Arg := do
  let buf ← alloc (.stat .zero)
  -- the request is only looked at by the callback
  match req with
  | some oncomplete => issue (.fstat (node.word fd) buf) (.fstat oncomplete buf)
  | none => issue (.fstat (node.word fd) buf) (.fstatUnrequested buf)
  return .undefined

def fsync : Js Arg := unimplemented

def ftruncate : Js Arg := unimplemented

def futimes : Js Arg := unimplemented

def link : Js Arg := unimplemented

def lstat : Js Arg := unimplemented

def mkdir (path mode : Arg) (req : Option Cb) : Js Arg :=
  withCallback req (Fs.Binding.mkdir (node.toPath path) (node.word mode))

def mkdtemp : Js Arg := unimplemented

def openPath (path flags mode : Arg) (req : Option Cb) : Js Arg :=
  withCallback req
    (Fs.Binding.openPath (node.toPath path) (node.word flags).toNat (node.word mode))

def read (fd : Arg) (buffer : Addr) (offset length position : Arg) (req : Option Cb) : Js Arg :=
  withCallback req
    (Fs.Binding.read (node.word fd) buffer (node.word offset) (node.word length) position.position)

def readdir (path encoding : Arg) (req : Option Cb) : Js Arg :=
  withCallback req fun _ =>
    Fs.Binding.readdir node.toHost (node.toPath path) encoding.encodingName

def readlink : Js Arg := unimplemented

def rename : Js Arg := unimplemented

def rmdir (path : Arg) (req : Option Cb) : Js Arg :=
  withCallback req (Fs.Binding.rmdir (node.toPath path))

def stat : Js Arg := unimplemented

def symlink : Js Arg := unimplemented

def unlink (path : Arg) (req : Option Cb) : Js Arg :=
  withCallback req (Fs.Binding.unlink (node.toPath path))

def utimes : Js Arg := unimplemented

def writeBuffer (fd : Arg) (buffer : Addr) (offset length position : Arg) (req : Option Cb) :
    Js Arg :=
  withCallback req (Fs.Binding.writeBuffer (node.word fd) buffer (node.word offset)
    (node.word length) position.position)

def writeString : Js Arg := unimplemented

end Binding

/-! ## Arguments -/

def assertEncoding (encoding : Arg) : Except Err Unit := do
  if encoding.truthy then
    let name ← node.toStr encoding
    if !node.isEncoding name then
      throw (unknownEncodingError name)

/-- `{}`, as default options. -/
def noOptions : Arg := .options .undefined .undefined .undefined none

/-- The default options of `readFileSync`. -/
def readFileOptions : Arg := .options .undefined .undefined (.string ['r']) none

def getOptions (options defaultOptions : Arg) : Except Err Arg :=
  match options with
  | .undefined | .null | .function _ => .ok defaultOptions
  | .string s =>
    checked (.options (.string s) defaultOptions.mode defaultOptions.flag defaultOptions.cache)
  | options =>
    if options.typeOf ≠ "object" then .error (optionsError options.typeOf) else checked options
where
  checked (options : Arg) : Except Err Arg := do
    -- `'buffer'` is not an encoding, but asks for buffers
    if options.encoding ≠ .string bufferEncoding then
      assertEncoding node options.encoding
    return options

/-- A path with null bytes is an error, which is thrown as there is no callback. -/
def nullCheck (path : Arg) : Except Err Unit := do
  if (← node.toStr path).contains (Char.ofNat 0) then
    throw nullBytesError

/-- `(path >>> 0) === path`. -/
def isFd (path : Arg) : Except Err Bool := do
  let n ← node.toNumber path
  return path = .number (.fin n.toUint32.toNat)

/-- `v | 0`. -/
def toInt32 (v : Arg) : Except Err Arg := do
  let n ← node.toNumber v
  return .number (.fin n.toUint32.toInt)

def modeNum (m dflt : Arg) : Arg :=
  match m with
  | .number n => .number n
  | .string s => .number (.fin (parseInt8 s))
  | _ => dflt

def stringToFlags (flag : Arg) : Except Err Arg :=
  match flag with
  | .number n => .ok (.number n)
  | .string s => do
    let flags ← Fs.stringToFlags (.string s)
    return .number (.fin flags)
  | flag => do throw (unknownFlagError (← node.toStr flag))

/-- A `Date` or a number, as a time in seconds. -/
def toUnixTimestamp (time : Arg) : Except Err JsNumber :=
  match time with
  | .string s =>
    if stringToNumber s ≠ .nan then .ok (stringToNumber s) else .error (parseTimeError s)
  | .number (.fin q) => .ok (if q < 0 then node.now else .fin q)
  | .number _ => .ok node.now
  | .date (.fin t) => .ok (.ofRat (t / 1000))
  | .date t => .ok t
  | time => do throw (parseTimeError (← node.toStr time))

/-- The object that a method of `Stats` is called on, in the variable `var`. -/
def asStats (var method : String) : Arg → Except Err Stats
  | .stats st => .ok st
  | .undefined => .error (propertyError method "undefined")
  | .null => .error (propertyError method "null")
  | _ => .error (notFunctionError (var ++ "." ++ method))

/-! ## Functions -/

def accessSync (path mode : Arg) : SyncJs Arg := do
  nullCheck node path
  let mode ← (if mode = .undefined then .ok (.number (.fin 0))
    else toInt32 node mode : Except Err Arg)
  let _ ← Binding.access node path mode none
  return .undefined

def existsSync (path : Arg) : SyncJs Arg :=
  tryCatch
    (do
      nullCheck node path
      let _ ← Binding.stat
      return .bool true)
    fun _ => return .bool false

def closeSync (fd : Arg) : SyncJs Arg := Binding.close node fd none

def openSync (path flags mode : Arg) : SyncJs Arg := do
  let mode := modeNum mode (.number (.fin 0o666))
  nullCheck node path
  let flags ← stringToFlags node flags
  Binding.openPath node path flags mode none

/-- `readSync`, given a buffer. -/
def readBufferSync (fd : Arg) (buffer : Addr) (offset length position : Arg) : SyncJs Arg := do
  if length = .number (.fin 0) then
    return .number (.fin 0)
  Binding.read node fd buffer offset length position none

def readSync (fd buffer offset length position : Arg) : SyncJs Arg :=
  match buffer with
  | .buffer b => do
    let buffer ← alloc (.bytes b)
    readBufferSync node fd buffer offset length position
  | buffer => do
    -- the legacy string interface: the arguments are the length, the position and the encoding
    let encoding := length
    assertEncoding node encoding
    let position := offset
    let length := buffer
    let buffer ← alloc (.bytes (List.replicate (← node.allocUnsafe length) none))
    if length = .number (.fin 0) then
      return .pair (.string []) (.number (.fin 0))
    let r ← Binding.read node fd buffer (.number (.fin 0)) length position none
    let n ← node.toNumber r
    if JsNumber.lt (.fin 0) n then
      let b ← getBuf buffer
      let str ← node.decode encoding (b.take n.toInt64.toNat)
      return .pair (.string str) r
    return .pair (.string []) r

/-- `writeSync`, given a buffer. -/
def writeBufferSync (fd : Arg) (buffer : Addr) (offset length position : Arg) : SyncJs Arg := do
  let b ← getBuf buffer
  let position := if position = .undefined then .null else position
  let offset := match offset with
    | .number n => n
    | _ => .fin 0
  let length := match length with
    | .number n => n
    | _ => JsNumber.sub (.fin b.length) offset
  Binding.writeBuffer node fd buffer (.number offset) (.number length) position none

def writeSync (fd buffer offset length position : Arg) : SyncJs Arg :=
  match buffer with
  | .buffer b => do
    let buffer ← alloc (.bytes b)
    writeBufferSync node fd buffer offset length position
  | buffer => do
    let _ ← node.toStr buffer
    Binding.writeString

def renameSync (oldPath newPath : Arg) : SyncJs Arg := do
  nullCheck node oldPath
  nullCheck node newPath
  Binding.rename

def ftruncateSync (_fd _len : Arg) : SyncJs Arg := Binding.ftruncate

def truncateSync (path len : Arg) : SyncJs Arg :=
  match path with
  | .number n => ftruncateSync (.number n) len
  | path => do
    let len := if len = .undefined then .number (.fin 0) else len
    let fd ← openSync node path (.string "r+".toList) .undefined
    (ftruncateSync fd len).tryFinally fun _ => do
      let _ ← closeSync node fd
      return ()

def rmdirSync (path : Arg) : SyncJs Arg := do
  nullCheck node path
  Binding.rmdir node path none

def fdatasyncSync (_fd : Arg) : SyncJs Arg := Binding.fdatasync

def fsyncSync (_fd : Arg) : SyncJs Arg := Binding.fsync

def mkdirSync (path mode : Arg) : SyncJs Arg := do
  nullCheck node path
  Binding.mkdir node path (modeNum mode (.number (.fin 0o777))) none

def readdirSync (path options : Arg) : SyncJs Arg := do
  let options ← getOptions node options noOptions
  nullCheck node path
  Binding.readdir node path options.encoding none

def fstatSync (fd : Arg) : SyncJs Arg := Binding.fstat node fd none

def lstatSync (path : Arg) : SyncJs Arg := do
  nullCheck node path
  Binding.lstat

def statSync (path : Arg) : SyncJs Arg := do
  nullCheck node path
  Binding.stat

def readlinkSync (path options : Arg) : SyncJs Arg := do
  let _ ← getOptions node options noOptions
  nullCheck node path
  Binding.readlink

def symlinkSync (target path _type : Arg) : SyncJs Arg := do
  nullCheck node target
  nullCheck node path
  Binding.symlink

def linkSync (existingPath newPath : Arg) : SyncJs Arg := do
  nullCheck node existingPath
  nullCheck node newPath
  Binding.link

def unlinkSync (path : Arg) : SyncJs Arg := do
  nullCheck node path
  Binding.unlink node path none

def fchmodSync (_fd _mode : Arg) : SyncJs Arg := Binding.fchmod

/-- `O_WRONLY | O_SYMLINK`, where there is no `O_SYMLINK`. -/
def oWronlySymlink : Arg := .number (.fin oWronly)

def lchmodSync (path mode : Arg) : SyncJs Arg := do
  let fd ← openSync node path oWronlySymlink .undefined
  -- the error of `fchmodSync` comes first, but the file is closed anyway
  let ret ← tryCatch (do return .ok (← fchmodSync fd mode)) fun er => return .error er
  let ret2 ← tryCatch (do return .ok (← closeSync node fd)) fun er => return .error er
  let ret ← (ret : Except Err Arg)
  let _ ← (ret2 : Except Err Arg)
  return ret

def chmodSync (path mode : Arg) : SyncJs Arg := do
  nullCheck node path
  Binding.chmod node path (modeNum mode .undefined) none

def fchownSync (_fd _uid _gid : Arg) : SyncJs Arg := Binding.fchown

def lchownSync (path uid gid : Arg) : SyncJs Arg := do
  let fd ← openSync node path oWronlySymlink .undefined
  fchownSync fd uid gid

def chownSync (path _uid _gid : Arg) : SyncJs Arg := do
  nullCheck node path
  Binding.chown

def utimesSync (path atime mtime : Arg) : SyncJs Arg := do
  nullCheck node path
  let _ ← toUnixTimestamp node atime
  let _ ← toUnixTimestamp node mtime
  let _ ← Binding.utimes
  return .undefined

def futimesSync (_fd atime mtime : Arg) : SyncJs Arg := do
  let _ ← toUnixTimestamp node atime
  let _ ← toUnixTimestamp node mtime
  let _ ← Binding.futimes
  return .undefined

def mkdtempSync (pre options : Arg) : SyncJs Arg :=
  match pre with
  | .string (c :: cs) => do
    let _ ← getOptions node options noOptions
    nullCheck node (.string (c :: cs))
    Binding.mkdtemp
  | _ => throw prefixRequiredError

/-! ### `readFileSync` -/

/-- The file is closed, unless it is to be left open. -/
def closeUnless (leave : Bool) (fd : Arg) : SyncJs Unit :=
  if leave then return () else do
    let _ ← closeSync node fd
    return ()

/-- The file is closed if something was thrown, unless its descriptor is that of the user. -/
def closingIfThrown {α : Type} (fd : Arg) (isUserFd : Bool) (m : SyncJs α) : SyncJs α :=
  m.tryFinally fun threw => closeUnless node (!threw || isUserFd) fd

def tryStatSync (fd : Arg) (isUserFd : Bool) : SyncJs Arg :=
  closingIfThrown node fd isUserFd (fstatSync node fd)

def tryCreateBuffer (size : JsNumber) (fd : Arg) (isUserFd : Bool) : SyncJs Addr :=
  closingIfThrown node fd isUserFd do
    alloc (.bytes (List.replicate (← node.allocUnsafe (.number size)) none))

def tryReadSync (fd : Arg) (isUserFd : Bool) (buffer : Addr) (pos len : JsNumber) : SyncJs Arg :=
  closingIfThrown node fd isUserFd
    (readBufferSync node fd buffer (.number pos) (.number len) .undefined)

/-- What is in a file of known size. -/
def readKnownSize (fd : Arg) (isUserFd : Bool) (size : JsNumber) : SyncJs Buf := do
  let buffer ← tryCreateBuffer node size fd isUserFd
  let pos ← Comp.loop (fun pos => do
      let bytesRead ← tryReadSync node fd isUserFd buffer pos (size.sub pos)
      let n ← node.toNumber bytesRead
      let pos := pos.add n
      return if n ≠ .fin 0 ∧ pos.lt size then .inl pos else .inr pos) (.fin 0)
  let b ← getBuf buffer
  return if pos.lt size then b.take pos.toInt64.toNat else b

/-- What is in a file whose size is not known: only an empty read ends it. -/
def readUnknownSize (fd : Arg) (isUserFd : Bool) : SyncJs Buf := do
  let (buffers, pos) ← Comp.loop (fun (buffers, pos) => do
      let buffer ← alloc (.bytes (List.replicate 8192 none))
      let bytesRead ← tryReadSync node fd isUserFd buffer (.fin 0) (.fin 8192)
      let n ← node.toNumber bytesRead
      if n = .fin 0 then
        return .inr (buffers, pos)
      let part ← slice buffer 0 n.toInt64
      return .inl (buffers ++ [part], pos.add n)) (([], .fin 0) : List Slice × JsNumber)
  let l ← (get : Js Loop)
  return concat (buffers.map l.state.contents) pos.toInt64.toNat

def readFileSync (path options : Arg) : SyncJs Arg := do
  let options ← getOptions node options readFileOptions
  let isUserFd ← isFd node path
  let fd ← (if isUserFd then pure path
    else openSync node path (options.flag.orElse (.string ['r'])) (.number (.fin 0o666)) :
      SyncJs Arg)
  let st ← tryStatSync node fd isUserFd
  let st ← asStats "st" "isFile" st
  let size : JsNumber := .fin (if st.isFile then st.size else 0)
  let buffer ← (if size = .fin 0 then readUnknownSize node fd isUserFd
    else readKnownSize node fd isUserFd size : SyncJs Buf)
  closeUnless node isUserFd fd
  if options.encoding.truthy then
    return .string (← node.decode options.encoding buffer)
  return .buffer buffer

/-! ### `writeFileSync` -/

/-- The buffer to be written. -/
def toBuffer (data encoding : Arg) : Except Err Buf :=
  match data with
  | .buffer b => .ok b
  | data => do
    let s ← node.toStr data
    let encoding ← node.toStr (encoding.orElse (.string "utf8".toList))
    return ofBytes (← node.bufferFrom (.prim (.string s)) encoding)

/-- The variables of the loop of `writeFileSync`. -/
structure Progress where
  offset : JsNumber
  length : JsNumber
  position : Option JsNumber

/-- A round of that loop. -/
def writeRound (fd : Arg) (buffer : Addr) (x : Progress) : SyncJs (Progress ⊕ Unit) := do
  if JsNumber.lt (.fin 0) x.length then
    let position := match x.position with
      | some p => .number p
      | none => .null
    let written ← writeBufferSync node fd buffer (.number x.offset) (.number x.length) position
    let n ← node.toNumber written
    return .inl ⟨x.offset.add n, x.length.sub n, x.position.map (·.add n)⟩
  else
    return .inr ()

def writeFileSync (path data options : Arg) : SyncJs Arg := do
  let options ← getOptions node options
    (.options (.string "utf8".toList) (.number (.fin 0o666)) (.string ['w']) none)
  let flag := options.flag.orElse (.string ['w'])
  let isUserFd ← isFd node path
  let fd ← (if isUserFd then pure path else openSync node path flag options.mode : SyncJs Arg)
  let data ← toBuffer node data options.encoding
  let buffer ← alloc (.bytes data)
  let flag ← node.toStr flag
  let position := if flag.contains 'a' then none else some (.fin 0)
  Comp.tryFinally (Comp.loop (writeRound node fd buffer) ⟨.fin 0, .fin data.length, position⟩)
    fun _ => closeUnless node isUserFd fd
  return .undefined

def appendFileSync (path data options : Arg) : SyncJs Arg := do
  let options ← getOptions node options
    (.options (.string "utf8".toList) (.number (.fin 0o666)) (.string ['a']) none)
  -- a file descriptor is appended to
  let append ← (if options.flag.truthy then isFd node path else .ok true : Except Err Bool)
  let flag := if append then .string ['a'] else options.flag
  let _ ← writeFileSync node path data (.options options.encoding options.mode flag none)
  return .undefined

/-! ### `realpathSync` -/

/-- The variables of `realpathSync`: the path `p`, and the position in it, the part of it
    before, with a slash, the directories known not to be links, the targets of the
    links seen, by device and inode, and the cache. -/
structure Walk where
  p : List Char
  pos : ℕ
  current : List Char
  knownHard : List (List Char)
  seenLinks : List ((ℤ × ℤ) × Arg)
  cache : Option Cache

namespace Walk

/-- `start`: goes back to the root of the path. -/
def start (w : Walk) (p : List Char) : Walk :=
  let root := p.takeWhile (· = '/')
  { w with p, pos := root.length, current := root }

/-- The characters that `.` does not match. -/
def isLineTerminator (c : Char) : Bool := c.toNat ∈ [0x0a, 0x0d, 0x2028, 0x2029]

/-- The next part of the path, with no slash, as `nextPartRe` finds it: after the last
    line terminator in it, if there are some. -/
def name (w : Walk) : List Char :=
  let part := (w.p.drop w.pos).takeWhile (· ≠ '/')
  (part.reverse.takeWhile fun c => !isLineTerminator c).reverse

/-- The path before the next part, with that part. -/
def base (w : Walk) : List Char := w.current ++ w.name

/-- Goes past the next part of the path. -/
def advance (w : Walk) : Walk :=
  let rest := w.p.drop w.pos
  let part := rest.takeWhile (· ≠ '/')
  let slashes := (rest.drop part.length).takeWhile (· = '/')
  { w with pos := w.pos + part.length + slashes.length, current := w.base ++ slashes }

/-- What the cache says of a path. -/
def cached (w : Walk) (path : List Char) : Option (List Char) :=
  match w.cache with
  | some cache => cache.lookup path
  | none => none

/-- The next part of the path is known not to be a link. -/
def isHard (w : Walk) : Bool := w.knownHard.contains w.base || w.cached w.base = some w.base

/-- The target of the next part of the path, as the cache has it. An empty one is not
    taken for one. -/
def target (w : Walk) : Option (List Char) := (w.cached w.base).filter (· ≠ [])

/-- The next part of the path is a link to `resolvedLink`. -/
def follow (w : Walk) (resolvedLink : List Char) : Except Err Walk := do
  let p ← node.resolve [.string resolvedLink, .string (w.p.drop w.advance.pos)]
  return w.start p

/-- The target of a link that is not in the cache. -/
def readTarget (w : Walk) (id : ℤ × ℤ) : SyncJs Arg :=
  match w.seenLinks.lookup id with
  | some linkTarget => return linkTarget
  | none => do
    let _ ← statSync node (.string w.base)
    readlinkSync node (.string w.base) .undefined

/-- A round of the loop of `realpathSync`. -/
def round (w : Walk) : SyncJs (Walk ⊕ List Char) := do
  if w.pos < w.p.length then
    if w.isHard then
      return .inl w.advance
    match w.target with
    | some resolvedLink => return .inl (← w.follow node resolvedLink)
    | none =>
      let stat ← lstatSync node (.string w.base)
      let stat ← asStats "stat" "isSymbolicLink" stat
      if !stat.isSymbolicLink then
        return .inl { w.advance with knownHard := w.base :: w.knownHard }
      let id := (stat.dev, stat.ino)
      let linkTarget ← w.readTarget node id
      let resolvedLink ← node.resolve [.string w.current, linkTarget]
      let w := { w with
        seenLinks := (id, linkTarget) :: w.seenLinks
        cache := w.cache.map ((w.base, resolvedLink) :: ·) }
      return .inl (← w.follow node resolvedLink)
  else
    return .inr w.p

end Walk

def encodeRealpathResult (result : List Char) (options : Arg) : Except Err Arg :=
  if !options.encoding.truthy ∨ options.encoding = .string "utf8".toList then
    return .string result
  else do
    let asBuffer ← node.bufferFrom (.prim (.string result)) "utf8".toList
    if options.encoding = .string bufferEncoding then
      return .buffer (ofBytes asBuffer)
    else
      return .string (← node.decode options.encoding (ofBytes asBuffer))

/-- What `realpathSync` does before its loop: it gives the result in the cache, or the
    variables of the loop. -/
def realpathStart (p options : Arg) : Except Err (List Char ⊕ Walk) := do
  nullCheck node p
  let p ← node.toStringUtf8 p
  let p ← node.resolve [.string p]
  let w := Walk.start ⟨p, 0, [], [], [], options.cache⟩ p
  match (w.cached p).filter (· ≠ []) with
  | some maybeCachedResult => return .inl maybeCachedResult
  | none => return .inr w

/-- The result is not added to the cache, which nothing reads then. -/
def realpathSync (p options : Arg) : SyncJs Arg := do
  let options ← getOptions node options noOptions
  match ← realpathStart node p options with
  | .inl maybeCachedResult => return .string maybeCachedResult
  | .inr w =>
    let p ← Comp.loop (Walk.round node) w
    encodeRealpathResult node p options

/-! ## Calls -/

/-- The calls of synchronous functions. -/
inductive Call
  | accessSync (path mode : Arg)
  | appendFileSync (path data options : Arg)
  | chmodSync (path mode : Arg)
  | chownSync (path uid gid : Arg)
  | closeSync (fd : Arg)
  | existsSync (path : Arg)
  | fchmodSync (fd mode : Arg)
  | fchownSync (fd uid gid : Arg)
  | fdatasyncSync (fd : Arg)
  | fstatSync (fd : Arg)
  | fsyncSync (fd : Arg)
  | ftruncateSync (fd len : Arg)
  | futimesSync (fd atime mtime : Arg)
  | lchmodSync (path mode : Arg)
  | lchownSync (path uid gid : Arg)
  | linkSync (existingPath newPath : Arg)
  | lstatSync (path : Arg)
  | mkdirSync (path mode : Arg)
  | mkdtempSync (pre options : Arg)
  | openSync (path flags mode : Arg)
  | readdirSync (path options : Arg)
  | readFileSync (path options : Arg)
  | readlinkSync (path options : Arg)
  | readSync (fd buffer offset length position : Arg)
  | realpathSync (p options : Arg)
  | renameSync (oldPath newPath : Arg)
  | rmdirSync (path : Arg)
  | statSync (path : Arg)
  | symlinkSync (target path type : Arg)
  | truncateSync (path len : Arg)
  | unlinkSync (path : Arg)
  | utimesSync (path atime mtime : Arg)
  | writeFileSync (path data options : Arg)
  | writeSync (fd buffer offset length position : Arg)

/-- What a call does. -/
def Call.main : Call → SyncJs Arg
  | accessSync path mode => Sync.accessSync node path mode
  | appendFileSync path data options => Sync.appendFileSync node path data options
  | chmodSync path mode => Sync.chmodSync node path mode
  | chownSync path uid gid => Sync.chownSync node path uid gid
  | closeSync fd => Sync.closeSync node fd
  | existsSync path => Sync.existsSync node path
  | fchmodSync fd mode => Sync.fchmodSync fd mode
  | fchownSync fd uid gid => Sync.fchownSync fd uid gid
  | fdatasyncSync fd => Sync.fdatasyncSync fd
  | fstatSync fd => Sync.fstatSync node fd
  | fsyncSync fd => Sync.fsyncSync fd
  | ftruncateSync fd len => Sync.ftruncateSync fd len
  | futimesSync fd atime mtime => Sync.futimesSync node fd atime mtime
  | lchmodSync path mode => Sync.lchmodSync node path mode
  | lchownSync path uid gid => Sync.lchownSync node path uid gid
  | linkSync existingPath newPath => Sync.linkSync node existingPath newPath
  | lstatSync path => Sync.lstatSync node path
  | mkdirSync path mode => Sync.mkdirSync node path mode
  | mkdtempSync pre options => Sync.mkdtempSync node pre options
  | openSync path flags mode => Sync.openSync node path flags mode
  | readdirSync path options => Sync.readdirSync node path options
  | readFileSync path options => Sync.readFileSync node path options
  | readlinkSync path options => Sync.readlinkSync node path options
  | readSync fd buffer offset length position =>
    Sync.readSync node fd buffer offset length position
  | realpathSync p options => Sync.realpathSync node p options
  | renameSync oldPath newPath => Sync.renameSync node oldPath newPath
  | rmdirSync path => Sync.rmdirSync node path
  | statSync path => Sync.statSync node path
  | symlinkSync target path type => Sync.symlinkSync node target path type
  | truncateSync path len => Sync.truncateSync node path len
  | unlinkSync path => Sync.unlinkSync node path
  | utimesSync path atime mtime => Sync.utimesSync node path atime mtime
  | writeFileSync path data options => Sync.writeFileSync node path data options
  | writeSync fd buffer offset length position =>
    Sync.writeSync node fd buffer offset length position

end Sync

end Fs

end NodeLkl
