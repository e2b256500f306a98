import NodeLkl.Base.Js

/-!
# Structures of the kernel

What the kernel writes to the buffers it is given, and what the native module
makes of it: `struct stat`, which becomes a `Stats` object (`parseLklStat`), and
sequences of `struct linux_dirent64`, which become names (`parseDirent64`).

A byte of a buffer may not have been written yet: it is then `none`.
-/

namespace NodeLkl

namespace Fs

/-- A buffer, some bytes of which may not have been written. -/
abbrev Buf := List (Option UInt8)

/-- The buffer holding `b`. -/
def ofBytes (b : Bytes) : Buf := b.map some

/-! ## Status of files -/

/-- `struct stat`. -/
structure LklStat where
  stDev : BitVec 64
  stIno : BitVec 64
  stMode : BitVec 32
  stNlink : BitVec 32
  stUid : BitVec 32
  stGid : BitVec 32
  stRdev : BitVec 64
  stSize : BitVec 64
  stBlksize : BitVec 32
  stBlocks : BitVec 64
  stAtime : BitVec 64
  stAtimeNsec : BitVec 64
  stMtime : BitVec 64
  stMtimeNsec : BitVec 64
  stCtime : BitVec 64
  stCtimeNsec : BitVec 64
  deriving DecidableEq

/-- The structure in a buffer full of zeros. -/
def LklStat.zero : LklStat := ⟨0, 0, 0, 0, 0, 0, 0, 0, 0, 0, 0, 0, 0, 0, 0, 0⟩

/-- A `Stats` object, with its times in milliseconds. -/
structure Stats where
  dev : ℤ
  mode : ℤ
  nlink : ℤ
  uid : ℤ
  gid : ℤ
  rdev : ℤ
  blksize : ℤ
  ino : ℤ
  size : ℤ
  blocks : ℤ
  atime : ℤ
  mtime : ℤ
  ctime : ℤ
  birthtime : ℤ
  deriving DecidableEq

/-- The conversion of an integer to a signed one of 32 bits. -/
def castInt32 {w : ℕ} (x : BitVec w) : ℤ := (x.setWidth 32).toInt

/-- The conversion of an integer to an unsigned one of 32 bits. -/
def castUint32 {w : ℕ} (x : BitVec w) : ℤ := (x.setWidth 32).toNat

/-- A time in milliseconds. -/
def timespecToMilliseconds (seconds nanoseconds : BitVec 64) : ℤ :=
  seconds.toInt * 1000 + nanoseconds.toInt.tdiv 1000000

def parseLklStat (s : LklStat) : Stats where
  dev := castInt32 s.stDev
  mode := castInt32 s.stMode
  nlink := castInt32 s.stNlink
  uid := castUint32 s.stUid
  gid := castUint32 s.stGid
  rdev := castInt32 s.stRdev
  blksize := castInt32 s.stBlksize
  ino := castUint32 s.stIno
  size := castUint32 s.stSize
  blocks := castUint32 s.stBlocks
  atime := timespecToMilliseconds s.stAtime s.stAtimeNsec
  mtime := timespecToMilliseconds s.stMtime s.stMtimeNsec
  ctime := timespecToMilliseconds s.stCtime s.stCtimeNsec
  birthtime := timespecToMilliseconds s.stCtime s.stCtimeNsec

/-- The bits of the mode telling the type of a file (`S_IFMT`). -/
def sIfmt : BitVec 32 := 0o170000

/-- The type of a regular file (`S_IFREG`). -/
def sIfreg : BitVec 32 := 0o100000

/-- The type of a symbolic link (`S_IFLNK`). -/
def sIflnk : BitVec 32 := 0o120000

/-- Whether the type of a file is `property`. -/
def Stats.checkModeProperty (st : Stats) (property : BitVec 32) : Bool :=
  BitVec.ofInt 32 st.mode &&& sIfmt == property

def Stats.isFile (st : Stats) : Bool := st.checkModeProperty sIfreg

def Stats.isSymbolicLink (st : Stats) : Bool := st.checkModeProperty sIflnk

/-! ## Entries of directories -/

/-- The string that starts a buffer, up to a null byte, which there must be. -/
def cString : Buf → Option Bytes
  | some 0 :: _ => some []
  | some b :: bs => (cString bs).map (b :: ·)
  | _ => none

theorem cString_append {name : Bytes} (hname : 0 ∉ name) (bs : Buf) :
    cString (ofBytes name ++ some 0 :: bs) = some name := by
  induction name with
  | nil => rfl
  | cons b name ih =>
    simp only [List.mem_cons, not_or] at hname
    have hb : b ≠ 0 := Ne.symm hname.1
    have hrest : cString (ofBytes name ++ some 0 :: bs) = some name := ih hname.2
    simp only [ofBytes, List.map_cons, List.cons_append]
    rw [cString, ← ofBytes, hrest]
    · rfl
    · simpa using hb

/-- The 16-bit integer that starts a buffer. -/
def uint16 : Buf → Option ℕ
  | some lo :: some hi :: _ => some (lo.toNat + 256 * hi.toNat)
  | _ => none

/-- The most bytes in the name of a file (`LKL_NAME_MAX`). -/
def nameMax : ℕ := 255

/-- The offset of `d_reclen` in `struct linux_dirent64`. -/
def dReclen : ℕ := 16

/-- The offset of `d_name`. -/
def dName : ℕ := 19

/-- The names of the entries in a buffer, but for `.` and `..`. There is no result
    if it is not made of whole entries: the buffer is then read out of its bounds,
    or forever. -/
def parseDirent64 (buf : Buf) : Option (List Bytes) :=
  if _h : buf = [] then some []
  else
    match uint16 (buf.drop dReclen), cString (buf.drop dName) with
    -- an entry of length zero would be read again and again
    | some (reclen + 1), some name => (parseDirent64 (buf.drop (reclen + 1))).map fun names =>
        if name = [46] ∨ name = [46, 46] then names else name.take nameMax :: names
    | _, _ => none
termination_by buf.length
decreasing_by
  have := List.length_pos_of_ne_nil _h
  grind

end Fs

end NodeLkl
