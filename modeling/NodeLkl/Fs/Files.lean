import NodeLkl.Base.Environment
import NodeLkl.Base.File
import NodeLkl.Fs.Spec

/-!
# The file of a call

The kernel has a file, which calls of `fs` open by its path, or for which the user has a
descriptor (`Kernel`). It is the environment of the system calls (`kernel`):

* a write stores some of the bytes of the memory it is given, at least one if there is any;
* a read gives the bytes of the file that are there, at least one unless the file is at its
  end;
* these, and opening or closing the file, may fail instead. The status of the file can be
  had, but nothing is said of it.
-/

namespace NodeLkl

namespace Fs

open EventLoop (Environment)

/-- The file, and its descriptor if it is open. -/
structure Kernel where
  file : OpenFile UInt8
  fd : Option ℤ

namespace Kernel

/-- A file that has not been opened. -/
def unopened (contents : Bytes) : Kernel := ⟨⟨contents, 0, false⟩, none⟩

/-- What is kept of the file when it is opened. -/
def kept (k : Kernel) (flags : ℕ) : Bytes := if flags &&& oTrunc = 0 then k.file.contents else []

/-- The file is opened, with the descriptor `fd`. -/
def opened (k : Kernel) (flags : ℕ) (fd : ℤ) : Kernel where
  file :=
    { contents := k.kept flags
      offset := 0
      append := flags &&& oAppend ≠ 0 }
  fd := some fd

/-- What was not initialised may be anything, which is taken to be `0`. -/
def bytesOf (b : Buf) : Bytes := b.map (·.getD 0)

@[simp]
theorem bytesOf_ofBytes (b : Bytes) : bytesOf (ofBytes b) = b := by
  simp [bytesOf, ofBytes, Function.comp_def]

/-- The first `n` bytes of a part of the memory are stored, if the descriptor is that of the
    file. -/
def store (k : Kernel) (m : Mem) (fd : ℤ) (s : Slice) (p : Option ℕ) (n : ℕ) : Kernel :=
  if k.fd = some fd then { k with file := k.file.put 0 p (bytesOf ((m.contents s).take n)) } else k

/-- The replies to system calls. -/
def Allows (k : Kernel) : Syscall → Reply → Prop
  | .read fd s, .ok ret data _ => k.fd = some fd →
    data = k.file.get k.file.offset ret ∧
      (ret = 0 → s.length = 0 ∨ k.file.contents.length ≤ k.file.offset)
  | .pread64 fd s p, .ok ret data _ => k.fd = some fd →
    data = k.file.get p.toNat ret ∧ (ret = 0 → s.length = 0 ∨ k.file.contents.length ≤ p.toNat)
  | .write _ s, .ok ret _ _ | .pwrite64 _ s _, .ok ret _ _ => ret = 0 → s.length = 0
  | .fstat _ _, .error _ => False
  | _, _ => True

/-- What system calls do to the file. -/
def effect (k : Kernel) (m : Mem) : Syscall → Reply → Kernel
  | .openat _ flags _, .ok ret _ _ => k.opened flags ret
  | .read fd _, .ok ret _ _ =>
    if k.fd = some fd then { k with file := { k.file with offset := k.file.offset + ret } } else k
  | .write fd s, .ok ret _ _ => k.store m fd s none ret
  | .pwrite64 fd s p, .ok ret _ _ => k.store m fd s (some p.toNat) ret
  | .close fd, _ => if k.fd = some fd then { k with fd := none } else k
  | _, _ => k

end Kernel

/-- The file, as the environment of system calls. -/
def kernel : Environment Mem Syscall Reply Kernel where
  Allows := Kernel.Allows
  effect := Kernel.effect

/-- A call of `fs`, and the file. -/
abbrev world (host : Host) : System (Loop × Kernel) Event :=
  EventLoop.within (program host) kernel

/-- Every system call may be replied to. -/
theorem exists_reply_kernel (k : Kernel) (call : Syscall) :
    ∃ r, Fits call r ∧ k.Allows call r := by
  cases call with
  | fstat fd buf => exact ⟨.ok 0 [] .zero, trivial, trivial⟩
  | _ => exact ⟨.error 0, trivial, trivial⟩

/-! ## Errors -/

/-- The error of a system call. -/
def Reply.errno : Reply → Option ℕ
  | error n => some n
  | ok _ _ _ => none

/-- The error of the first system call of a kind that failed. -/
def errorOf (kind : Syscall → Bool) (log : Log) : Option ℕ :=
  log.findSome? fun x => if kind x.1 then x.2.errno else none

@[simp]
theorem errorOf_concat (kind : Syscall → Bool) (log : Log) (call : Syscall) (r : Reply) :
    errorOf kind (log ++ [(call, r)]) =
      (errorOf kind log).or (if kind call then r.errno else none) := by
  cases h : if kind call then r.errno else none <;> simp [errorOf, List.findSome?_append, h]

/-- The error of the first system call that failed. -/
abbrev firstError : Log → Option ℕ := errorOf fun _ => true

end Fs

end NodeLkl
