import Mathlib.Data.List.TakeWhile
import NodeLkl.Fs.Calls

/-!
# Strings given to the kernel

The native module copies strings, encoded in UTF-8, to buffers that the kernel then reads:
the paths of system calls (`syscallString`), and the names of file systems (`mountString`).
Buffers are given as they are, and it is JavaScript code that adds the null byte.

* A path that takes as many bytes as the buffer has is copied, and its null byte is
  written after the end of the buffer; longer ones are rejected.
* The name of a file system is cut after 7 bytes, one less than the size of a pointer.

Other strings reach the kernel as they are (`intact_iff`).
-/

namespace NodeLkl

namespace Strings

open Fs (Buf ofBytes cString)

/-! ## UTF-8 -/

/-- A string: its UTF-16 code units. -/
abbrev JsString := List UInt16

/-- Whether a code unit is the first of a pair, or the second. -/
def isHigh (u : UInt16) : Bool := 0xd800 ≤ u.toNat && u.toNat < 0xdc00

@[inherit_doc isHigh]
def isLow (u : UInt16) : Bool := 0xdc00 ≤ u.toNat && u.toNat < 0xe000

/-- The code point for a code unit that is not in a pair. -/
def codePoint (u : UInt16) : ℕ := if isHigh u || isLow u then 0xfffd else u.toNat

/-- The code points of a string. -/
def codePoints : JsString → List ℕ
  | [] => []
  | [u] => [codePoint u]
  | u :: v :: s =>
    -- a pair stands for a code point past the basic plane
    if isHigh u && isLow v then
      (0x10000 + (u.toNat - 0xd800) * 0x400 + (v.toNat - 0xdc00)) :: codePoints s
    else codePoint u :: codePoints (v :: s)

/-- The bytes of a code point. -/
def encode (c : ℕ) : Bytes :=
  if c < 0x80 then [UInt8.ofNat c]
  else if c < 0x800 then [UInt8.ofNat (0xc0 + c / 0x40), UInt8.ofNat (0x80 + c % 0x40)]
  else if c < 0x10000 then
    [UInt8.ofNat (0xe0 + c / 0x1000), UInt8.ofNat (0x80 + c / 0x40 % 0x40),
      UInt8.ofNat (0x80 + c % 0x40)]
  else
    [UInt8.ofNat (0xf0 + c / 0x40000), UInt8.ofNat (0x80 + c / 0x1000 % 0x40),
      UInt8.ofNat (0x80 + c / 0x40 % 0x40), UInt8.ofNat (0x80 + c % 0x40)]

/-- The bytes of a string. -/
def utf8 (s : JsString) : Bytes := (codePoints s).flatMap encode

/-! ## Copies -/

/-- A copy to a buffer that was allocated: its size, and the bytes written, each with its
    index, one after the other. -/
structure Copy where
  size : ℕ
  writes : List (ℕ × UInt8)

namespace Copy

/-- Every byte is written to the buffer. -/
def InBounds (c : Copy) : Prop := ∀ w ∈ c.writes, w.1 < c.size

/-- The buffer, after the copy. -/
def buf (c : Copy) : Buf :=
  c.writes.foldl (fun b w => b.set w.1 (some w.2)) (List.replicate c.size none)

end Copy

/-- The string that starts at a pointer to `b`, without its null byte. -/
def cBytes (b : Bytes) : Bytes := b.takeWhile (· ≠ 0)

/-- The bytes written from the index `i` on. -/
def writeAt : ℕ → Bytes → List (ℕ × UInt8)
  | _, [] => []
  | i, b :: bs => (i, b) :: writeAt (i + 1) bs

/-- `strcpy`. -/
def strcpy (src : Bytes) : List (ℕ × UInt8) := writeAt 0 (cBytes src ++ [0])

/-- `strncpy`, which writes `n` bytes. -/
def strncpy (src : Bytes) (n : ℕ) : List (ℕ × UInt8) :=
  writeAt 0 ((cBytes src).take n ++ List.replicate (n - (cBytes src).length) 0)

/-- `LKL_PATH_MAX`. -/
def pathMax : ℕ := 4096

/-- The size of a pointer. -/
def pointerSize : ℕ := 8

/-- In `syscall_entry`, the copy of a string. There is none if the assertion fails. -/
def syscallString (s : JsString) : Option Copy :=
  if (cBytes (utf8 s)).length ≤ pathMax then some ⟨pathMax, strcpy (utf8 s)⟩ else none

/-- In `mount`, the copy of the name of a file system: `sizeof` is that of the pointer. -/
def mountString (s : JsString) : Copy :=
  ⟨10, strncpy (utf8 s) (pointerSize - 1) ++ [(pointerSize - 1, 0)]⟩

/-- What the kernel finds at the address of a buffer given for a path. -/
def bufferString (b : Bytes) : Option Bytes :=
  match Fs.Binding.addNullTerminationIfNeeded (.buffer b) with
  | .buffer b => cString (ofBytes b)
  | _ => none

/-! ## What reaches the kernel -/

/-- A copy stays in its buffer, and holds the string. -/
def Copy.Intact (c : Copy) (s : JsString) : Prop := c.InBounds ∧ cString c.buf = some (utf8 s)

/-- A path is rejected, or copied as it is. -/
def PathIntact (s : JsString) : Prop := ∀ c, syscallString s = some c → c.Intact s

/-- The kernel finds the same path in the copy of an accepted string and in a buffer. -/
def SameRoutes (s : JsString) : Prop :=
  ∀ c, syscallString s = some c → cString c.buf = bufferString (utf8 s)

/-- The name of a file system is copied as it is. -/
def FsNameIntact (s : JsString) : Prop := (mountString s).Intact s

/-! ## Null bytes -/

theorem lt_of_mem_codePoints {s : JsString} {c : ℕ} (hc : c ∈ codePoints s) : c < 0x110000 := by
  have hunit : ∀ u : UInt16, codePoint u < 0x110000 := by
    intro u
    have := u.toNat_lt
    rw [codePoint]
    split <;> omega
  fun_induction codePoints s with
  | case1 => simp at hc
  | case2 u =>
    rw [List.mem_singleton.mp hc]
    exact hunit u
  | case3 u v s hpair ih =>
    rcases List.mem_cons.mp hc with hpoint | hc
    · simp only [isHigh, isLow, Bool.and_eq_true, decide_eq_true_eq] at hpair
      omega
    · exact ih hc
  | case4 u v s _ ih =>
    -- a unit which is not in a pair stands for itself, or is replaced
    rcases List.mem_cons.mp hc with rfl | hc
    · exact hunit u
    · exact ih hc

theorem codePoint_eq_zero_iff {u : UInt16} : codePoint u = 0 ↔ u = 0 := by
  have hu : u.toNat = 0 ↔ u = 0 := by rw [← UInt16.toNat_inj, UInt16.toNat_zero]
  rw [← hu, codePoint]
  split
  · rename_i h
    simp only [isHigh, isLow, Bool.or_eq_true, Bool.and_eq_true, decide_eq_true_eq] at h
    omega
  · rfl

theorem zero_mem_codePoints_iff {s : JsString} : 0 ∈ codePoints s ↔ 0 ∈ s := by
  fun_induction codePoints s with
  | case1 => simp
  | case2 u => rw [List.mem_singleton, List.mem_singleton, eq_comm, codePoint_eq_zero_iff, eq_comm]
  | case3 u v s hpair ih =>
    -- Neither unit of a pair is null, and nor is what the pair stands for.
    have hu : u ≠ 0 := by
      rintro rfl
      simp [isHigh] at hpair
    have hv : v ≠ 0 := by
      rintro rfl
      simp [isLow] at hpair
    have hpoint : 0 ≠ 0x10000 + (u.toNat - 0xd800) * 0x400 + (v.toNat - 0xdc00) := by omega
    simp only [List.mem_cons, ih, hu.symm, hv.symm, hpoint, false_or]
  | case4 u v s _ ih =>
    have hu : 0 = codePoint u ↔ 0 = u := by
      rw [eq_comm, codePoint_eq_zero_iff, eq_comm]
    rw [List.mem_cons, List.mem_cons, ih, hu]

theorem zero_mem_encode_iff {c : ℕ} (hc : c < 0x110000) : 0 ∈ encode c ↔ c = 0 := by
  have hbyte : ∀ n < 256, (0 : UInt8) = UInt8.ofNat n ↔ n = 0 := by
    intro n hn
    rw [← UInt8.toNat_inj, UInt8.toNat_ofNat', UInt8.toNat_zero]
    omega
  rw [encode]
  split_ifs
  all_goals
    simp only [List.mem_cons, List.not_mem_nil, or_false]
    repeat rw [hbyte _ (by omega)]
    try omega

theorem zero_mem_utf8_iff {s : JsString} : 0 ∈ utf8 s ↔ 0 ∈ s := by
  rw [← zero_mem_codePoints_iff, utf8, List.mem_flatMap]
  refine ⟨?_, ?_⟩
  · rintro ⟨c, hc, hzero⟩
    rwa [(zero_mem_encode_iff (lt_of_mem_codePoints hc)).mp hzero] at hc
  · intro h
    exact ⟨0, h, by decide⟩

/-! ## Bytes written -/

theorem cBytes_of_notMem {b : Bytes} (h : 0 ∉ b) : cBytes b = b := by
  rw [cBytes, List.takeWhile_eq_self_iff]
  intro x hx
  have hne : x ≠ 0 := fun hzero => h (hzero ▸ hx)
  simpa using hne

theorem zero_notMem_cBytes (b : Bytes) : 0 ∉ cBytes b := by
  intro h
  have := List.mem_takeWhile_imp h
  simp at this

theorem writeAt_append (i : ℕ) (a b : Bytes) :
    writeAt i (a ++ b) = writeAt i a ++ writeAt (i + a.length) b := by
  induction a generalizing i with
  | nil => rfl
  | cons x a ih =>
    rw [List.cons_append, writeAt, writeAt, ih, List.cons_append, List.length_cons,
      Nat.add_assoc, Nat.add_comm 1]

/-- Bytes written from the start stay in the buffer if it has room for them. -/
theorem inBounds_writeAt_iff (n : ℕ) (b : Bytes) :
    (Copy.mk n (writeAt 0 b)).InBounds ↔ b.length ≤ n := by
  have hmem : ∀ i, (∀ w ∈ writeAt i b, w.1 < n) ↔ b = [] ∨ i + b.length ≤ n := by
    induction b with
    | nil => simp [writeAt]
    | cons x b ih =>
      intro i
      rw [writeAt, List.forall_mem_cons, ih]
      rcases b with _ | ⟨y, b⟩
      all_goals
        simp only [List.length_cons, List.length_nil, reduceCtorEq, true_or, false_or, and_true]
        omega
  rw [Copy.InBounds, hmem]
  rcases b with _ | ⟨x, b⟩
  all_goals simp

theorem foldl_writeAt (l₁ : Buf) {l₂ : Buf} {b : Bytes} (h : b.length ≤ l₂.length) :
    (writeAt l₁.length b).foldl (fun l w => l.set w.1 (some w.2)) (l₁ ++ l₂) =
      l₁ ++ ofBytes b ++ l₂.drop b.length := by
  -- `l₁` is what was written, and `l₂` what the bytes left to write replace.
  induction b generalizing l₁ l₂ with
  | nil => simp [writeAt, ofBytes]
  | cons x b ih =>
    rcases l₂ with _ | ⟨y, l₂⟩
    · simp at h
    · have hset : (l₁ ++ y :: l₂).set l₁.length (some x) = (l₁ ++ [some x]) ++ l₂ := by simp
      have hlen : l₁.length + 1 = (l₁ ++ [some x]).length := by simp
      rw [writeAt, List.foldl_cons, hset, hlen, ih _ (by simpa using h)]
      simp [ofBytes]

theorem buf_writeAt {n : ℕ} {b : Bytes} (h : b.length ≤ n) :
    (Copy.mk n (writeAt 0 b)).buf = ofBytes b ++ List.replicate (n - b.length) none := by
  have hroom : b.length ≤ (List.replicate n (none : Option UInt8)).length := by simpa using h
  have hfold := foldl_writeAt [] hroom
  simpa [Copy.buf] using hfold

/-- What is read after bytes were written with a null one. -/
theorem cString_buf_writeAt {n : ℕ} {a b : Bytes} (ha : 0 ∉ a)
    (h : (a ++ 0 :: b).length ≤ n) :
    cString (Copy.mk n (writeAt 0 (a ++ 0 :: b))).buf = some a := by
  rw [buf_writeAt h, ofBytes, List.map_append, List.map_cons, List.append_assoc, List.cons_append]
  exact Fs.cString_append ha _

/-! ## Copies that are intact -/

theorem pathIntact_iff {s : JsString} (hs : 0 ∉ s) :
    PathIntact s ∧ SameRoutes s ↔ (utf8 s).length ≠ pathMax := by
  have hnull : 0 ∉ utf8 s := mt zero_mem_utf8_iff.mp hs
  have hcopy : syscallString s = if (utf8 s).length ≤ pathMax then
      some ⟨pathMax, writeAt 0 (utf8 s ++ [0])⟩ else none := by
    rw [syscallString, strcpy, cBytes_of_notMem hnull]
  have hbuffer : bufferString (utf8 s) = some (utf8 s) := by
    have hof : ofBytes (utf8 s ++ [0]) = ofBytes (utf8 s) ++ some 0 :: [] := by simp [ofBytes]
    have hread := Fs.cString_append hnull []
    rwa [← hof] at hread
  refine ⟨?_, ?_⟩
  · -- A string of the size of the buffer is accepted, and its null byte has no room.
    rintro ⟨hintact, -⟩ hlen
    rw [if_pos (Nat.le_of_eq hlen)] at hcopy
    have hbounds := (inBounds_writeAt_iff _ _).mp (hintact _ hcopy).1
    simp only [List.length_append, List.length_singleton] at hbounds
    omega
  · intro hlen
    by_cases hle : (utf8 s).length ≤ pathMax
    · rw [if_pos hle] at hcopy
      have hroom : (utf8 s ++ [0]).length ≤ pathMax := by
        simp only [List.length_append, List.length_singleton]
        omega
      have hread := cString_buf_writeAt (b := []) hnull hroom
      refine ⟨?_, ?_⟩
      · intro c hc
        obtain rfl := Option.some.inj (hcopy.symm.trans hc)
        exact ⟨(inBounds_writeAt_iff _ _).mpr hroom, hread⟩
      · intro c hc
        obtain rfl := Option.some.inj (hcopy.symm.trans hc)
        exact hread.trans hbuffer.symm
    · rw [if_neg hle] at hcopy
      refine ⟨?_, ?_⟩
      all_goals
        intro c hc
        rw [hcopy] at hc
        cases hc

/-- The bytes written for the name of a file system: 7 of them at most, and null ones up
    to the size of a pointer. -/
theorem mountString_eq (s : JsString) : ∃ zeros,
    mountString s = ⟨10, writeAt 0 ((cBytes (utf8 s)).take 7 ++ 0 :: zeros)⟩ ∧
      ((cBytes (utf8 s)).take 7 ++ 0 :: zeros).length = 8 := by
  have hpad : ∀ n, List.replicate n (0 : UInt8) ++ [0] = 0 :: List.replicate n 0 := fun n => by
    rw [← List.replicate_succ', List.replicate_succ]
  refine ⟨List.replicate (7 - (cBytes (utf8 s)).length) 0, ?_, ?_⟩
  · rw [← hpad, ← List.append_assoc, writeAt_append, mountString, strncpy]
    have hlen : ((cBytes (utf8 s)).take 7 ++
        List.replicate (7 - (cBytes (utf8 s)).length) (0 : UInt8)).length = 7 := by
      simp only [List.length_append, List.length_take, List.length_replicate]
      omega
    rw [hlen]
    rfl
  · simp only [List.length_append, List.length_cons, List.length_take, List.length_replicate]
    omega

theorem fsNameIntact_iff (s : JsString) :
    FsNameIntact s ↔ 0 ∉ s ∧ (utf8 s).length < pointerSize := by
  obtain ⟨zeros, hcopy, hlen⟩ := mountString_eq s
  have hnull : 0 ∉ (cBytes (utf8 s)).take 7 :=
    fun h => zero_notMem_cBytes _ (List.mem_of_mem_take h)
  have hread := cString_buf_writeAt (n := 10) (b := zeros) hnull (by omega)
  rw [FsNameIntact, Copy.Intact, hcopy, inBounds_writeAt_iff, hread, Option.some_inj,
    ← zero_mem_utf8_iff]
  refine ⟨?_, ?_⟩
  · rintro ⟨-, heq⟩
    have hshort := congrArg List.length heq
    rw [List.length_take] at hshort
    refine ⟨heq ▸ hnull, ?_⟩
    rw [pointerSize]
    omega
  · rintro ⟨hzero, hshort⟩
    rw [pointerSize] at hshort
    refine ⟨by omega, ?_⟩
    rw [cBytes_of_notMem hzero]
    exact List.take_of_length_le (by omega)

/-- A path is rejected, or reaches the kernel as it is and as it does from a buffer, unless
    it takes as many bytes as the buffer has. The name of a file system reaches the kernel
    as it is if it has no null byte, and less bytes than a pointer. -/
theorem intact_iff (s : JsString) :
    (0 ∉ s → (PathIntact s ∧ SameRoutes s ↔ (utf8 s).length ≠ pathMax)) ∧
      (FsNameIntact s ↔ 0 ∉ s ∧ (utf8 s).length < pointerSize) :=
  ⟨pathIntact_iff, fsNameIntact_iff s⟩

/-- `ext4`. -/
def ext4 : JsString := [101, 120, 116, 52]

theorem intact_ext4 : 0 ∉ ext4 ∧ PathIntact ext4 ∧ SameRoutes ext4 ∧ FsNameIntact ext4 := by
  have hs : 0 ∉ ext4 := by decide
  obtain ⟨hpath, hname⟩ := intact_iff ext4
  have hlen : (utf8 ext4).length = 4 := by decide
  obtain ⟨hintact, hsame⟩ := (hpath hs).mpr (by rw [hlen]; decide)
  exact ⟨hs, hintact, hsame, hname.mpr ⟨hs, by rw [hlen]; decide⟩⟩

/-- `squashfs`. -/
def squashfs : JsString := [115, 113, 117, 97, 115, 104, 102, 115]

theorem length_utf8_replicate (n : ℕ) : (utf8 (List.replicate n 97)).length = n := by
  have hpoints : codePoints (List.replicate n 97) = List.replicate n 97 := by
    induction n with
    | zero => rfl
    | succ n ih =>
      rcases n with _ | n
      · rfl
      · rw [List.replicate_succ, List.replicate_succ, codePoints, if_neg (by decide),
          ← List.replicate_succ, ih, List.replicate_succ]
        rfl
  have hbyte : ∀ m, ((List.replicate m 97).flatMap encode).length = m := by
    intro m
    induction m with
    | zero => rfl
    | succ m ih =>
      rw [List.replicate_succ, List.flatMap_cons, List.length_append, ih, Nat.add_comm]
      rfl
  rw [utf8, hpoints, hbyte]

/-- `squashfs` is cut, and the null byte of a path of 4096 bytes is after its buffer. -/
theorem not_intact_squashfs : (0 ∉ squashfs ∧ ¬ FsNameIntact squashfs) ∧
    0 ∉ List.replicate 4096 (97 : UInt16) ∧ ¬ PathIntact (List.replicate 4096 97) := by
  have hnull : 0 ∉ List.replicate 4096 (97 : UInt16) := by
    intro h
    have := List.eq_of_mem_replicate h
    exact absurd this (by decide)
  have hlen := length_utf8_replicate 4096
  refine ⟨⟨by decide, ?_⟩, hnull, ?_⟩
  · rw [fsNameIntact_iff]
    decide
  · intro hintact
    have hcopy : syscallString (List.replicate 4096 97) =
        some ⟨pathMax, strcpy (utf8 (List.replicate 4096 97))⟩ := by
      rw [syscallString, cBytes_of_notMem (mt zero_mem_utf8_iff.mp hnull), hlen]
      exact if_pos (Nat.le_refl _)
    have hbounds := (hintact _ hcopy).1
    rw [strcpy, inBounds_writeAt_iff, cBytes_of_notMem (mt zero_mem_utf8_iff.mp hnull),
      List.length_append, hlen] at hbounds
    exact absurd hbounds (by decide)

end Strings

end NodeLkl
