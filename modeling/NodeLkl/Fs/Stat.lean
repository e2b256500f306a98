import NodeLkl.Fs.Calls

/-!
# Numbers from the kernel

The native module makes JavaScript numbers of the integers of the kernel, and back.

* `parseLklStat` converts most fields of `struct stat` to 32-bit integers first: the
  numbers are those of the structure if, and only if, they fit (`exact_iff_narrow`). So a
  file of 4 GiB has the size `0`.
* Times are in seconds and nanoseconds in the kernel, and in milliseconds in JavaScript.
  The conversions are inverse of each other, but for the instants before 1970 that are not
  whole numbers of seconds, which are rounded the wrong way (`roundTrips_iff`).
-/

namespace NodeLkl

namespace Fs

/-! ## Conversions to 32 bits -/

theorem castUint32_eq_iff {w : ℕ} (x : BitVec w) : castUint32 x = x.toNat ↔ x.toNat < 2 ^ 32 := by
  rw [castUint32, BitVec.toNat_setWidth]
  constructor
  · intro h
    have := Nat.mod_lt x.toNat (Nat.two_pow_pos 32)
    omega
  · intro h
    rw [Nat.mod_eq_of_lt h]

theorem castInt32_eq_iff {w : ℕ} (x : BitVec w) : castInt32 x = x.toNat ↔ x.toNat < 2 ^ 31 := by
  rw [castInt32, BitVec.toInt_setWidth]
  constructor
  · intro h
    have := Int.bmod_lt (x := x.toNat) (Nat.two_pow_pos 32)
    omega
  · intro h
    exact Int.bmod_eq_of_le (by omega) (by omega)

/-! ## Status of files -/

/-- The structures whose numbers doubles can hold, with times that have less than a second of
    nanoseconds. -/
structure LklStat.InRange (s : LklStat) : Prop where
  dev : s.stDev.toNat < 2 ^ 53
  ino : s.stIno.toNat < 2 ^ 53
  rdev : s.stRdev.toNat < 2 ^ 53
  size : 0 ≤ s.stSize.toInt ∧ s.stSize.toInt < 2 ^ 53
  blksize : 0 ≤ s.stBlksize.toInt
  blocks : 0 ≤ s.stBlocks.toInt ∧ s.stBlocks.toInt < 2 ^ 53
  atime : |s.stAtime.toInt| * 1000 < 2 ^ 52 ∧ s.stAtimeNsec.toNat < 10 ^ 9
  mtime : |s.stMtime.toInt| * 1000 < 2 ^ 52 ∧ s.stMtimeNsec.toNat < 10 ^ 9
  ctime : |s.stCtime.toInt| * 1000 < 2 ^ 52 ∧ s.stCtimeNsec.toNat < 10 ^ 9

/-- Whether a file is a regular one. -/
def LklStat.IsRegular (s : LklStat) : Prop := s.stMode &&& sIfmt = sIfreg

/-- The numbers of `st` are those of `s`, the times being in milliseconds; and `readFile`
    takes the size of a regular file for what it is. -/
structure Exact (s : LklStat) (st : Stats) : Prop where
  dev : st.dev = s.stDev.toNat
  mode : st.mode = s.stMode.toNat
  nlink : st.nlink = s.stNlink.toNat
  uid : st.uid = s.stUid.toNat
  gid : st.gid = s.stGid.toNat
  rdev : st.rdev = s.stRdev.toNat
  blksize : st.blksize = s.stBlksize.toInt
  ino : st.ino = s.stIno.toNat
  size : st.size = s.stSize.toInt
  blocks : st.blocks = s.stBlocks.toInt
  atime : st.atime = s.stAtime.toInt * 1000 + s.stAtimeNsec.toNat / 10 ^ 6
  mtime : st.mtime = s.stMtime.toInt * 1000 + s.stMtimeNsec.toNat / 10 ^ 6
  ctime : st.ctime = s.stCtime.toInt * 1000 + s.stCtimeNsec.toNat / 10 ^ 6
  birthtime : st.birthtime = st.ctime
  knownSize : s.IsRegular → knownSize st = s.stSize.toInt

/-- The numbers fit in the integers they are converted to. -/
structure LklStat.Narrow (s : LklStat) : Prop where
  dev : s.stDev.toNat < 2 ^ 31
  mode : s.stMode.toNat < 2 ^ 31
  nlink : s.stNlink.toNat < 2 ^ 31
  rdev : s.stRdev.toNat < 2 ^ 31
  ino : s.stIno.toNat < 2 ^ 32
  size : s.stSize.toNat < 2 ^ 32
  blocks : s.stBlocks.toNat < 2 ^ 32

/-- A time is exact. -/
theorem timespecToMilliseconds_eq {seconds nanoseconds : BitVec 64}
    (h : nanoseconds.toNat < 10 ^ 9) : timespecToMilliseconds seconds nanoseconds =
      seconds.toInt * 1000 + nanoseconds.toNat / 10 ^ 6 := by
  have hint : nanoseconds.toInt = nanoseconds.toNat :=
    BitVec.toInt_eq_toNat_of_lt (by omega)
  rw [timespecToMilliseconds, hint, Int.tdiv_eq_ediv_of_nonneg (Int.natCast_nonneg _)]
  rfl

theorem toInt_eq_toNat_of_nonneg {w : ℕ} {x : BitVec w} (h : 0 ≤ x.toInt) : x.toInt = x.toNat := by
  rw [BitVec.toInt_eq_toNat_cond] at h ⊢
  split
  · rfl
  · rw [if_neg ‹_›] at h
    have := x.isLt
    omega

/-- The type of a file is not lost with its mode. -/
theorem isFile_parseLklStat (s : LklStat) : (parseLklStat s).isFile ↔ s.IsRegular := by
  simp [Stats.isFile, Stats.checkModeProperty, parseLklStat, castInt32, LklStat.IsRegular]

theorem exact_of_narrow {s : LklStat} (h : s.InRange) (hn : s.Narrow) :
    Exact s (parseLklStat s) := by
  have hsize : castUint32 s.stSize = s.stSize.toInt := by
    rw [toInt_eq_toNat_of_nonneg h.size.1, castUint32_eq_iff]
    exact hn.size
  have hblksize : castInt32 s.stBlksize = s.stBlksize.toInt := by
    rw [castInt32, BitVec.setWidth_eq]
  have hblocks : castUint32 s.stBlocks = s.stBlocks.toInt := by
    rw [toInt_eq_toNat_of_nonneg h.blocks.1, castUint32_eq_iff]
    exact hn.blocks
  refine ⟨(castInt32_eq_iff _).2 hn.dev, (castInt32_eq_iff _).2 hn.mode,
    (castInt32_eq_iff _).2 hn.nlink, (castUint32_eq_iff _).2 s.stUid.isLt,
    (castUint32_eq_iff _).2 s.stGid.isLt, (castInt32_eq_iff _).2 hn.rdev, hblksize,
    (castUint32_eq_iff _).2 hn.ino, hsize, hblocks, timespecToMilliseconds_eq h.atime.2,
    timespecToMilliseconds_eq h.mtime.2, timespecToMilliseconds_eq h.ctime.2, rfl, ?_⟩
  intro hregular
  rw [knownSize, if_pos ((isFile_parseLklStat s).2 hregular)]
  change ((castUint32 s.stSize).toNat : ℤ) = _
  rw [hsize, Int.toNat_of_nonneg h.size.1]

theorem narrow_of_exact {s : LklStat} (h : s.InRange) (he : Exact s (parseLklStat s)) :
    s.Narrow := by
  refine ⟨(castInt32_eq_iff _).1 he.dev, (castInt32_eq_iff _).1 he.mode,
    (castInt32_eq_iff _).1 he.nlink, (castInt32_eq_iff _).1 he.rdev,
    (castUint32_eq_iff _).1 he.ino, ?_, ?_⟩
  · rw [← castUint32_eq_iff, ← toInt_eq_toNat_of_nonneg h.size.1]
    exact he.size
  · rw [← castUint32_eq_iff, ← toInt_eq_toNat_of_nonneg h.blocks.1]
    exact he.blocks

/-- The numbers are right if, and only if, they fit; files that differ are then told apart. -/
theorem exact_iff_narrow {s : LklStat} (h : s.InRange) :
    (Exact s (parseLklStat s) ↔ s.Narrow) ∧
      ∀ s' : LklStat, s'.InRange → s.Narrow → s'.Narrow →
        ((s.stDev, s.stIno) ≠ (s'.stDev, s'.stIno) →
          ((parseLklStat s).dev, (parseLklStat s).ino) ≠
            ((parseLklStat s').dev, (parseLklStat s').ino)) ∧
        (s.stSize ≠ s'.stSize → (parseLklStat s).size ≠ (parseLklStat s').size) := by
  refine ⟨⟨narrow_of_exact h, exact_of_narrow h⟩, fun s' h' hn hn' => ?_⟩
  have he := exact_of_narrow h hn
  have he' := exact_of_narrow h' hn'
  constructor
  · intro hne heq
    rw [Prod.mk.injEq, he.dev, he'.dev, he.ino, he'.ino, Nat.cast_inj, Nat.cast_inj] at heq
    exact hne (Prod.ext (BitVec.eq_of_toNat_eq heq.1) (BitVec.eq_of_toNat_eq heq.2))
  · intro hne heq
    rw [he.size, he'.size] at heq
    exact hne (BitVec.eq_of_toInt_eq heq)

/-- A regular file of `n` bytes. -/
def regularFile (n : BitVec 64) : LklStat :=
  { LklStat.zero with stMode := 0o100644, stNlink := 1, stSize := n, stBlksize := 4096 }

theorem exact_regularFile :
    (regularFile 5).InRange ∧ Exact (regularFile 5) (parseLklStat (regularFile 5)) := by
  have h : (regularFile 5).InRange := by constructor <;> decide
  exact ⟨h, (exact_iff_narrow h).1.2 (by constructor <;> decide)⟩

/-- The size of a file of 4 GiB is lost. -/
theorem not_exact_largeFile :
    (regularFile 0x100000000).InRange ∧
      ¬Exact (regularFile 0x100000000) (parseLklStat (regularFile 0x100000000)) := by
  refine ⟨by constructor <;> decide, fun he => ?_⟩
  have hsize := he.size
  revert hsize
  decide

/-! ## Instants -/

/-- `struct timespec`. -/
@[ext]
structure Timespec where
  tvSec : BitVec 64
  tvNsec : BitVec 64
  deriving DecidableEq

/-- The time for a number of milliseconds: divisions round towards zero. -/
def millisecondsToTimespec (milliseconds : JsValue) : Timespec :=
  ⟨BitVec.ofInt 64 (milliseconds.integerValue.tdiv 1000),
    BitVec.ofInt 64 (milliseconds.integerValue.tmod 1000 * 1000000)⟩

/-- The number of an instant. -/
def ofInstant (m : ℤ) : JsValue := .prim (.number (.fin m))

/-- The instants of dates. -/
def IsDate (m : ℤ) : Prop := |m| ≤ 8640000000000000

/-- The time for `m` has less than a second of nanoseconds, and is the instant `m`, to which
    it converts back. -/
structure RoundTrips (m : ℤ) : Prop where
  normalised : 0 ≤ (millisecondsToTimespec (ofInstant m)).tvNsec.toInt ∧
    (millisecondsToTimespec (ofInstant m)).tvNsec.toInt < 10 ^ 9
  instant : (millisecondsToTimespec (ofInstant m)).tvSec.toInt * 10 ^ 9 +
    (millisecondsToTimespec (ofInstant m)).tvNsec.toInt = m * 10 ^ 6
  inverse : timespecToMilliseconds (millisecondsToTimespec (ofInstant m)).tvSec
    (millisecondsToTimespec (ofInstant m)).tvNsec = m

/-- A time made of the milliseconds of a time: the nanoseconds are rounded down. -/
def RoundsDown (s n : BitVec 64) : Prop :=
  millisecondsToTimespec (ofInstant (timespecToMilliseconds s n)) =
    ⟨s, BitVec.ofNat 64 (n.toNat / 10 ^ 6 * 10 ^ 6)⟩

theorem integerValue_ofInstant {m : ℤ} (h : IsDate m) : (ofInstant m).integerValue = m := by
  have htruncate : NodeLkl.truncate (m : ℚ) = m := by simp [NodeLkl.truncate]
  obtain ⟨hlo, hhi⟩ := abs_le.1 h
  simp only [ofInstant, JsValue.integerValue, JsValue.toNumber, Prim.toNumber, Option.map_some,
    Option.getD_some, JsNumber.toInt64, htruncate]
  omega

/-- What is left of a division has the sign of what is divided. -/
theorem tdiv_tmod_cases (m : ℤ) : 1000 * m.tdiv 1000 + m.tmod 1000 = m ∧
    (0 ≤ m ∧ 0 ≤ m.tmod 1000 ∧ m.tmod 1000 < 1000 ∨
      m < 0 ∧ -1000 < m.tmod 1000 ∧ m.tmod 1000 ≤ 0) := by
  refine ⟨Int.mul_tdiv_add_tmod m 1000, ?_⟩
  rcases lt_or_ge m 0 with hm | hm
  · have hneg : (-m).tmod 1000 = -m.tmod 1000 := Int.neg_tmod m 1000
    have hnonneg := Int.tmod_nonneg (a := -m) 1000 (by omega)
    have hlt := Int.tmod_lt_of_pos (-m) (b := 1000) (by decide)
    exact .inr ⟨hm, by omega, by omega⟩
  · exact .inl ⟨hm, Int.tmod_nonneg _ hm, Int.tmod_lt_of_pos _ (by decide)⟩

section Instants

variable {m : ℤ} (h : IsDate m)

include h

theorem toInt_tvSec : (millisecondsToTimespec (ofInstant m)).tvSec.toInt = m.tdiv 1000 := by
  obtain ⟨hlo, hhi⟩ := abs_le.1 h
  have hcases := tdiv_tmod_cases m
  rw [millisecondsToTimespec, integerValue_ofInstant h]
  exact BitVec.toInt_ofInt_eq_self (by decide) (by omega) (by omega)

theorem toInt_tvNsec :
    (millisecondsToTimespec (ofInstant m)).tvNsec.toInt = m.tmod 1000 * 1000000 := by
  have hcases := tdiv_tmod_cases m
  rw [millisecondsToTimespec, integerValue_ofInstant h]
  exact BitVec.toInt_ofInt_eq_self (by decide) (by omega) (by omega)

/-- The time is that of `m`, also if its nanoseconds are negative. -/
theorem instant_eq : (millisecondsToTimespec (ofInstant m)).tvSec.toInt * 10 ^ 9 +
    (millisecondsToTimespec (ofInstant m)).tvNsec.toInt = m * 10 ^ 6 := by
  rw [toInt_tvSec h, toInt_tvNsec h]
  have hcases := tdiv_tmod_cases m
  omega

theorem inverse_eq : timespecToMilliseconds (millisecondsToTimespec (ofInstant m)).tvSec
    (millisecondsToTimespec (ofInstant m)).tvNsec = m := by
  rw [timespecToMilliseconds, toInt_tvSec h, toInt_tvNsec h,
    Int.mul_tdiv_cancel _ (by decide)]
  have hcases := tdiv_tmod_cases m
  omega

/-- There are negative nanoseconds in what is left of a second before 1970. -/
theorem roundTrips_iff_of_isDate : RoundTrips m ↔ 0 ≤ m ∨ 1000 ∣ m := by
  have hcases := tdiv_tmod_cases m
  constructor
  · intro hr
    have hnsec := hr.normalised.1
    rw [toInt_tvNsec h] at hnsec
    omega
  · intro hm
    refine ⟨?_, instant_eq h, inverse_eq h⟩
    rw [toInt_tvNsec h]
    omega

end Instants

/-- The seconds are kept, and the nanoseconds rounded, unless there are milliseconds of a second
    before 1970. -/
theorem roundsDown_iff {s n : BitVec 64} (hn : n.toNat < 10 ^ 9)
    (hdate : IsDate (s.toInt * 1000 + n.toNat / 10 ^ 6)) :
    RoundsDown s n ↔ 0 ≤ s.toInt ∨ n.toNat < 10 ^ 6 := by
  have hm : timespecToMilliseconds s n = s.toInt * 1000 + n.toNat / 10 ^ 6 :=
    timespecToMilliseconds_eq hn
  have h : IsDate (timespecToMilliseconds s n) := hm ▸ hdate
  have hround : (BitVec.ofNat 64 (n.toNat / 10 ^ 6 * 10 ^ 6)).toInt =
      (n.toNat / 10 ^ 6 * 10 ^ 6 : ℕ) := by
    have htoNat : (BitVec.ofNat 64 (n.toNat / 10 ^ 6 * 10 ^ 6)).toNat =
        n.toNat / 10 ^ 6 * 10 ^ 6 := by
      rw [BitVec.toNat_ofNat, Nat.mod_eq_of_lt (by omega)]
    rw [BitVec.toInt_eq_toNat_of_lt (by omega), htoNat]
  have hiff : RoundsDown s n ↔ (timespecToMilliseconds s n).tdiv 1000 = s.toInt ∧
      (timespecToMilliseconds s n).tmod 1000 * 1000000 = (n.toNat / 10 ^ 6 * 10 ^ 6 : ℕ) := by
    rw [RoundsDown, Timespec.ext_iff, ← BitVec.toInt_inj, ← BitVec.toInt_inj, toInt_tvSec h,
      toInt_tvNsec h, hround]
  have hcases := tdiv_tmod_cases (timespecToMilliseconds s n)
  rw [hiff]
  omega

/-- The conversions are inverse of each other, but for the instants before 1970 that are not
    a whole number of seconds, and the times before 1970 with a millisecond or more after the
    second. -/
theorem roundTrips_iff (m : ℤ) (s n : BitVec 64) :
    (IsDate m → (RoundTrips m ↔ 0 ≤ m ∨ 1000 ∣ m)) ∧
      (n.toNat < 10 ^ 9 → IsDate (s.toInt * 1000 + n.toNat / 10 ^ 6) →
        (RoundsDown s n ↔ 0 ≤ s.toInt ∨ n.toNat < 10 ^ 6)) :=
  ⟨fun h => roundTrips_iff_of_isDate h, fun hn h => roundsDown_iff hn h⟩

theorem roundTrips_second : RoundTrips 1500 ∧ RoundsDown 1 500000001 := by
  obtain ⟨hinstant, htime⟩ := roundTrips_iff 1500 1 500000001
  refine ⟨(hinstant (by unfold IsDate; decide)).2 (.inl (by decide)), ?_⟩
  exact (htime (by decide) (by unfold IsDate; decide)).2 (.inl (by decide))

/-- The last millisecond before 1970 has a negative number of nanoseconds. -/
theorem not_roundTrips_neg : IsDate (-1) ∧ ¬RoundTrips (-1) := by
  have h : IsDate (-1) := by unfold IsDate; decide
  refine ⟨h, fun hr => ?_⟩
  have hnsec := hr.normalised.1
  rw [toInt_tvNsec h] at hnsec
  revert hnsec
  decide

end Fs

end NodeLkl
