import NodeLkl.Base.Store
import NodeLkl.Disk.Wrapper

/-!
# Block requests

What a block request is for: a disk is an unbounded array of bytes, and a
request reads it into buffers, one after the other (`fill`), or writes their
concatenation (`BlockDevice.serve`).

Two implementations serve requests:

* LKL's own, on a file descriptor (`blkRequest`): it goes through the buffers
  (`doRw`), and through each of them until all of it is transferred (`rwLoop`),
  as `pread` and `pwrite` may transfer less than asked for (`Transfers`). It
  fails on an empty buffer, which it takes for the end of the file, and is the
  plain device on the others (`blkRequest_eq_serve`);
* the one on a JavaScript disk (`jsRequestEntry`), which only handles the first
  buffer, and does not answer requests of another type.

They serve alike the requests reading or writing a single buffer, and flushing:
those of a `Served` shape, and no others (`agreesAll_iff_served`).
-/

namespace NodeLkl

/-! ## A plain block device -/

/-- The buffers `bs` filled from the disk, the first one from `off` on, and
    each one from where the one before it ends. -/
def fill (disk : Store UInt8) : ℕ → List Bytes → List Bytes
  | _, [] => []
  | off, b :: bs => disk.read off b.length :: fill disk (off + b.length) bs

/-- What a request leaves: the disk, the buffers, and whether it succeeded. -/
structure Result where
  disk : Store UInt8
  iovecs : List Bytes
  ok : Bool

/-- A plain block device. -/
def BlockDevice.serve (disk : Store UInt8) (r : LklBlkReq) : Result :=
  if r.type.toNat = LklDevBlkType.read then ⟨disk, fill disk r.offset r.buf, true⟩
  else if r.type.toNat = LklDevBlkType.write then ⟨disk.write r.offset r.buf.flatten, r.buf, true⟩
  else ⟨disk, r.buf,
    r.type.toNat = LklDevBlkType.flush || r.type.toNat = LklDevBlkType.flushOut⟩

/-! ## Requests on a file descriptor -/

/-- How many bytes are transferred by the call `n` of `pread` or `pwrite`, asked
    for `len`: at least one, as the file does not end. -/
structure Transfers where
  amount : (n len : ℕ) → ℕ
  pos : ∀ n {len}, 0 < len → 0 < amount n len
  le : ∀ n len, amount n len ≤ len

/-- Reading `k` bytes at `off` into the buffer at `addr`. -/
def pread (k : ℕ) (disk : Store UInt8) (addr : Bytes) (off : ℕ) : Store UInt8 × Bytes :=
  (disk, disk.read off k ++ addr.drop k)

/-- Writing `k` bytes at `off` from the buffer at `addr`. -/
def pwrite (k : ℕ) (disk : Store UInt8) (addr : Bytes) (off : ℕ) : Store UInt8 × Bytes :=
  (disk.write off (addr.take k), addr)

/-- What transferring a buffer leaves: the disk, the buffer, the offset and the
    value returned by the last call, and the number of calls so far. -/
structure Transferred where
  disk : Store UInt8
  buf : Bytes
  off : ℕ
  ret : ℕ
  calls : ℕ

variable (fn : ℕ → Store UInt8 → Bytes → ℕ → Store UInt8 × Bytes) (x : Transfers)

/-- The transfer of the `len` bytes (not zero) at `addr`, as many times as it
    takes. -/
def rwLoop (n : ℕ) (disk : Store UInt8) (addr : Bytes) (len off : ℕ) : Transferred :=
  let k := x.amount n len
  let t := fn k disk addr off
  if len - k = 0 then ⟨t.1, t.2, off + k, k, n + 1⟩
  else
    let r := rwLoop (n + 1) t.1 (t.2.drop k) (len - k) (off + k)
    { r with buf := t.2.take k ++ r.buf }
termination_by len
decreasing_by
  have := x.pos n (show 0 < len by omega)
  omega

/-- What transferring the buffers leaves: the disk, the buffers, and the value
    returned. -/
structure DoneRw where
  disk : Store UInt8
  iovecs : List Bytes
  ret : ℤ

/-- The transfer of all the buffers, one after the other. The length of a buffer
    is an `int`; a call for no byte returns `0`, and one for a negative number
    of them fails, both ending the transfer. -/
def doRw : List Bytes → (n : ℕ) → Store UInt8 → (off : ℕ) → (ret : ℤ) → DoneRw
  | [], _, disk, _, ret => ⟨disk, [], ret⟩
  | b :: bs, n, disk, off, _ =>
    let len := toInt b.length
    -- the loop ends with an error, the buffers left being neither read nor written
    if len ≤ 0 then ⟨disk, b :: bs, -1⟩
    else
      let t := rwLoop fn x n disk b len.toNat off
      let r := doRw bs t.calls t.disk t.off t.ret
      { r with iovecs := t.buf :: r.iovecs }

namespace LklDevBlkStatus

/-! The statuses of the block requests. -/

abbrev ok : ℤ := 0
abbrev ioerr : ℤ := 1
abbrev unsup : ℤ := 2

end LklDevBlkStatus

/-- A request on a file descriptor, whose flushes succeed. -/
def blkRequest (disk : Store UInt8) (r : LklBlkReq) : DoneRw :=
  let status (t : DoneRw) : DoneRw :=
    { t with ret := if t.ret < 0 then LklDevBlkStatus.ioerr else LklDevBlkStatus.ok }
  if r.type.toNat = LklDevBlkType.read then status (doRw pread x r.buf 0 disk r.offset 0)
  else if r.type.toNat = LklDevBlkType.write then status (doRw pwrite x r.buf 0 disk r.offset 0)
  else if r.type.toNat = LklDevBlkType.flush ∨ r.type.toNat = LklDevBlkType.flushOut then
    ⟨disk, r.buf, LklDevBlkStatus.ok⟩
  else ⟨disk, r.buf, LklDevBlkStatus.unsup⟩

variable {x}

/-- Short reads or not, the loop reads all of the buffer. -/
theorem rwLoop_pread (n : ℕ) (disk : Store UInt8) (addr : Bytes) (len off : ℕ) (hl : 0 < len) :
    (rwLoop pread x n disk addr len off).disk = disk ∧
      (rwLoop pread x n disk addr len off).buf = disk.read off len ++ addr.drop len ∧
      (rwLoop pread x n disk addr len off).off = off + len := by
  induction len using Nat.strong_induction_on generalizing n addr off with
  | _ len ih =>
    have hk := x.pos n hl
    have hle := x.le n len
    rw [rwLoop]
    simp only [pread]
    -- Reads may be short, but not empty: what is left to read decreases.
    split
    · -- All of it is read at once.
      have heq : x.amount n len = len := by omega
      simp [heq]
    · rename_i hne
      have hsum : x.amount n len + (len - x.amount n len) = len := by omega
      obtain ⟨hd, hb, ho⟩ := ih (len - x.amount n len) (by omega) (n + 1)
        ((disk.read off (x.amount n len) ++ addr.drop (x.amount n len)).drop (x.amount n len))
        (off + x.amount n len) (by omega)
      refine ⟨hd, ?_, by rw [ho, Nat.add_assoc, hsum]⟩
      conv_rhs => rw [← hsum, Store.read_add]
      rw [hb]
      simp [hsum]

/-- Short writes or not, the loop writes all of the buffer. -/
theorem rwLoop_pwrite (n : ℕ) (disk : Store UInt8) (addr : Bytes) (len off : ℕ) (hl : 0 < len)
    (hlen : len ≤ addr.length) :
    (rwLoop pwrite x n disk addr len off).disk = disk.write off (addr.take len) ∧
      (rwLoop pwrite x n disk addr len off).buf = addr ∧
      (rwLoop pwrite x n disk addr len off).off = off + len := by
  induction len using Nat.strong_induction_on generalizing n disk addr off with
  | _ len ih =>
    have hk := x.pos n hl
    have hle := x.le n len
    rw [rwLoop]
    simp only [pwrite]
    split
    · -- All of it is written at once.
      have heq : x.amount n len = len := by omega
      simp [heq]
    · rename_i hne
      have hsum : x.amount n len + (len - x.amount n len) = len := by omega
      have hlt : (addr.take (x.amount n len)).length = x.amount n len :=
        List.length_take_of_le (by omega)
      obtain ⟨hd, hb, ho⟩ := ih (len - x.amount n len) (by omega) (n + 1)
        (disk.write off (addr.take (x.amount n len))) (addr.drop (x.amount n len))
        (off + x.amount n len) (by omega) (by rw [List.length_drop]; omega)
      refine ⟨?_, by rw [hb]; exact List.take_append_drop _ _, by rw [ho, Nat.add_assoc, hsum]⟩
      conv_rhs => rw [← hsum, List.take_add, Store.write_append, hlt]
      exact hd

/-- The lengths which are the same as an `int`. -/
theorem toInt_of_lt {n : ℕ} (h : n < 2 ^ 31) : toInt n = n := by
  rw [toInt, Int.bmod_eq_of_le] <;> omega

/-- The buffers `doRw` goes through: not empty, and of the length of an `int`. -/
def Transferable (b : Bytes) : Prop := 0 < b.length ∧ b.length < 2 ^ 31

/-- Reading into all the buffers fills them one after the other. -/
theorem doRw_pread (bs : List Bytes) (hbs : ∀ b ∈ bs, Transferable b) (n : ℕ)
    (disk : Store UInt8) (off : ℕ) (ret : ℤ) (hret : 0 ≤ ret) :
    (doRw pread x bs n disk off ret).disk = disk ∧
      (doRw pread x bs n disk off ret).iovecs = fill disk off bs ∧
      0 ≤ (doRw pread x bs n disk off ret).ret := by
  induction bs generalizing n disk off ret with
  | nil => exact ⟨rfl, rfl, hret⟩
  | cons b bs ih =>
    obtain ⟨hpos, hlt⟩ := hbs b List.mem_cons_self
    obtain ⟨hd, hb, ho⟩ := rwLoop_pread (x := x) n disk b b.length off hpos
    rw [doRw]
    simp only [toInt_of_lt hlt, Int.natCast_nonpos_iff, Nat.ne_of_gt hpos, ↓reduceIte,
      Int.toNat_natCast]
    obtain ⟨hd', hb', hr'⟩ := ih (fun b' hb' => hbs b' (List.mem_cons_of_mem _ hb'))
      (rwLoop pread x n disk b b.length off).calls (rwLoop pread x n disk b b.length off).disk
      (rwLoop pread x n disk b b.length off).off (rwLoop pread x n disk b b.length off).ret
      (Int.natCast_nonneg _)
    refine ⟨by rw [hd', hd], ?_, hr'⟩
    rw [hb', hb, hd, ho, fill, List.drop_length, List.append_nil]

/-- Writing all the buffers writes their concatenation. -/
theorem doRw_pwrite (bs : List Bytes) (hbs : ∀ b ∈ bs, Transferable b) (n : ℕ)
    (disk : Store UInt8) (off : ℕ) (ret : ℤ) (hret : 0 ≤ ret) :
    (doRw pwrite x bs n disk off ret).disk = disk.write off bs.flatten ∧
      (doRw pwrite x bs n disk off ret).iovecs = bs ∧
      0 ≤ (doRw pwrite x bs n disk off ret).ret := by
  induction bs generalizing n disk off ret with
  | nil => exact ⟨by simp [doRw], rfl, hret⟩
  | cons b bs ih =>
    obtain ⟨hpos, hlt⟩ := hbs b List.mem_cons_self
    obtain ⟨hd, hb, ho⟩ := rwLoop_pwrite (x := x) n disk b b.length off hpos le_rfl
    rw [doRw]
    simp only [toInt_of_lt hlt, Int.natCast_nonpos_iff, Nat.ne_of_gt hpos, ↓reduceIte,
      Int.toNat_natCast]
    obtain ⟨hd', hb', hr'⟩ := ih (fun b' hb' => hbs b' (List.mem_cons_of_mem _ hb'))
      (rwLoop pwrite x n disk b b.length off).calls (rwLoop pwrite x n disk b b.length off).disk
      (rwLoop pwrite x n disk b b.length off).off (rwLoop pwrite x n disk b b.length off).ret
      (Int.natCast_nonneg _)
    refine ⟨?_, by rw [hb', hb], hr'⟩
    rw [hd', hd, ho, List.take_length, List.flatten_cons, Store.write_append]

/-- An empty buffer ends the transfer with an error. -/
theorem doRw_of_nil_mem (bs : List Bytes) (hbs : [] ∈ bs) (n : ℕ) (disk : Store UInt8) (off : ℕ)
    (ret : ℤ) : (doRw fn x bs n disk off ret).ret = -1 := by
  induction bs generalizing n disk off ret with
  | nil => exact absurd hbs List.not_mem_nil
  | cons b bs ih =>
    rw [doRw]
    split
    · rfl
    · rename_i hlen
      rcases List.mem_cons.1 hbs with rfl | hbs'
      · exact absurd (by simp [toInt]) hlen
      · exact ih hbs' _ _ _ _

/-- LKL's own requests are those of the plain device, if every buffer has
    something to transfer. -/
theorem blkRequest_eq_serve (disk : Store UInt8) (r : LklBlkReq)
    (hbs : ∀ b ∈ r.buf, Transferable b) :
    (blkRequest x disk r).disk = (BlockDevice.serve disk r).disk ∧
      (blkRequest x disk r).iovecs = (BlockDevice.serve disk r).iovecs ∧
      ((blkRequest x disk r).ret = LklDevBlkStatus.ok ↔ (BlockDevice.serve disk r).ok) := by
  unfold blkRequest BlockDevice.serve
  split
  · obtain ⟨hd, hb, hr⟩ := doRw_pread (x := x) r.buf hbs 0 disk r.offset 0 le_rfl
    exact ⟨hd, hb, by simp [Int.not_lt.2 hr]⟩
  split
  · obtain ⟨hd, hb, hr⟩ := doRw_pwrite (x := x) r.buf hbs 0 disk r.offset 0 le_rfl
    exact ⟨hd, hb, by simp [Int.not_lt.2 hr]⟩
  split
  · rename_i hf
    exact ⟨rfl, rfl, by simpa using hf⟩
  · rename_i hf
    exact ⟨rfl, rfl, by simpa using hf⟩

/-! ## Requests on a JavaScript disk -/

variable {σ : Type*}

/-- The disk `d` is the array `bytes`: reading fills the buffer from it, writing
    stores the buffer in it, flushing keeps it, and they all succeed. -/
structure JsDisk.Backs (d : JsDisk σ) (bytes : σ → Store UInt8) : Prop where
  read : ∀ s buf off, bytes (d.read s buf 0 buf.length off).disk = bytes s ∧
    (d.read s buf 0 buf.length off).buf = (bytes s).read off buf.length ∧
    ∃ v, (d.read s buf 0 buf.length off).outcome = .fulfilled v
  write : ∀ s buf off, bytes (d.write s buf 0 buf.length off).1 = (bytes s).write off buf ∧
    ∃ v, (d.write s buf 0 buf.length off).2 = .fulfilled v
  flush : ∀ s, bytes (d.flush s).1 = bytes s ∧ ∃ v, (d.flush s).2 = .fulfilled v

/-- The status byte of a request returning `ret`. -/
def statusByte (ret : ℤ) : BitVec 8 := BitVec.ofInt 8 ret

/-- The call of the callback of a fulfilled promise completes the request. -/
theorem requestDone_fulfilled (v : JsValue) : requestDone (asCallback (.fulfilled v)) = 0 := by
  simp only [requestDone, asCallback]
  split <;> simp [arg]

variable {kMaxLength : ℕ} {d : JsDisk σ} {bytes : σ → Store UInt8} {s : σ} {r : LklBlkReq}

section Entry

variable (h : d.Backs bytes) (hk : ∀ b ∈ r.buf, b.length ≤ kMaxLength)

include h hk

theorem jsRequestEntry_read {b : Bytes} {bs : List Bytes} (hb : r.buf = b :: bs)
    (ht : r.type.toNat = LklDevBlkType.read) :
    bytes (jsRequestEntry kMaxLength d s r).disk = bytes s ∧
      (jsRequestEntry kMaxLength d s r).iovecs = (bytes s).read r.offset b.length :: bs ∧
      (jsRequestEntry kMaxLength d s r).ret = some 0 := by
  obtain ⟨hd, hf, v, hv⟩ := h.read s b r.offset
  simp only [jsRequestEntry, request, if_pos hk]
  simp [DiskWrapper.request, ht, hb, hd, hf, hv, requestDone_fulfilled]

theorem jsRequestEntry_write {b : Bytes} {bs : List Bytes} (hb : r.buf = b :: bs)
    (ht : r.type.toNat = LklDevBlkType.write) :
    bytes (jsRequestEntry kMaxLength d s r).disk = (bytes s).write r.offset b ∧
      (jsRequestEntry kMaxLength d s r).iovecs = b :: bs ∧
      (jsRequestEntry kMaxLength d s r).ret = some 0 := by
  obtain ⟨hd, v, hv⟩ := h.write s b r.offset
  simp only [jsRequestEntry, request, if_pos hk]
  simp [DiskWrapper.request, ht, hb, hd, hv, requestDone_fulfilled]

theorem jsRequestEntry_flush
    (ht : r.type.toNat = LklDevBlkType.flush ∨ r.type.toNat = LklDevBlkType.flushOut) :
    bytes (jsRequestEntry kMaxLength d s r).disk = bytes s ∧
      (jsRequestEntry kMaxLength d s r).iovecs = r.buf ∧
      (jsRequestEntry kMaxLength d s r).ret = some 0 := by
  obtain ⟨hd, v, hv⟩ := h.flush s
  simp only [jsRequestEntry, request, if_pos hk]
  rcases ht with ht | ht <;> simp [DiskWrapper.request, ht, hv, hd, requestDone_fulfilled]

end Entry

/-- A request which returns nothing: a buffer is too long, or there is none to
    transfer, or the type is another one. -/
theorem jsRequestEntry_eq_none
    (h : (∃ b ∈ r.buf, kMaxLength < b.length) ∨
      ((r.type.toNat = LklDevBlkType.read ∨ r.type.toNat = LklDevBlkType.write) ∧ r.buf = []) ∨
      r.type.toNat ∉ [LklDevBlkType.read, LklDevBlkType.write, LklDevBlkType.flush,
        LklDevBlkType.flushOut]) :
    (jsRequestEntry kMaxLength d s r).ret = none := by
  simp only [jsRequestEntry, request]
  split
  · rename_i hk
    rcases h with ⟨b, hb, hlt⟩ | ⟨ht | ht, hb⟩ | ht
    · exact absurd (hk b hb) (Nat.not_le.2 hlt)
    · simp [DiskWrapper.request, ht, hb]
    · simp [DiskWrapper.request, ht, hb]
    · simp only [List.mem_cons, List.not_mem_nil, or_false, not_or] at ht
      simp [DiskWrapper.request, ht]
  · rfl

variable (kMaxLength d bytes)

/-- The request `r` in the state `s` is served as by the plain device, and as by
    LKL's own implementation: it completes, the bytes of the disk and of the
    buffers are the same, and so is whether its status is a success. -/
structure Agrees (s : σ) (r : LklBlkReq) : Prop where
  completes : ∃ ret, (jsRequestEntry kMaxLength d s r).ret = some ret ∧
    (statusByte ret = 0 ↔ (BlockDevice.serve (bytes s) r).ok) ∧
    ∀ x, statusByte ret = 0 ↔ (blkRequest x (bytes s) r).ret = LklDevBlkStatus.ok
  disk : bytes (jsRequestEntry kMaxLength d s r).disk = (BlockDevice.serve (bytes s) r).disk
  iovecs : (jsRequestEntry kMaxLength d s r).iovecs = (BlockDevice.serve (bytes s) r).iovecs
  blkDisk : ∀ x, bytes (jsRequestEntry kMaxLength d s r).disk = (blkRequest x (bytes s) r).disk
  blkIovecs : ∀ x, (jsRequestEntry kMaxLength d s r).iovecs = (blkRequest x (bytes s) r).iovecs

/-- All the requests of a sequence are served so, one after the other. -/
def AgreesAll : σ → List LklBlkReq → Prop
  | _, [] => True
  | s, r :: rs => Agrees kMaxLength d bytes s r ∧
      AgreesAll (jsRequestEntry kMaxLength d s r).disk rs

variable {kMaxLength d bytes}

/-- The shape of a request: all of it but the contents of its buffers. -/
def LklBlkReq.shape (r : LklBlkReq) : BitVec 32 × ℕ × List ℕ :=
  (r.type, r.sector, r.buf.map List.length)

/-- The requests that are served: a read or a write with a single buffer, not
    empty, or a flush; and no buffer is longer than a `Buffer` may be. -/
def Served (kMaxLength : ℕ) (r : LklBlkReq) : Prop :=
  (∀ b ∈ r.buf, b.length ≤ kMaxLength) ∧
    (((r.type.toNat = LklDevBlkType.read ∨ r.type.toNat = LklDevBlkType.write) ∧
        ∃ b, b ≠ [] ∧ r.buf = [b]) ∨
      r.type.toNat = LklDevBlkType.flush ∨ r.type.toNat = LklDevBlkType.flushOut)

/-- Being served only depends on the shape of the request. -/
theorem served_of_shape_eq {r' : LklBlkReq} (hs : r'.shape = r.shape)
    (hr : Served kMaxLength r) : Served kMaxLength r' := by
  simp only [LklBlkReq.shape, Prod.mk.injEq] at hs
  obtain ⟨htype, -, hlen⟩ := hs
  obtain ⟨hle, hcases⟩ := hr
  refine ⟨fun b hb => ?_, ?_⟩
  · have hm : b.length ∈ r.buf.map List.length := hlen ▸ List.mem_map_of_mem hb
    obtain ⟨b', hb', heq⟩ := List.mem_map.1 hm
    exact heq ▸ hle b' hb'
  rw [htype]
  rcases hcases with ⟨ht, b, hne, hb⟩ | ht
  · refine .inl ⟨ht, ?_⟩
    rw [hb, List.map_singleton] at hlen
    obtain ⟨b', hb', heq⟩ := List.map_eq_singleton_iff.1 hlen
    refine ⟨b', ?_, hb'⟩
    rintro rfl
    exact hne (List.length_eq_zero_iff.1 heq.symm)
  · exact .inr ht

theorem agrees_of_served (h : d.Backs bytes) (hk : kMaxLength < 2 ^ 31) (s : σ)
    (hr : Served kMaxLength r) : Agrees kMaxLength d bytes s r := by
  -- A read or a write with a single buffer, or a flush.
  obtain ⟨hlen, ⟨ht, b, hne, hb⟩ | ht⟩ := hr
  · have htr : ∀ b' ∈ r.buf, Transferable b' := by
      intro b' hb'
      obtain rfl : b' = b := by simpa [hb] using hb'
      exact ⟨List.length_pos_iff.2 hne, (hlen b' hb').trans_lt hk⟩
    have hblk := fun x => blkRequest_eq_serve (x := x) (bytes s) r htr
    rcases ht with ht | ht
    · obtain ⟨hd, hi, hret⟩ := jsRequestEntry_read (s := s) h hlen hb ht
      have hserve : BlockDevice.serve (bytes s) r =
          ⟨bytes s, [(bytes s).read r.offset b.length], true⟩ := by
        simp [BlockDevice.serve, ht, hb, fill]
      rw [hserve] at hblk
      exact ⟨⟨0, hret, by simp [hserve, statusByte], fun x => by simp [(hblk x).2.2, statusByte]⟩,
        by rw [hd, hserve], by rw [hi, hserve], fun x => by rw [hd, (hblk x).1],
        fun x => by rw [hi, (hblk x).2.1]⟩
    · obtain ⟨hd, hi, hret⟩ := jsRequestEntry_write (s := s) h hlen hb ht
      have hserve : BlockDevice.serve (bytes s) r = ⟨(bytes s).write r.offset b, [b], true⟩ := by
        simp [BlockDevice.serve, ht, hb]
      rw [hserve] at hblk
      exact ⟨⟨0, hret, by simp [hserve, statusByte], fun x => by simp [(hblk x).2.2, statusByte]⟩,
        by rw [hd, hserve], by rw [hi, hserve], fun x => by rw [hd, (hblk x).1],
        fun x => by rw [hi, (hblk x).2.1]⟩
  · obtain ⟨hd, hi, hret⟩ := jsRequestEntry_flush (s := s) h hlen ht
    have hserve : BlockDevice.serve (bytes s) r = ⟨bytes s, r.buf, true⟩ := by
      rcases ht with ht | ht <;> simp [BlockDevice.serve, ht]
    have hblk : ∀ x, blkRequest x (bytes s) r = ⟨bytes s, r.buf, LklDevBlkStatus.ok⟩ := by
      intro x
      rcases ht with ht | ht <;> simp [blkRequest, ht]
    exact ⟨⟨0, hret, by simp [hserve, statusByte], fun x => by simp [hblk, statusByte]⟩,
      by rw [hd, hserve], by rw [hi, hserve], fun x => by rw [hd, hblk],
      fun x => by rw [hi, hblk]⟩

/-- A file of which every transfer is whole. -/
def Transfers.whole : Transfers where
  amount _ len := len
  pos _ _ h := h
  le _ _ := le_rfl

/-- The buffers `bs` holding, at every place, another byte than the disk does
    from `off` on. -/
def scramble (disk : Store UInt8) (off : ℕ) (bs : List Bytes) : List Bytes :=
  (fill disk off bs).map fun b => b.map (· + 1)

theorem map_length_scramble (disk : Store UInt8) (off : ℕ) (bs : List Bytes) :
    (scramble disk off bs).map List.length = bs.map List.length := by
  induction bs generalizing off with
  | nil => rfl
  | cons b bs ih => simpa [scramble, fill] using ih (off + b.length)

/-- Reading into a second buffer is not served: it is left as it was. -/
theorem not_agrees_read (h : d.Backs bytes) (s : σ) {b b' : Bytes} {bs : List Bytes}
    (hlen : ∀ b ∈ r.buf, b.length ≤ kMaxLength) (ht : r.type.toNat = LklDevBlkType.read)
    (hb : r.buf = b :: ((bytes s).read (r.offset + b.length) b'.length).map (· + 1) :: bs)
    (hne : b' ≠ []) : ¬Agrees kMaxLength d bytes s r := by
  intro ha
  have hi := ha.iovecs
  rw [(jsRequestEntry_read h hlen hb ht).2.1] at hi
  simp only [BlockDevice.serve, if_pos ht, hb, fill, List.length_map, Store.length_read,
    List.cons.injEq, true_and] at hi
  obtain ⟨c, cs, rfl⟩ := List.exists_cons_of_ne_nil hne
  simp [Store.read, List.range_succ_eq_map] at hi

/-- Writing a second buffer is not served: the disk is left as it was there. -/
theorem not_agrees_write (h : d.Backs bytes) (s : σ) {b b' : Bytes} {bs : List Bytes}
    (hlen : ∀ b ∈ r.buf, b.length ≤ kMaxLength) (ht : r.type.toNat = LklDevBlkType.write)
    (hb : r.buf = b :: ((bytes s).read (r.offset + b.length) b'.length).map (· + 1) :: bs)
    (hne : b' ≠ []) : ¬Agrees kMaxLength d bytes s r := by
  intro ha
  have hd := congrFun ha.disk (r.offset + b.length)
  rw [(jsRequestEntry_write h hlen hb ht).1, Store.write_of_le _ le_rfl] at hd
  obtain ⟨c, cs, rfl⟩ := List.exists_cons_of_ne_nil hne
  simp only [BlockDevice.serve, ht, hb] at hd
  simp [Store.write, Store.read, List.range_succ_eq_map] at hd

/-- A request that is not served differs, for some contents of its buffers. -/
theorem exists_not_agrees (h : d.Backs bytes) (s : σ) (hr : ¬Served kMaxLength r) :
    ∃ r' : LklBlkReq, r'.shape = r.shape ∧ ¬Agrees kMaxLength d bytes s r' := by
  -- The requests that never return do not agree, whatever their contents.
  have hnone : (jsRequestEntry kMaxLength d s r).ret = none →
      ∃ r' : LklBlkReq, r'.shape = r.shape ∧ ¬Agrees kMaxLength d bytes s r' := by
    refine fun hret => ⟨r, rfl, fun ha => ?_⟩
    obtain ⟨ret, hret', _⟩ := ha.completes
    simp [hret] at hret'
  by_cases hlen : ∀ b ∈ r.buf, b.length ≤ kMaxLength
  swap
  · push Not at hlen
    exact hnone (jsRequestEntry_eq_none (.inl hlen))
  by_cases ht : r.type.toNat = LklDevBlkType.read ∨ r.type.toNat = LklDevBlkType.write
  swap
  · refine hnone (jsRequestEntry_eq_none (.inr (.inr fun hm => hr ⟨hlen, .inr ?_⟩)))
    simp only [List.mem_cons, List.not_mem_nil, or_false] at hm
    tauto
  -- A read or a write, of which every buffer fits: it has none, an empty one,
  -- or at least two.
  rcases hb : r.buf with _ | ⟨b, bs⟩
  · exact hnone (jsRequestEntry_eq_none (.inr (.inl ⟨ht, hb⟩)))
  by_cases hnil : [] ∈ r.buf
  · refine ⟨r, rfl, fun ha => ?_⟩
    obtain ⟨ret, hret, -, hblk⟩ := ha.completes
    have h0 : ret = 0 := by
      rcases ht with ht | ht
      · simpa [(jsRequestEntry_read h hlen hb ht).2.2] using hret.symm
      · simpa [(jsRequestEntry_write h hlen hb ht).2.2] using hret.symm
    have hio : (blkRequest Transfers.whole (bytes s) r).ret = LklDevBlkStatus.ioerr := by
      rcases ht with ht | ht <;> simp [blkRequest, ht, doRw_of_nil_mem _ _ hnil]
    have := (hblk Transfers.whole).1 (by simp [h0, statusByte])
    rw [hio] at this
    exact absurd this (by decide)
  rcases hbs : bs with _ | ⟨b', bs'⟩
  · refine absurd ⟨hlen, .inl ⟨ht, b, ?_, by rw [hb, hbs]⟩⟩ hr
    rintro rfl
    exact hnil (by rw [hb]; exact List.mem_cons_self)
  -- The buffers hold other bytes than the disk.
  have hne : b' ≠ [] := by
    rintro rfl
    exact hnil (by rw [hb, hbs]; simp)
  subst hbs
  let r' : LklBlkReq := { r with buf := scramble (bytes s) r.offset r.buf }
  have hshape : r'.shape = r.shape := by
    simp only [LklBlkReq.shape, r', map_length_scramble]
  have hlen' : ∀ c ∈ r'.buf, c.length ≤ kMaxLength := by
    intro c hc
    have hm : c.length ∈ r'.buf.map List.length := List.mem_map_of_mem hc
    rw [show r'.buf.map List.length = r.buf.map List.length from map_length_scramble _ _ _] at hm
    obtain ⟨c', hc', heq⟩ := List.mem_map.1 hm
    exact heq ▸ hlen c' hc'
  have hb' : r'.buf = ((bytes s).read r'.offset b.length).map (· + 1) ::
      ((bytes s).read (r'.offset + (((bytes s).read r'.offset b.length).map (· + 1)).length)
        b'.length).map (· + 1) ::
      scramble (bytes s) (r'.offset + b.length + b'.length) bs' := by
    simp [r', hb, scramble, fill, LklBlkReq.offset]
  rcases ht with ht | ht
  · exact ⟨r', hshape, not_agrees_read h s hlen' ht hb' hne⟩
  · exact ⟨r', hshape, not_agrees_write h s hlen' ht hb' hne⟩

/-- The requests of the given shapes are served as by a plain block device, and
    as by LKL's own implementation, whatever the contents of their buffers, if
    and only if each of them is a read or a write with a single buffer, not
    empty, or a flush. -/
theorem agreesAll_iff_served (h : d.Backs bytes) (hk : kMaxLength < 2 ^ 31) (s : σ)
    (rs : List LklBlkReq) :
    (∀ rs' : List LklBlkReq, rs'.map LklBlkReq.shape = rs.map LklBlkReq.shape →
      AgreesAll kMaxLength d bytes s rs') ↔ ∀ r ∈ rs, Served kMaxLength r := by
  induction rs generalizing s with
  | nil => simp [AgreesAll]
  | cons r rs ih =>
    constructor
    · -- a request that is not served has one of the same shape that tells the disks apart
      intro hall r' hr'
      have hserved : Served kMaxLength r := by
        by_contra hr
        obtain ⟨r₀, hshape, hna⟩ := exists_not_agrees h s hr
        exact hna (hall (r₀ :: rs) (by simp [hshape])).1
      rcases List.mem_cons.1 hr' with rfl | hr'
      · exact hserved
      · exact (ih (jsRequestEntry kMaxLength d s r).disk).1
          (fun rs' hrs' => (hall (r :: rs') (by simp [hrs'])).2) r' hr'
    · intro hserved rs' hrs'
      obtain ⟨r₀, rs₀, rfl⟩ : ∃ r₀ rs₀, rs' = r₀ :: rs₀ := by
        cases rs' with
        | nil => simp at hrs'
        | cons r₀ rs₀ => exact ⟨r₀, rs₀, rfl⟩
      simp only [List.map_cons, List.cons.injEq] at hrs'
      refine ⟨agrees_of_served h hk s ?_, (ih _).2
        (fun r' hr' => hserved r' (List.mem_cons_of_mem _ hr')) rs₀ hrs'.2⟩
      exact served_of_shape_eq hrs'.1 (hserved r List.mem_cons_self)

/-! ## A disk in memory -/

/-- A disk which is an array of bytes in memory. -/
def memoryDisk : JsDisk (Store UInt8) where
  read s buf bufOffset length offset :=
    ⟨s, buf.take bufOffset ++ s.read offset length ++ buf.drop (bufOffset + length),
      .fulfilled .undefined⟩
  write s buf bufOffset length offset :=
    (s.write offset ((buf.drop bufOffset).take length), .fulfilled .undefined)
  flush s := (s, .fulfilled .undefined)
  getCapacity s := (s, .fulfilled .undefined)

theorem memoryDisk_backs : memoryDisk.Backs id where
  read s buf off := ⟨rfl, by simp [memoryDisk], _, rfl⟩
  write s buf off := ⟨by simp [memoryDisk], _, rfl⟩
  flush s := ⟨rfl, _, rfl⟩

/-- Two bytes written at the start of the disk, in one buffer or in two. -/
def writeOne : LklBlkReq := ⟨1, 0, [[1, 2]], by decide⟩

@[inherit_doc writeOne]
def writeTwo : LklBlkReq := ⟨1, 0, [[1], [2]], by decide⟩

/-- The request with a single buffer is served. -/
theorem agreesAll_writeOne :
    memoryDisk.Backs id ∧ AgreesAll 0x7fffffff memoryDisk id (fun _ => 0) [writeOne] := by
  have hserved : ∀ r ∈ [writeOne], Served 0x7fffffff r := by
    intro r hr
    obtain rfl := List.mem_singleton.1 hr
    exact ⟨by simp [writeOne], .inl ⟨.inr rfl, [1, 2], by simp, rfl⟩⟩
  refine ⟨memoryDisk_backs, ?_⟩
  exact (agreesAll_iff_served memoryDisk_backs (by decide) _ _).2 hserved [writeOne] rfl

/-- The second of two buffers is not written. -/
theorem not_agreesAll_writeTwo :
    ¬AgreesAll 0x7fffffff memoryDisk id (fun _ => 0) [writeTwo] := by
  rintro ⟨ha, -⟩
  have hd := congrFun ha.disk 1
  rw [(jsRequestEntry_write memoryDisk_backs (by simp [writeTwo]) rfl rfl).1] at hd
  simp [BlockDevice.serve, writeTwo, LklBlkReq.offset, Store.write] at hd

end NodeLkl
