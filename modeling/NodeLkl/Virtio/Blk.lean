import NodeLkl.Disk.Status
import NodeLkl.Fs.Listing
import NodeLkl.Virtio.Queue

/-!
# Block devices

A JavaScript disk, as the kernel sees it: the driver turns a request of the block
layer into buffers (`virtblkAddReq`), which it puts in a virtio queue, and the
device turns the buffers into a request to the disk (`Host.blkEnqueue`), whose
status it writes to the last one.

The device offers the driver no feature of block devices. The driver then makes
requests of a single segment, and never flushes (`Rq`). These are requests the
JavaScript disk serves. The memory of a request belongs to it until it has been taken
back: the kernel does not write to it, nor make another request with it.

* The disk and the driver agree on the first 2 TiB (`served_in_order`): requests are
  served in the order they are made, every read finds what the writes before it stored,
  and they all succeed.
* The sector of a request has 64 bits, of which the device takes 32. Past 2 TiB requests
  are served at the start of the disk (`written_at_reached`).
-/

namespace NodeLkl

namespace Virtio

/-! ## The device -/

/-- What a buffer holds. -/
def Iovec.contents (b : Iovec) (mem : Store UInt8) : Bytes :=
  mem.read b.iovBase.toNat b.iovLen.toNat

/-- Where a buffer is. -/
def Iovec.span (b : Iovec) : Store.Span := ⟨b.iovBase.toNat, b.iovLen.toNat⟩

/-- The process: its memory, which the driver and the device share, the disk, and whether
    the thread serving a request waits forever. -/
structure Host (σ : Type) where
  mem : Store UInt8
  disk : σ
  hung : Bool

/-- The memory, once the buffers hold the given bytes. -/
def fillAll : List Iovec → List Bytes → Store UInt8 → Store UInt8
  | b :: bs, data :: datas, mem => fillAll bs datas (mem.write b.iovBase.toNat data)
  | _, _, mem => mem

/-- The byte of a status. -/
def statusUInt8 (ret : ℤ) : UInt8 := .ofBitVec (statusByte ret)

/-- A request of the queue is a header, the buffers of the disk, and the status. -/
def Host.blkEnqueue {σ : Type} (kMaxLength : ℕ) (d : JsDisk σ) (h : Host σ) (req : VirtioReq) :
    Host σ × BitVec 16 :=
  match req.buf.getLast? with
  | none => (h, 0)
  | some t =>
    if req.buf.length < 3 then (h, 0)
    else
      let mem := h.mem.write t.iovBase.toNat [statusUInt8 LklDevBlkStatus.ioerr]
      match lklBlkReq (req.buf.map (·.contents mem)) with
      | none => ({ h with mem := mem }, 0)
      | some r =>
        let c := jsRequestEntry kMaxLength d h.disk r
        -- the buffers of the disk are those of the request
        let mem := fillAll req.buf.tail.dropLast c.iovecs mem
        match c.ret with
        | none => (⟨mem, c.disk, true⟩, 0)
        | some ret => (⟨mem.write t.iovBase.toNat [statusUInt8 ret], c.disk, h.hung⟩, 0)

/-! ## The driver -/

/-- The kinds of requests of the block layer. -/
inductive ReqOp
  | flush
  | fs
  | blockPc
  | drvPriv
  deriving DecidableEq

namespace VirtioBlkT

/-! The types of the requests of the driver. -/

abbrev out : BitVec 32 := 1
abbrev scsiCmd : BitVec 32 := 2
abbrev flush : BitVec 32 := 4
abbrev getId : BitVec 32 := 8

end VirtioBlkT

/-- A request of the block layer, mapped to segments, and where the driver keeps what
    belongs to it: the header and the status, and for commands the command itself, the sense
    data and another header. -/
structure VirtblkReq where
  op : ReqOp
  write : Bool
  pos : BitVec 64
  ioprio : BitVec 32
  sg : List Iovec
  outHdr : BitVec 64
  status : BitVec 64
  cmd : Iovec
  sense : BitVec 64
  inHdr : BitVec 64

namespace VirtblkReq

variable (vbr : VirtblkReq)

/-- The type of the request, as it is put in the header. -/
def type : BitVec 32 :=
  let type := match vbr.op with
    | .flush => VirtioBlkT.flush
    | .fs => 0
    | .blockPc => VirtioBlkT.scsiCmd
    | .drvPriv => VirtioBlkT.getId
  if !vbr.sg.isEmpty && vbr.write then type ||| VirtioBlkT.out else type

def sector : BitVec 64 := if vbr.op = .fs then vbr.pos else 0

/-- The header, as it is in memory. -/
def header : Bytes :=
  Fs.littleEndian 4 vbr.type.toNat ++ Fs.littleEndian 4 vbr.ioprio.toNat ++
    Fs.littleEndian 8 vbr.sector.toNat

/-- The buffers the device reads, and those it writes. -/
def virtblkAddReq : List Iovec × List Iovec :=
  let isOut := vbr.type &&& VirtioBlkT.out ≠ 0
  let isScsi := vbr.type &&& ~~~VirtioBlkT.out = VirtioBlkT.scsiCmd
  ([⟨vbr.outHdr, 16⟩] ++ (if isScsi then [vbr.cmd] else []) ++ (if isOut then vbr.sg else []),
    (if isOut then [] else vbr.sg) ++
      (if isScsi then [⟨vbr.sense, 96⟩, ⟨vbr.inHdr, 16⟩] else []) ++ [⟨vbr.status, 1⟩])

end VirtblkReq

/-- The result of a request, from its status. -/
def virtblkResult (status : UInt8) : ℤ :=
  if status = 0 then 0 else if status = 2 then -25 else -5

/-- The segments a request may have, from the number the device gives if it has the feature
    for it. -/
def maxSegments (segMax : Option (BitVec 32)) : ℕ :=
  match segMax with
  | none => 1
  | some n => if n = 0 then 1 else n.toNat

/-- A request the block layer makes to a device without features: it reads or writes
    segments, as many as it may have, of a length a `Buffer` may have.

    `payload` is what its segment holds when the request is made. -/
structure Rq (kMaxLength : ℕ) where
  vbr : VirtblkReq
  payload : Bytes
  op_eq : vbr.op = .fs
  sg_ne : vbr.sg ≠ []
  sg_le : vbr.sg.length ≤ maxSegments none
  sg_valid : ∀ b ∈ vbr.sg, b.Valid
  outHdr_ne : vbr.outHdr ≠ 0
  status_ne : vbr.status ≠ 0
  le_max : ∀ b ∈ vbr.sg, b.iovLen.toNat ≤ kMaxLength
  length_payload : payload.length = (vbr.sg.headD ⟨0, 0⟩).iovLen.toNat

namespace Rq

variable {kMaxLength : ℕ} (rq : Rq kMaxLength)

/-- The segment of the request. -/
def seg : Iovec := rq.vbr.sg.headD ⟨0, 0⟩

/-- Where the header and the status of the request are. -/
def hdr : Iovec := ⟨rq.vbr.outHdr, 16⟩

@[inherit_doc hdr]
def status : Iovec := ⟨rq.vbr.status, 1⟩

/-- The buffers of the request. -/
def bufs : List Iovec := [rq.hdr, rq.seg, rq.status]

/-- Where the request is on the disk, in bytes. -/
def offset : ℕ := rq.vbr.pos.toNat * sectorSize

/-- Where the device takes the request to be: `blk_enqueue` converts the sector by
    `le32toh`. -/
def reached : ℕ := rq.vbr.pos.toNat % 2 ^ 32 * sectorSize

theorem offset_eq_reached (h : rq.vbr.pos.toNat < 2 ^ 32) : rq.offset = rq.reached := by
  rw [offset, reached, Nat.mod_eq_of_lt h]

/-- What the request does to a disk, at a place of it. -/
def apply (place : ℕ) (disk : Store UInt8) : Store UInt8 :=
  if rq.vbr.write then disk.write place rq.payload else disk

/-- What the segment of the request holds once it is served, at a place of the disk. -/
def answer (place : ℕ) (disk : Store UInt8) : Bytes :=
  if rq.vbr.write then rq.payload else disk.read place rq.seg.iovLen.toNat

theorem sg_eq : rq.vbr.sg = [rq.seg] := by
  have hle : rq.vbr.sg.length ≤ 1 := rq.sg_le
  obtain ⟨b, bs, hsg⟩ := List.exists_cons_of_ne_nil rq.sg_ne
  rw [hsg] at hle
  obtain rfl := List.length_eq_zero_iff.1 (Nat.le_zero.1 (Nat.le_of_succ_le_succ hle))
  rw [seg, hsg]
  rfl

theorem seg_mem : rq.seg ∈ rq.vbr.sg := rq.sg_eq ▸ List.mem_singleton_self _

theorem hdr_mem_bufs : rq.hdr ∈ rq.bufs := List.mem_cons_self

theorem seg_mem_bufs : rq.seg ∈ rq.bufs := List.mem_cons_of_mem _ List.mem_cons_self

theorem status_mem_bufs : rq.status ∈ rq.bufs :=
  List.mem_cons_of_mem _ (List.mem_cons_of_mem _ List.mem_cons_self)

theorem type_eq : rq.vbr.type = if rq.vbr.write then 1 else 0 := by
  rw [VirtblkReq.type, rq.op_eq, rq.sg_eq]
  cases rq.vbr.write <;> rfl

/-- The buffers the driver adds are these, in this order, for reads and writes. -/
theorem virtblkAddReq_eq : rq.vbr.virtblkAddReq.1 ++ rq.vbr.virtblkAddReq.2 = rq.bufs := by
  rw [VirtblkReq.virtblkAddReq, rq.type_eq, rq.sg_eq]
  cases rq.vbr.write <;> rfl

end Rq

/-! ## Serving a request -/

theorem leNat_littleEndian (k n : ℕ) : leNat (Fs.littleEndian k n) = n % 256 ^ k := by
  induction k generalizing n with
  | zero => simp [Fs.littleEndian, leNat, Nat.mod_one]
  | succ k ih =>
    rw [Nat.pow_succ', Nat.mod_mul, Fs.littleEndian, leNat, ih]
    rfl

section Serve

variable {σ : Type} {kMaxLength : ℕ} {d : JsDisk σ} {bytes : σ → Store UInt8}
  (rq : Rq kMaxLength) {h : Host σ}

theorem take_header (vbr : VirtblkReq) :
    vbr.header.take 4 = Fs.littleEndian 4 vbr.type.toNat := by
  rw [VirtblkReq.header, List.append_assoc]
  exact List.take_left' (Fs.length_littleEndian _ _)

theorem drop_header (vbr : VirtblkReq) :
    vbr.header.drop 8 = Fs.littleEndian 8 vbr.sector.toNat :=
  List.drop_left' (by simp)

theorem length_header (vbr : VirtblkReq) : vbr.header.length = 16 := by
  simp [VirtblkReq.header]

theorem lklBlkReq_three {hdr b t : Bytes} (hhdr : hdr.length = 16) (ht : t.length = 1) :
    ∃ r, lklBlkReq [hdr, b, t] = some r ∧ r.type = BitVec.ofNat 32 (leNat (hdr.take 4)) ∧
      r.sector = leNat (hdr.drop 8) % 2 ^ 32 ∧ r.buf = [b] := by
  simp [lklBlkReq, hhdr, ht]

/-- The buffers of a request are the block request the driver was asked for. -/
theorem exists_lklBlkReq {mem : Store UInt8} (hhdr : rq.hdr.contents mem = rq.vbr.header) :
    ∃ r, lklBlkReq (rq.bufs.map (·.contents mem)) = some r ∧ r.type = rq.vbr.type ∧
      r.offset = rq.reached ∧ r.buf = [rq.seg.contents mem] := by
  obtain ⟨r, hr, htype, hsector, hbuf⟩ := lklBlkReq_three (b := rq.seg.contents mem)
    (hhdr ▸ length_header rq.vbr) (Store.length_read mem rq.status.iovBase.toNat 1)
  refine ⟨r, hr, ?_, ?_, hbuf⟩
  · rw [htype, hhdr, take_header, leNat_littleEndian, show 256 ^ 4 = 2 ^ 32 from rfl,
      Nat.mod_eq_of_lt rq.vbr.type.isLt, BitVec.ofNat_toNat, BitVec.setWidth_eq]
  · rw [LklBlkReq.offset, hsector, hhdr, drop_header, leNat_littleEndian,
      show 256 ^ 8 = 2 ^ 64 from rfl, Nat.mod_eq_of_lt rq.vbr.sector.isLt, VirtblkReq.sector,
      if_pos rq.op_eq]
    rfl

/-- The disk serves the requests of the block layer. -/
theorem jsRequestEntry_rq (hd : d.Backs bytes) (s : σ) {r : LklBlkReq}
    (htype : r.type = rq.vbr.type) (hoffset : r.offset = rq.reached)
    (hbuf : r.buf = [rq.payload]) :
    bytes (jsRequestEntry kMaxLength d s r).disk = rq.apply rq.reached (bytes s) ∧
      (jsRequestEntry kMaxLength d s r).iovecs = [rq.answer rq.reached (bytes s)] ∧
      (jsRequestEntry kMaxLength d s r).ret = some 0 := by
  have hk : ∀ b ∈ r.buf, b.length ≤ kMaxLength := by
    intro b hb
    rw [hbuf, List.mem_singleton] at hb
    rw [hb, rq.length_payload]
    exact rq.le_max _ rq.seg_mem
  rw [rq.type_eq] at htype
  rw [Rq.apply, Rq.answer]
  cases hw : rq.vbr.write
  · rw [hw] at htype
    have hserve := jsRequestEntry_read (s := s) hd hk hbuf (by rw [htype]; rfl)
    rw [hoffset, rq.length_payload] at hserve
    exact hserve
  · rw [hw] at htype
    have hserve := jsRequestEntry_write (s := s) hd hk hbuf (by rw [htype]; rfl)
    rw [hoffset] at hserve
    exact hserve

theorem Rq.length_answer (place : ℕ) (disk : Store UInt8) :
    (rq.answer place disk).length = rq.seg.iovLen.toNat := by
  rw [Rq.answer]
  split
  · exact rq.length_payload
  · exact Store.length_read _ _ _

/-- A buffer apart from another one is as it was before the other was written. -/
theorem Iovec.contents_write {b b' : Iovec} {mem : Store UInt8} {data : Bytes}
    (hlen : data.length = b'.iovLen.toNat) (h : b.span.Apart b'.span) :
    b.contents (mem.write b'.iovBase.toNat data) = b.contents mem :=
  mem.read_write_of_apart (hlen ▸ h)

theorem Iovec.contents_write_self {b : Iovec} {mem : Store UInt8} {data : Bytes}
    (hlen : data.length = b.iovLen.toNat) :
    b.contents (mem.write b.iovBase.toNat data) = data := by
  rw [Iovec.contents, ← hlen, Store.read_write]

/-- The memory once a request is served. -/
def Rq.serve (disk : Store UInt8) (mem : Store UInt8) : Store UInt8 :=
  ((mem.write rq.status.iovBase.toNat [statusUInt8 LklDevBlkStatus.ioerr]).write
    rq.seg.iovBase.toNat (rq.answer rq.reached disk)).write rq.status.iovBase.toNat [0]

/-- Serving a request of the block layer: it is applied to the disk, where the device takes it to
    be, its segment holds the answer, and its status is a success. -/
theorem blkEnqueue_rq (hd : d.Backs bytes) (hhdr : rq.hdr.contents h.mem = rq.vbr.header)
    (hpayload : rq.seg.contents h.mem = rq.payload)
    (hhs : rq.hdr.span.Apart rq.status.span) (hss : rq.seg.span.Apart rq.status.span) :
    ∃ disk, bytes disk = rq.apply rq.reached (bytes h.disk) ∧
      h.blkEnqueue kMaxLength d (.ofBufs rq.bufs) =
        (⟨rq.serve (bytes h.disk) h.mem, disk, h.hung⟩, 0) := by
  have hone : ∀ b : UInt8, [b].length = rq.status.iovLen.toNat := fun _ => rfl
  rw [← Iovec.contents_write (hone (statusUInt8 LklDevBlkStatus.ioerr)) hhs] at hhdr
  rw [← Iovec.contents_write (hone (statusUInt8 LklDevBlkStatus.ioerr)) hss] at hpayload
  obtain ⟨r, hr, htype, hoffset, hbuf⟩ := exists_lklBlkReq rq hhdr
  obtain ⟨hdisk, hiovecs, hret⟩ :=
    jsRequestEntry_rq rq hd h.disk htype hoffset (hpayload ▸ hbuf)
  refine ⟨_, hdisk, ?_⟩
  have hlast : (VirtioReq.ofBufs rq.bufs).buf.getLast? = some rq.status := rfl
  have hlen : ¬(VirtioReq.ofBufs rq.bufs).buf.length < 3 := Nat.lt_irrefl 3
  have hr' : lklBlkReq ((VirtioReq.ofBufs rq.bufs).buf.map _) = some r := hr
  simp only [Host.blkEnqueue, hlast, if_neg hlen, hr', hret, hiovecs]
  rfl

theorem contents_status_serve (disk mem : Store UInt8) :
    rq.status.contents (rq.serve disk mem) = [0] :=
  Iovec.contents_write_self rfl

theorem contents_seg_serve (disk mem : Store UInt8) (hss : rq.seg.span.Apart rq.status.span) :
    rq.seg.contents (rq.serve disk mem) = rq.answer rq.reached disk :=
  (Iovec.contents_write rfl hss).trans (Iovec.contents_write_self (rq.length_answer _ disk))

/-- Serving a request changes nothing but its segment and its status. -/
theorem contents_serve_of_apart (disk mem : Store UInt8) {b : Iovec}
    (hseg : b.span.Apart rq.seg.span) (hstatus : b.span.Apart rq.status.span) :
    b.contents (rq.serve disk mem) = b.contents mem := by
  rw [Rq.serve, Iovec.contents_write rfl hstatus,
    Iovec.contents_write (rq.length_answer _ disk) hseg, Iovec.contents_write rfl hstatus]

end Serve

/-! ## The driver and the device -/

variable {c : Ring.Size 16} {σ : Type} {kMaxLength : ℕ}

/-- The request put in a queue, which has a descriptor for each of its buffers. -/
def Rq.toRequest (rq : Rq kMaxLength) (hc : 3 ≤ c.num) : Request c (Rq kMaxLength) where
  data := rq
  outSgs := rq.vbr.virtblkAddReq.1
  inSgs := rq.vbr.virtblkAddReq.2
  pos := by
    rw [rq.virtblkAddReq_eq]
    exact show 0 < 3 by decide
  le_max := by
    rw [rq.virtblkAddReq_eq]
    exact show 3 ≤ virtioReqMaxBufs by decide
  le_num := by
    rw [rq.virtblkAddReq_eq]
    exact hc
  valid := by
    rw [rq.virtblkAddReq_eq]
    intro b hb
    simp only [Rq.bufs, List.mem_cons, List.not_mem_nil, or_false] at hb
    obtain rfl | rfl | rfl := hb
    · exact ⟨rq.outHdr_ne, show (16 : BitVec 32) ≠ 0 by decide⟩
    · exact rq.sg_valid _ rq.seg_mem
    · exact ⟨rq.status_ne, show (1 : BitVec 32) ≠ 0 by decide⟩

namespace Blk

/-- The state of a block device: its queue, the requests in which are those of the block
    layer, and the process. -/
abbrev State (c : Ring.Size 16) (kMaxLength : ℕ) (σ : Type) :=
  Virtio.State c (Rq kMaxLength) (Host σ)

/-- The memory of the requests that were not taken yet, which the kernel does not touch. -/
def State.owned (s : State c kMaxLength σ) : List Iovec :=
  (s.submitted.drop s.gotten.length).flatMap fun req => req.data.bufs

inductive Event (c : Ring.Size 16) (kMaxLength : ℕ)
  | queueRq (rq : Rq kMaxLength)
  | write (addr : ℕ) (data : Bytes)
  | queue (l : Virtio.Event c (Rq kMaxLength))

def State.setMem (s : State c kMaxLength σ) (mem : Store UInt8) : State c kMaxLength σ :=
  { s with dev := { s.dev with mem := mem } }

/-- A block device whose requests are served by the disk `d`. The block layer makes requests
    (`queueRq`), and the kernel writes to the memory (`write`), that does not belong to the
    requests made so far; anything else is up to the queue. -/
def system (d : JsDisk σ) (hc : 3 ≤ c.num) :
    System (State c kMaxLength σ) (Event c kMaxLength) where
  Enabled s l := match l with
    | .queueRq rq => rq.seg.contents s.dev.mem = rq.payload ∧
        ((s.owned ++ rq.bufs).map Iovec.span).Pairwise Store.Span.Apart
    | .write addr data => ∀ b ∈ s.owned, b.span.Apart ⟨addr, data.length⟩
    | .queue l => (∀ req, l ≠ .add req) ∧
        (Virtio.system (Host.blkEnqueue kMaxLength d)).Enabled s l
  next s
    | .queueRq rq =>
      (s.setMem (s.dev.mem.write rq.vbr.outHdr.toNat rq.vbr.header)).add (rq.toRequest hc)
    | .write addr data => s.setMem (s.dev.mem.write addr data)
    | .queue l => (Virtio.system (Host.blkEnqueue kMaxLength d)).next s l

/-! ## The invariant -/

variable {d : JsDisk σ} {bytes : σ → Store UInt8} {place : Rq kMaxLength → ℕ}
  {disk₀ : Store UInt8} {hc : 3 ≤ c.num} {s s' : State c kMaxLength σ}
  {flight : List (Entry c (Rq kMaxLength))} {free : List ℕ}

/-- The disk `disk₀` after the first `k` requests, each at its place. -/
def State.diskAt (s : State c kMaxLength σ) (place : Rq kMaxLength → ℕ) (disk₀ : Store UInt8)
    (k : ℕ) : Store UInt8 :=
  ((s.submitted.take k).map Request.data).foldl (fun disk rq => rq.apply (place rq) disk) disk₀

/-- The requests in flight, which are at the places where the device takes them to be, hold what
    they were made with until they are served, and then their answers. -/
structure Stored (bytes : σ → Store UInt8) (place : Rq kMaxLength → ℕ) (disk₀ : Store UInt8)
    (s : State c kMaxLength σ) (flight : List (Entry c (Rq kMaxLength))) : Prop where
  hung : s.dev.hung = false
  disk : bytes s.dev.disk = s.diskAt place disk₀ s.enqueued.length
  placed : ∀ e ∈ flight, place e.req.data = e.req.data.reached
  taken : s.gotten = (s.submitted.map Request.data).take s.gotten.length
  bufs : ∀ e ∈ flight, e.req.bufs = e.req.data.bufs
  apart : (flight.flatMap fun e => e.req.data.bufs.map Iovec.span).Pairwise Store.Span.Apart
  ready : ∀ j e, flight[j]? = some e → s.enqueued.length ≤ s.gotten.length + j →
    e.req.data.hdr.contents s.dev.mem = e.req.data.vbr.header ∧
      e.req.data.seg.contents s.dev.mem = e.req.data.payload
  done : ∀ j e, flight[j]? = some e → s.gotten.length + j < s.enqueued.length →
    e.req.data.status.contents s.dev.mem = [0] ∧
      e.req.data.seg.contents s.dev.mem =
        e.req.data.answer (place e.req.data) (s.diskAt place disk₀ (s.gotten.length + j))

/-- The memory of a request is apart from that of another one. -/
theorem Stored.apart_of_ne (h : Stored bytes place disk₀ s flight) {i j : ℕ}
    {e e' : Entry c (Rq kMaxLength)} (he : flight[i]? = some e) (he' : flight[j]? = some e')
    (hne : i ≠ j) {b b' : Iovec} (hb : b ∈ e.req.data.bufs) (hb' : b' ∈ e'.req.data.bufs) :
    b.span.Apart b'.span := by
  have hpair := (List.pairwise_flatMap.1 h.apart).2
  rw [List.pairwise_iff_getElem] at hpair
  obtain ⟨hi, rfl⟩ := List.getElem?_eq_some_iff.1 he
  obtain ⟨hj, rfl⟩ := List.getElem?_eq_some_iff.1 he'
  rcases Nat.lt_or_gt_of_ne hne with hlt | hlt
  · exact hpair i j hi hj hlt _ (List.mem_map_of_mem hb) _ (List.mem_map_of_mem hb')
  · exact (hpair j i hj hi hlt _ (List.mem_map_of_mem hb') _ (List.mem_map_of_mem hb)).symm

/-- The header and the segment of a request are apart from its status. -/
theorem Stored.apart_status (h : Stored bytes place disk₀ s flight) {e : Entry c (Rq kMaxLength)}
    (he : e ∈ flight) : e.req.data.hdr.span.Apart e.req.data.status.span ∧
      e.req.data.seg.span.Apart e.req.data.status.span := by
  have hpair := (List.pairwise_flatMap.1 h.apart).1 e he
  simp only [Rq.bufs, List.map_cons, List.map_nil, List.pairwise_cons, List.mem_cons,
    List.not_mem_nil, or_false, forall_eq_or_imp, forall_eq] at hpair
  exact ⟨hpair.1.2, hpair.2.1⟩

/-- Writing to other memory changes nothing. -/
theorem Stored.setMem (h : Stored bytes place disk₀ s flight) {mem : Store UInt8}
    (hmem : ∀ e ∈ flight, ∀ b ∈ e.req.data.bufs, b.contents mem = b.contents s.dev.mem) :
    Stored bytes place disk₀ (s.setMem mem) flight where
  hung := h.hung
  disk := h.disk
  placed := h.placed
  taken := h.taken
  bufs := h.bufs
  apart := h.apart
  ready j e he hj := by
    have hmem := hmem e (List.mem_of_getElem? he)
    have hready := h.ready j e he hj
    rw [← hmem _ e.req.data.hdr_mem_bufs, ← hmem _ e.req.data.seg_mem_bufs] at hready
    exact hready
  done j e he hj := by
    have hmem := hmem e (List.mem_of_getElem? he)
    have hdone := h.done j e he hj
    rw [← hmem _ e.req.data.status_mem_bufs, ← hmem _ e.req.data.seg_mem_bufs] at hdone
    exact hdone

theorem Stored.same (h : Stored bytes place disk₀ s flight) (hs : Same s s') :
    Stored bytes place disk₀ s' flight := by
  obtain ⟨hung, disk, hplace, taken, bufs, apart, ready, done⟩ := h
  refine ⟨?_, ?_, hplace, ?_, bufs, apart, ?_, ?_⟩
  · rwa [hs.dev]
  · rwa [hs.dev, State.diskAt, hs.submitted, hs.enqueued]
  · rwa [hs.submitted, hs.gotten]
  · rwa [hs.dev, hs.enqueued, hs.gotten]
  · simp only [State.diskAt, hs.dev, hs.enqueued, hs.gotten, hs.submitted]
    exact done

/-- The requests made so far are served before the ones made later. -/
theorem diskAt_added {req : Request c (Rq kMaxLength)} {k : ℕ} (hk : k ≤ s.submitted.length) :
    State.diskAt (Virtio.State.added s req) place disk₀ k = s.diskAt place disk₀ k := by
  change (((s.submitted ++ [req]).take k).map Request.data).foldl _ _ = _
  rw [List.take_append_of_le_length hk]
  rfl

/-- A request is made, its header having been written. -/
theorem Stored.added (h : Stored bytes place disk₀ s flight) (hinv : Inv s flight free)
    {rq : Rq kMaxLength} (hplace : place rq = rq.reached)
    (hhdr : rq.hdr.contents s.dev.mem = rq.vbr.header)
    (hpayload : rq.seg.contents s.dev.mem = rq.payload)
    (hapart : ((flight.flatMap fun e => e.req.data.bufs.map Iovec.span) ++
      rq.bufs.map Iovec.span).Pairwise Store.Span.Apart) (chain : List ℕ) :
    Stored bytes place disk₀ (Virtio.State.added s (rq.toRequest hc))
      (flight ++ [⟨rq.toRequest hc, chain⟩]) := by
  have hlen := hinv.length_submitted
  have hle := hinv.enqueued_le
  constructor
  case hung => exact h.hung
  case disk => exact h.disk.trans (diskAt_added hle).symm
  case placed =>
    intro e he
    rcases List.mem_append.1 he with he | he
    · exact h.placed e he
    · rw [List.mem_singleton.1 he]
      exact hplace
  case taken => exact Service.take_map_append _ h.taken (hinv.gotten_le.trans hle)
  case bufs =>
    intro e he
    rcases List.mem_append.1 he with he | he
    · exact h.bufs e he
    · rw [List.mem_singleton.1 he]
      exact rq.virtblkAddReq_eq
  case apart =>
    rw [List.flatMap_append, List.flatMap_singleton]
    exact hapart
  case ready =>
    intro j e he hj
    rcases Nat.lt_or_ge j flight.length with hlt | hge
    · rw [List.getElem?_append_left hlt] at he
      exact h.ready j e he hj
    · rw [List.getElem?_append_right hge, List.getElem?_singleton] at he
      split at he
      case isTrue =>
        obtain rfl := Option.some.inj he
        exact ⟨hhdr, hpayload⟩
      case isFalse => cases he
  case done =>
    intro j e he hj
    have hj' : s.gotten.length + j < s.enqueued.length := hj
    rw [List.getElem?_append_left (by omega)] at he
    obtain ⟨hstatus, hseg⟩ := h.done j e he hj
    exact ⟨hstatus, hseg.trans (congrArg _ (diskAt_added (by omega)).symm)⟩

/-- A request is served. -/
theorem Stored.served (hd : d.Backs bytes) (h : Stored bytes place disk₀ s flight)
    (hinv : Inv s flight free) {e : Entry c (Rq kMaxLength)}
    (he : flight[s.enqueued.length - s.gotten.length]? = some e) (irq : Bool) :
    Stored bytes place disk₀ (s.served (Host.blkEnqueue kMaxLength d) e.req irq) flight := by
  have hle := hinv.gotten_le
  have hmem := List.mem_of_getElem? he
  obtain ⟨hhs, hss⟩ := h.apart_status hmem
  obtain ⟨hhdr, hpayload⟩ := h.ready _ _ he (by omega)
  obtain ⟨disk, hdisk, hserve⟩ := blkEnqueue_rq e.req.data hd hhdr hpayload hhs hss
  rw [← h.bufs e hmem] at hserve
  have hdev : (s.served (Host.blkEnqueue kMaxLength d) e.req irq).dev =
      ⟨e.req.data.serve (bytes s.dev.disk) s.dev.mem, disk, s.dev.hung⟩ :=
    congrArg Prod.fst hserve
  have hlen : (s.served (Host.blkEnqueue kMaxLength d) e.req irq).enqueued.length =
      s.enqueued.length + 1 := List.length_append
  -- the other requests are as they were
  have hother : ∀ j e', flight[j]? = some e' → j ≠ s.enqueued.length - s.gotten.length →
      ∀ b ∈ e'.req.data.bufs,
        b.contents (e.req.data.serve (bytes s.dev.disk) s.dev.mem) = b.contents s.dev.mem :=
    fun j e' he' hne b hb => contents_serve_of_apart _ _ _
      (h.apart_of_ne he' he hne hb e.req.data.seg_mem_bufs)
      (h.apart_of_ne he' he hne hb e.req.data.status_mem_bufs)
  constructor
  case hung => rw [hdev]; exact h.hung
  case disk =>
    have hreq := hinv.submitted_getElem? he
    rw [Nat.add_sub_cancel' hle] at hreq
    rw [hdev, hlen]
    change bytes disk = ((s.submitted.take (s.enqueued.length + 1)).map Request.data).foldl _ _
    rw [hdisk, h.disk, List.take_add_one, hreq]
    simp [State.diskAt, h.placed e hmem]
  case placed => exact h.placed
  case taken => exact h.taken
  case bufs => exact h.bufs
  case apart => exact h.apart
  case ready =>
    intro j e' he' hj
    rw [hlen] at hj
    have hj' : s.enqueued.length + 1 ≤ s.gotten.length + j := hj
    have hother := hother j e' he' (by omega)
    rw [hdev, hother _ e'.req.data.hdr_mem_bufs, hother _ e'.req.data.seg_mem_bufs]
    exact h.ready j e' he' (by omega)
  case done =>
    intro j e' he' hj
    rw [hlen] at hj
    have hj' : s.gotten.length + j < s.enqueued.length + 1 := hj
    rw [hdev]
    rcases Nat.lt_or_ge (s.gotten.length + j) s.enqueued.length with hlt | hge
    · have hother := hother j e' he' (by omega)
      rw [hother _ e'.req.data.status_mem_bufs, hother _ e'.req.data.seg_mem_bufs]
      exact h.done j e' he' hlt
    · obtain rfl : j = s.enqueued.length - s.gotten.length := by omega
      obtain rfl := Option.some.inj (he.symm.trans he')
      refine ⟨contents_status_serve _ _ _, (contents_seg_serve _ _ _ hss).trans ?_⟩
      change _ = e.req.data.answer _ (s.diskAt place disk₀ (s.gotten.length + _))
      rw [Nat.add_sub_cancel' hle, h.disk, h.placed e hmem]

theorem Stored.take {e : Entry c (Rq kMaxLength)} (h : Stored bytes place disk₀ s (e :: flight))
    (hinv : Inv s (e :: flight) free) (availRing : ℕ → BitVec 16) :
    Stored bytes place disk₀ (s.taken e availRing) flight := by
  have hlen : (s.taken e availRing).gotten.length = s.gotten.length + 1 := List.length_append
  constructor
  case hung => exact h.hung
  case disk => exact h.disk
  case placed => exact fun e' he' => h.placed e' (List.mem_cons_of_mem _ he')
  case taken =>
    have hreq : s.submitted[s.gotten.length]? = some e.req := hinv.submitted_getElem? (j := 0) rfl
    have htaken := Service.append_toList_eq_take h.taken
    rw [hreq] at htaken
    rw [hlen]
    exact htaken
  case bufs => exact fun e' he' => h.bufs e' (List.mem_cons_of_mem _ he')
  case apart => exact (List.pairwise_append.1 h.apart).2.1
  case ready =>
    intro j e' he' hj
    rw [hlen, Nat.add_assoc, Nat.add_comm 1] at hj
    exact h.ready (j + 1) e' he' hj
  case done =>
    intro j e' he' hj
    rw [hlen, Nat.add_assoc, Nat.add_comm 1] at hj ⊢
    exact h.done (j + 1) e' he' hj

/-! ## Every event -/

/-- The memory of the requests in flight. -/
theorem owned_eq (hinv : Inv s flight free) :
    s.owned = flight.flatMap fun e => e.req.data.bufs := by
  rw [State.owned, hinv.submitted, List.flatMap_map]

theorem Stored.queueRq (h : Stored bytes place disk₀ s flight) (hinv : Inv s flight free)
    {rq : Rq kMaxLength} (hplace : place rq = rq.reached)
    (hpayload : rq.seg.contents s.dev.mem = rq.payload)
    (hapart : ((s.owned ++ rq.bufs).map Iovec.span).Pairwise Store.Span.Apart) :
    ∃ flight' free', Inv ((system d hc).next s (.queueRq rq)) flight' free' ∧
      Stored bytes place disk₀ ((system d hc).next s (.queueRq rq)) flight' := by
  rw [owned_eq hinv, List.map_append, List.map_flatMap] at hapart
  obtain ⟨-, hrq, hother⟩ := List.pairwise_append.1 hapart
  have hlen : rq.vbr.header.length = rq.hdr.iovLen.toNat := length_header rq.vbr
  have hinv' := hinv.setDev { s.dev with mem := s.dev.mem.write rq.vbr.outHdr.toNat rq.vbr.header }
  have h' : Stored bytes place disk₀
      (s.setMem (s.dev.mem.write rq.vbr.outHdr.toNat rq.vbr.header)) flight := by
    refine h.setMem fun e he b hb => Iovec.contents_write hlen ?_
    exact hother _ (List.mem_flatMap.2 ⟨e, he, List.mem_map_of_mem hb⟩) _
      (List.mem_map_of_mem rq.hdr_mem_bufs)
  obtain hs | ⟨hfree, hs⟩ := hinv'.add_same (rq.toRequest hc)
  · exact ⟨flight, free, hinv'.same hs, h'.same hs⟩
  · refine ⟨_, _, (hinv'.added hfree).same hs,
      (h'.added hinv' hplace (Iovec.contents_write_self hlen) ?_ hapart _).same hs⟩
    have hseg : rq.seg.span.Apart rq.hdr.span :=
      ((List.pairwise_cons.1 hrq).1 _ (List.mem_map_of_mem List.mem_cons_self)).symm
    exact (Iovec.contents_write hlen hseg).trans hpayload

theorem Stored.queue (hd : d.Backs bytes) (h : Stored bytes place disk₀ s flight)
    (hinv : Inv s flight free) {l : Virtio.Event c (Rq kMaxLength)}
    (hadd : ∀ req, l ≠ .add req)
    (hstep : Step (Host.blkEnqueue kMaxLength d) flight free s l s') :
    ∃ flight' free', Inv s' flight' free' ∧ Stored bytes place disk₀ s' flight' := by
  cases hstep with
  | same hs => exact ⟨_, _, hinv.same hs, h.same hs⟩
  | added hfree hs => exact absurd rfl (hadd _)
  | served irq hlt he => exact ⟨_, _, hinv.served _ hlt he irq, h.served hd hinv he irq⟩
  | taken hflight hlt havail =>
    subst hflight
    exact ⟨_, _, hinv.taken hlt havail, h.take hinv _⟩

theorem Stored.write (h : Stored bytes place disk₀ s flight) (hinv : Inv s flight free) {addr : ℕ}
    {data : Bytes} (hapart : ∀ b ∈ s.owned, b.span.Apart ⟨addr, data.length⟩) :
    Stored bytes place disk₀ (s.setMem (s.dev.mem.write addr data)) flight := by
  rw [owned_eq hinv] at hapart
  exact h.setMem fun e he b hb =>
    Store.read_write_of_apart _ (hapart b (List.mem_flatMap.2 ⟨e, he, hb⟩))

variable {numMax : BitVec 32} {desc avail used : BitVec 64} {mem : Store UInt8} {disk : σ}

/-- The requests that are made are at the places where the device takes them to be. -/
def Placed (place : Rq kMaxLength → ℕ) (_ : State c kMaxLength σ) : Event c kMaxLength → Prop
  | .queueRq rq => place rq = rq.reached
  | _ => True

theorem exists_stored (place : Rq kMaxLength → ℕ) (hd : d.Backs bytes)
    (hs : ((system d hc).restrict (Placed place)).Reachable
      (init c (Rq kMaxLength) (.setUp c numMax desc avail used) ⟨mem, disk, false⟩) s) :
    ∃ flight free, Inv s flight free ∧ Stored bytes place (bytes disk) s flight := by
  refine hs.invariant (P := fun s => ∃ flight free, Inv s flight free ∧
    Stored bytes place (bytes disk) s flight) ⟨[], _, inv_init c _ numMax desc avail used _, ?_⟩ ?_
  · exact ⟨rfl, rfl, fun _ he => absurd he List.not_mem_nil, rfl,
      fun _ he => absurd he List.not_mem_nil, List.Pairwise.nil,
      fun _ _ he => by simp at he, fun _ _ he => by simp at he⟩
  · rintro s l ⟨flight, free, hinv, h⟩ ⟨hl, hplace⟩
    cases l with
    | queueRq rq => exact h.queueRq (d := d) hinv hplace hl.1 hl.2
    | write addr data => exact ⟨flight, free, hinv.setDev _, h.write hinv hl⟩
    | queue l => exact h.queue hd hinv hl.1 (hinv.step l)

/-- A request that was served and not taken yet has succeeded. -/
theorem Stored.result (h : Stored bytes place disk₀ s flight) (hinv : Inv s flight free) {k : ℕ}
    {req : Request c (Rq kMaxLength)} (hreq : s.submitted[k]? = some req)
    (hle : s.gotten.length ≤ k) (hlt : k < s.enqueued.length) :
    virtblkResult (s.dev.mem req.data.vbr.status.toNat) = 0 ∧
      req.data.seg.contents s.dev.mem =
        req.data.answer (place req.data) (s.diskAt place disk₀ k) := by
  -- the request is in flight
  obtain ⟨j, rfl⟩ := Nat.exists_eq_add_of_le hle
  rw [← List.getElem?_drop, hinv.submitted, List.getElem?_map, Option.map_eq_some_iff] at hreq
  obtain ⟨e, he, rfl⟩ := hreq
  obtain ⟨hstatus, hseg⟩ := h.done j e he hlt
  refine ⟨?_, hseg⟩
  rw [show s.dev.mem e.req.data.vbr.status.toNat = 0 from List.head_eq_of_cons_eq hstatus]
  rfl

/-- The requests that are made are in the first 2 TiB. -/
def Below (_ : State c kMaxLength σ) : Event c kMaxLength → Prop
  | .queueRq rq => rq.vbr.pos.toNat < 2 ^ 32
  | _ => True

/-- Whatever the block layer asks for in the first 2 TiB, and in whatever order the driver and
    the device go on, the requests are served in the order they were made, and taken back in
    that order: the disk is what the requests served so far make of it, and a request that was
    served and not taken yet has succeeded, its segment being what a read at that point finds. -/
theorem served_in_order (hd : d.Backs bytes) (hs : ((system d hc).restrict Below).Reachable
      (init c (Rq kMaxLength) (.setUp c numMax desc avail used) ⟨mem, disk, false⟩) s) :
    s.crashed = false ∧ s.dev.hung = false ∧
      bytes s.dev.disk = s.diskAt Rq.offset (bytes disk) s.enqueued.length ∧
      s.gotten = (s.submitted.map Request.data).take s.gotten.length ∧
      ∀ k req, s.submitted[k]? = some req → s.gotten.length ≤ k → k < s.enqueued.length →
        virtblkResult (s.dev.mem req.data.vbr.status.toNat) = 0 ∧
          req.data.seg.contents s.dev.mem =
            req.data.answer req.data.offset (s.diskAt Rq.offset (bytes disk) k) := by
  have hplaced : ∀ (s : State c kMaxLength σ) l, Below s l → Placed Rq.offset s l := by
    intro s l hl
    cases l with
    | queueRq rq => exact rq.offset_eq_reached hl
    | write addr data => trivial
    | queue l => trivial
  obtain ⟨flight, free, hinv, h⟩ := exists_stored Rq.offset hd
    (hs.mono (fun s l hl => ⟨hl.1, hplaced s l hl.2⟩) rfl)
  exact ⟨hinv.crashed, h.hung, h.disk, h.taken, fun k req => h.result hinv⟩

/-- A request that writes four bytes to the second sector. -/
def sampleRq : Rq 0x7fffffff where
  vbr := ⟨.fs, true, 1, 0, [⟨0x2000, 4⟩], 0x1000, 0x3000, ⟨0, 0⟩, 0, 0⟩
  payload := [7, 7, 7, 7]
  op_eq := rfl
  sg_ne := List.cons_ne_nil _ _
  sg_le := by decide
  sg_valid := by decide
  outHdr_ne := by decide
  status_ne := by decide
  le_max := by decide
  length_payload := rfl

def sampleInit : State sampleSize 0x7fffffff (Store UInt8) :=
  init sampleSize _ (.setUp sampleSize 128 0x3000 0x4000 0x5000) ⟨fun _ => 7, fun _ => 0, false⟩

def sampleEvents : List (Event sampleSize 0x7fffffff) :=
  [.queueRq sampleRq, .queue .kick, .queue .notify, .queue .iterate]

def sample : State sampleSize 0x7fffffff (Store UInt8) :=
  (system memoryDisk (by decide)).run sampleInit sampleEvents

theorem isRun_sample :
    ((system memoryDisk (by decide)).restrict Below).IsRun sampleInit sampleEvents :=
  ⟨⟨⟨rfl, by decide⟩, show 1 < 2 ^ 32 by decide⟩, ⟨⟨nofun, rfl, by decide⟩, trivial⟩,
    ⟨⟨nofun, rfl, by decide⟩, trivial⟩, ⟨⟨nofun, rfl, by decide⟩, trivial⟩, trivial⟩

/-- The request is served, and succeeds. -/
theorem served_in_order_sample :
    memoryDisk.Backs id ∧
      sample.dev.disk = sample.diskAt Rq.offset (fun _ => 0) sample.enqueued.length ∧
      sample.enqueued.length = 1 ∧ virtblkResult (sample.dev.mem 0x3000) = 0 :=
  have h := served_in_order memoryDisk_backs (System.reachable_run isRun_sample)
  ⟨memoryDisk_backs, h.2.2.1, rfl, (h.2.2.2.2 0 _ rfl (Nat.le_refl 0) Nat.one_pos).1⟩

/-- A write that was served last is where the device took it to be, and has succeeded: one past
    the first 2 TiB has replaced what was stored before them. -/
theorem written_at_reached (hd : d.Backs bytes) (hs : (system d hc).Reachable
      (init c (Rq kMaxLength) (.setUp c numMax desc avail used) ⟨mem, disk, false⟩) s) {k : ℕ}
    (hk : s.enqueued.length = k + 1) {req : Request c (Rq kMaxLength)}
    (hreq : s.submitted[k]? = some req) (hwrite : req.data.vbr.write = true) :
    (bytes s.dev.disk).read (req.data.vbr.pos.toNat % 2 ^ 32 * sectorSize)
        req.data.payload.length = req.data.payload ∧
      (s.gotten.length ≤ k → virtblkResult (s.dev.mem req.data.vbr.status.toNat) = 0) := by
  have hplaced : ∀ (s : State c kMaxLength σ) l, Placed Rq.reached s l := by
    intro s l
    cases l with
    | queueRq rq => exact rfl
    | write addr data => trivial
    | queue l => trivial
  obtain ⟨flight, free, hinv, h⟩ := exists_stored Rq.reached hd
    (hs.mono (fun s l hl => ⟨hl, hplaced s l⟩) rfl)
  refine ⟨?_, fun hle => (h.result hinv hreq hle (by omega)).1⟩
  have hdisk : bytes s.dev.disk =
      req.data.apply req.data.reached (s.diskAt Rq.reached (bytes disk) k) := by
    rw [h.disk, hk, State.diskAt, List.take_add_one, hreq]
    simp [State.diskAt]
  rw [hdisk, Rq.apply, if_pos hwrite]
  exact Store.read_write _ _ _

/-- A request that writes four bytes to the sector `2 ^ 32`. -/
def sampleHighRq : Rq 0x7fffffff :=
  { sampleRq with
    vbr := { sampleRq.vbr with pos := 0x100000000 } }

def sampleHighEvents : List (Event sampleSize 0x7fffffff) :=
  [.queueRq sampleHighRq, .queue .kick, .queue .notify, .queue .iterate]

/-- The bytes are written to the first sector. -/
theorem written_at_reached_sample :
    let s := (system memoryDisk (by decide)).run sampleInit sampleHighEvents
    s.dev.disk.read 0 4 = [7, 7, 7, 7] ∧ virtblkResult (s.dev.mem 0x3000) = 0 := by
  have hrun : (system memoryDisk (by decide)).IsRun sampleInit sampleHighEvents :=
    ⟨⟨rfl, by decide⟩, ⟨nofun, rfl, by decide⟩, ⟨nofun, rfl, by decide⟩,
      ⟨nofun, rfl, by decide⟩, trivial⟩
  have h := written_at_reached memoryDisk_backs (System.reachable_run hrun) (k := 0) rfl rfl rfl
  exact ⟨h.1, h.2 (Nat.le_refl 0)⟩

end Blk

end Virtio

end NodeLkl
