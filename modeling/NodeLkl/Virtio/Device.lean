import NodeLkl.Virtio.Vring

/-!
# Virtio devices

The device side of a virtio queue, as LKL implements it in the host. When it is
notified, the device goes through the requests in the available ring. For each of
them it collects the buffers (`virtioProcessOne`), by following the chain of
descriptors, or, for a queue whose buffers are merged (`maxMergeLen`), by taking
as many entries of the ring as needed. It hands them to the kind of device
(`Ops.enqueue`), which serves the request, at once, and completes it
(`virtioReqComplete`): the request is put in the used ring, and the driver
interrupted if it has to.

What the device cannot handle is a panic, which aborts the process.

* `gather_of_spells`: the buffers collected are those of the chain;
* `virtioReqComplete_eq`: completing a request puts one entry in the used ring;
* `virtioProcessOne_eq`: both together, on a queue whose buffers are not merged.
-/

namespace NodeLkl

namespace Virtio

/-- The errors for which the device aborts. -/
inductive Panic
  | badVringDesc
  | tooManyChainedBufs
  deriving DecidableEq

/-- A queue of a device, as the driver set it up: its size, the addresses of its
    memory, and how far the device is in it. -/
structure VirtioQueue where
  numMax : BitVec 32
  num : BitVec 32
  ready : BitVec 32
  maxMergeLen : BitVec 32
  desc : BitVec 64
  avail : BitVec 64
  used : BitVec 64
  lastAvailIdx : BitVec 16
  lastUsedIdxSignaled : BitVec 16
  deriving DecidableEq

/-- The largest number of buffers of a request. -/
abbrev virtioReqMaxBufs : ℕ := 19

/-- A request, as it is handed to the kind of device. -/
structure VirtioReq where
  buf : List Iovec
  totalLen : BitVec 32
  deriving DecidableEq

variable {δ : Type}

/-- A kind of device, with its states `δ`: a request is served, and completed
    with a number of bytes, or refused for now. -/
structure Ops (δ : Type) where
  enqueue : δ → VirtioReq → δ × Option (BitVec 32)

/-! ## Completing a request -/

def virtioGetUsedEvent (q : VirtioQueue) (r : Vring) : BitVec 16 := r.availRing q.num.toNat

def virtioSetAvailEvent (r : Vring) (val : BitVec 16) : Vring := { r with availEvent := val }

def virtioAddUsed (q : VirtioQueue) (r : Vring) (usedIdx availIdx len : BitVec 16) : Vring :=
  let descIdx := r.availRing (Ring.slot q.num availIdx)
  let entry := ⟨descIdx.setWidth 32, len.setWidth 32⟩
  { r with usedRing := Function.update r.usedRing (Ring.slot q.num usedIdx) entry }

def virtioSyncUsedIdx (r : Vring) (idx : BitVec 16) : Vring := { r with usedIdx := idx }

/-- The smaller of two lengths. -/
def minLen (a b : BitVec 32) : BitVec 32 := if a < b then a else b

/-- An entry of the used ring for every entry of the available one whose buffer is
    used, `len` bytes in all: the memory, and the indices after them. -/
def completeLoop (q : VirtioQueue) : List Iovec → Vring → (usedIdx availIdx : BitVec 16) →
    (len : BitVec 32) → Vring × BitVec 16 × BitVec 16
  | [], r, usedIdx, availIdx, _ => (r, usedIdx, availIdx)
  | b :: bs, r, usedIdx, availIdx, len =>
    let usedLen : BitVec 16 :=
      if q.maxMergeLen = 0 then len.setWidth 16 else (minLen len b.iovLen).setWidth 16
    let r := virtioAddUsed q r usedIdx availIdx usedLen
    let len := len - usedLen.setWidth 32
    if len = 0 then (r, usedIdx + 1, availIdx + 1)
    else completeLoop q bs r (usedIdx + 1) (availIdx + 1) len

/-- What completing a request leaves: the queue, its memory, and whether the driver
    is interrupted. -/
structure Completed where
  q : VirtioQueue
  ring : Vring
  irq : Bool

/-- Completing the request `req`, taken at `idx`, with `len` bytes. -/
def virtioReqComplete (q : VirtioQueue) (r : Vring) (idx : BitVec 16) (req : VirtioReq)
    (len : BitVec 32) : Completed :=
  let (r, usedIdx, availIdx) := completeLoop q req.buf r r.usedIdx idx len
  let r := virtioSyncUsedIdx r usedIdx
  let q := { q with lastAvailIdx := availIdx }
  -- the driver is interrupted when nothing is available any more, and when it asked to be
  let irq := q.lastAvailIdx == r.availIdx ||
    vringNeedEvent (virtioGetUsedEvent q r) r.usedIdx q.lastUsedIdxSignaled
  let signaled := if irq then r.usedIdx else q.lastUsedIdxSignaled
  ⟨{ q with lastUsedIdxSignaled := signaled }, r, irq⟩

/-! ## Collecting the buffers of a request -/

def vringDescAtLeIdx (q : VirtioQueue) (r : Vring) (leIdx : BitVec 16) : VringDesc :=
  r.desc (Ring.slot q.num leIdx)

def vringDescAtAvailIdx (q : VirtioQueue) (r : Vring) (idx : BitVec 16) : VringDesc :=
  vringDescAtLeIdx q r (r.availRing (Ring.slot q.num idx))

def addDevBufFromVringDesc (req : VirtioReq) (d : VringDesc) : Except Panic VirtioReq :=
  if d.addr = 0 ∨ d.len = 0 then .error .badVringDesc
  else .ok ⟨req.buf ++ [⟨d.addr, d.len⟩], req.totalLen + d.len⟩

/-- The descriptor that comes next, if there is one, and the index it is at. -/
def getNextDesc (q : VirtioQueue) (r : Vring) (d : VringDesc) (idx : BitVec 16) :
    Option (VringDesc × BitVec 16) :=
  if q.maxMergeLen ≠ 0 then
    let idx := idx + 1
    if idx = r.availIdx then none else some (vringDescAtAvailIdx q r idx, idx)
  else if d.flags &&& VringDescF.next = 0 then none
  else some (vringDescAtLeIdx q r d.next, idx)

/-- The buffers from the descriptor `d` on, `n` of them at most (and at least one):
    the request, and the descriptor at which the loop was left, if any. -/
def gather (q : VirtioQueue) (r : Vring) : (n : ℕ) → VringDesc → (idx : BitVec 16) →
    VirtioReq → Except Panic (VirtioReq × Option VringDesc)
  | n, d, idx, req => do
    let req ← addDevBufFromVringDesc req d
    if q.maxMergeLen ≠ 0 ∧ q.maxMergeLen < req.totalLen then return (req, some d)
    match getNextDesc q r d idx with
    | none => return (req, none)
    | some (d, idx) =>
      match n with
      | 0 | 1 => return (req, some d)
      | n + 2 => gather q r (n + 1) d idx req

/-- What processing a request leaves: the state of the device, the request, the
    queue and its memory, and whether the driver is interrupted; `accepted` unless
    the device refused the request. -/
structure Processed (δ : Type) where
  dev : δ
  req : VirtioReq
  q : VirtioQueue
  ring : Vring
  irq : Bool
  accepted : Bool

/-- The next request of the available ring is collected, and handed to the device. -/
def virtioProcessOne (ops : Ops δ) (q : VirtioQueue) (r : Vring) (s : δ) :
    Except Panic (Processed δ) := do
  let idx := q.lastAvailIdx
  let (req, desc) ← gather q r virtioReqMaxBufs (vringDescAtAvailIdx q r idx) idx ⟨[], 0⟩
  if desc.any fun d => d.flags &&& VringDescF.next ≠ 0 then throw .tooManyChainedBufs
  match ops.enqueue s req with
  | (s, none) => return ⟨s, req, q, r, false, false⟩
  | (s, some len) =>
    let c := virtioReqComplete q r idx req len
    return ⟨s, req, c.q, c.ring, c.irq, true⟩

/-! ## Queues whose buffers are not merged -/

/-- The request with the buffers `bs`. -/
def VirtioReq.ofBufs (bs : List Iovec) : VirtioReq :=
  ⟨bs, bs.foldl (fun n b => n + b.iovLen) 0⟩

variable {c : Ring.Size 16} {q : VirtioQueue} {r : Vring}

theorem addDevBufFromVringDesc_of_valid {d : VringDesc} {b : Iovec} (req : VirtioReq)
    (haddr : d.addr = b.iovBase) (hlen : d.len = b.iovLen) (hb : b.Valid) :
    addDevBufFromVringDesc req d = .ok ⟨req.buf ++ [b], req.totalLen + b.iovLen⟩ := by
  rw [addDevBufFromVringDesc, haddr, hlen, if_neg (not_or.2 hb)]

section NotMerged

variable (hnum : q.num = c.word) (hmerge : q.maxMergeLen = 0)

include hmerge

/-- The descriptor after the last one of a chain is none. -/
theorem getNextDesc_of_last {d : VringDesc} (hd : d.flags &&& VringDescF.next = 0)
    (idx : BitVec 16) : getNextDesc q r d idx = none := by
  rw [getNextDesc, if_neg (not_not.2 hmerge), if_pos hd]

/-- A request that is completed with less than `2 ^ 16` bytes uses one entry of the
    used ring, whatever its buffers are. -/
theorem completeLoop_eq {bs : List Iovec} (hbs : bs ≠ []) (usedIdx availIdx len : BitVec 16) :
    completeLoop q bs r usedIdx availIdx (len.setWidth 32) =
      (virtioAddUsed q r usedIdx availIdx len, usedIdx + 1, availIdx + 1) := by
  obtain ⟨b, bs, rfl⟩ := List.exists_cons_of_ne_nil hbs
  have hlen : (len.setWidth 32).setWidth 16 = len := by
    rw [BitVec.setWidth_setWidth_of_le _ (by decide), BitVec.setWidth_eq]
  rw [completeLoop]
  simp only [hmerge, if_true, hlen, BitVec.sub_self]
  rfl

/-- Completing a request puts its first descriptor in the used ring, and interrupts
    the driver if nothing else is available. -/
theorem virtioReqComplete_eq {req : VirtioReq} (hbs : req.buf ≠ []) (idx len : BitVec 16) :
    ∃ irq, (idx + 1 = r.availIdx → irq = true) ∧
      virtioReqComplete q r idx req (len.setWidth 32) = {
        q := { q with
          lastAvailIdx := idx + 1
          lastUsedIdxSignaled := if irq then r.usedIdx + 1 else q.lastUsedIdxSignaled }
        ring := { virtioAddUsed q r r.usedIdx idx len with usedIdx := r.usedIdx + 1 }
        irq := irq } := by
  rw [virtioReqComplete, completeLoop_eq hmerge hbs]
  refine ⟨_, fun heq => ?_, rfl⟩
  rw [Bool.or_eq_true, beq_iff_eq]
  exact .inl heq

include hnum

/-- The descriptor after another one of a chain is the one it links to. -/
theorem getNextDesc_of_next {d : VringDesc} (hd : d.flags &&& VringDescF.next ≠ 0)
    (hlt : d.next.toNat < c.num) (idx : BitVec 16) :
    getNextDesc q r d idx = some (r.desc d.next.toNat, idx) := by
  rw [getNextDesc, if_neg (not_not.2 hmerge), if_neg hd, vringDescAtLeIdx, hnum,
    Ring.slot_of_lt c hlt]

/-- The buffers collected from the first descriptor of a chain are those of the
    chain, if they are valid, and not too many. -/
theorem gather_of_spells {n i : ℕ} {ch : List ℕ} {bs : List Iovec}
    (hch : Spells r.desc (i :: ch) bs) (hlt : ∀ j ∈ ch, j < c.num) (hvalid : ∀ b ∈ bs, b.Valid)
    (hn : bs.length ≤ n) (idx : BitVec 16) (req : VirtioReq) :
    gather q r n (r.desc i) idx req = .ok (⟨req.buf ++ bs,
      bs.foldl (fun n b => n + b.iovLen) req.totalLen⟩, none) := by
  induction ch generalizing n i bs req with
  | nil =>
    match bs, hch with
    | [b], ⟨haddr, hlen, hflags⟩ =>
      have hadd := addDevBufFromVringDesc_of_valid req haddr hlen (hvalid b List.mem_cons_self)
      rw [gather, hadd]
      simp [hmerge, getNextDesc_of_last hmerge hflags]
  | cons j ch ih =>
    match bs, hch with
    | b :: b' :: bs, ⟨haddr, hlen, hflags, hnext, hch⟩ =>
      have hadd := addDevBufFromVringDesc_of_valid req haddr hlen (hvalid b List.mem_cons_self)
      have hj : (r.desc i).next.toNat < c.num := hnext ▸ hlt j List.mem_cons_self
      obtain ⟨n, rfl⟩ : ∃ m, n = m + 2 :=
        ⟨n - 2, by simp only [List.length_cons] at hn; omega⟩
      have ih := ih hch (fun k hk => hlt k (List.mem_cons_of_mem _ hk))
        (fun b hb => hvalid b (List.mem_cons_of_mem _ hb))
        (Nat.le_of_succ_le_succ hn) ⟨req.buf ++ [b], req.totalLen + b.iovLen⟩
      rw [gather, hadd]
      simp only [bind, Except.bind, hmerge, ne_eq, not_true_eq_false, false_and, if_false,
        getNextDesc_of_next hnum hmerge hflags hj, hnext, ih, List.append_assoc,
        List.singleton_append, List.foldl_cons]

end NotMerged

/-- A kind of device that serves every request at once, and completes it with less
    than `2 ^ 16` bytes. -/
def Ops.sync (serve : δ → VirtioReq → δ × BitVec 16) : Ops δ where
  enqueue s req := ((serve s req).1, some ((serve s req).2.setWidth 32))

/-- The memory of the queue `q` after its next request is put in the used ring. -/
def Vring.use (q : VirtioQueue) (r : Vring) (len : BitVec 16) : Vring :=
  { virtioAddUsed q r r.usedIdx q.lastAvailIdx len with usedIdx := r.usedIdx + 1 }

/-- Processing a request whose chain is well-formed: the device is handed the
    buffers of the chain, and the request put in the used ring. -/
theorem virtioProcessOne_eq (serve : δ → VirtioReq → δ × BitVec 16) (hnum : q.num = c.word)
    (hmerge : q.maxMergeLen = 0) {i : ℕ} {ch : List ℕ} {bs : List Iovec}
    (hhead : (r.availRing (Ring.slot q.num q.lastAvailIdx)).toNat = i) (hi : i < c.num)
    (hch : Spells r.desc (i :: ch) bs) (hlt : ∀ j ∈ ch, j < c.num) (hvalid : ∀ b ∈ bs, b.Valid)
    (hmax : bs.length ≤ virtioReqMaxBufs) (s : δ) :
    ∃ irq, (q.lastAvailIdx + 1 = r.availIdx → irq = true) ∧
      virtioProcessOne (.sync serve) q r s = .ok {
        dev := (serve s (.ofBufs bs)).1
        req := .ofBufs bs
        q := { q with
          lastAvailIdx := q.lastAvailIdx + 1
          lastUsedIdxSignaled := if irq then r.usedIdx + 1 else q.lastUsedIdxSignaled }
        ring := r.use q (serve s (.ofBufs bs)).2
        irq := irq
        accepted := true } := by
  have hdesc : vringDescAtAvailIdx q r q.lastAvailIdx = r.desc i := by
    rw [vringDescAtAvailIdx, vringDescAtLeIdx, hnum, Ring.slot_of_lt c (hnum ▸ hhead ▸ hi),
      ← hnum, hhead]
  have hbs : (VirtioReq.ofBufs bs).buf ≠ [] := by
    rintro rfl
    simpa using hch.length_eq
  obtain ⟨irq, hsend, hcomplete⟩ :=
    virtioReqComplete_eq hmerge hbs q.lastAvailIdx (serve s (.ofBufs bs)).2
  refine ⟨irq, hsend, ?_⟩
  have hgather := gather_of_spells hnum hmerge hch hlt hvalid hmax q.lastAvailIdx ⟨[], 0⟩
  rw [virtioProcessOne, hdesc, hgather]
  simp only [List.nil_append, bind, Except.bind]
  change Except.ok _ = _
  rw [← VirtioReq.ofBufs, hcomplete]
  rfl

end Virtio

end NodeLkl
