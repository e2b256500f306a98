import NodeLkl.Base.Service
import NodeLkl.Virtio.Device
import NodeLkl.Virtio.Driver

/-!
# Virtio queues

A driver and a device sharing a queue, as a transition system: every event is a
step of one of the two, in any order.

* The driver adds a request (`add`), checks whether the device has to be notified
  (`kick`), and notifies it (`notify`), by a write to a register, on which the
  device goes through its queue.
* The device serves the next request, or leaves its loop if there is none
  (`iterate`), and then, if nothing else is available, asks to be notified of the
  next one (`arm`). It may be in the loop several times: the interrupt raised
  when a request is served may have the driver add another one, and notify.
* The interrupt handler of the driver reads and acknowledges the status of the
  device (`interrupt`, `ack`), and if there is anything in the used ring
  (`check`), disables interrupts (`disable`), takes all there is (`get`), enables
  interrupts (`enable`), and starts again if something was added meanwhile
  (`poll`).

The requests have as many buffers as the device can take, and the queue
descriptors. The queue then refines a service (`reachable_service`): the device is
handed the buffers of the requests as they were submitted, in that order, each
once; the driver takes back the requests served, in that order, each once; and
neither of them ever runs into an error.

The invariant (`Inv`) is that the descriptors are shared out between the list of
those not in use and the chains of the requests in flight, and that the rings
have the first ones of these chains in their slots.
-/

namespace NodeLkl

namespace Virtio

variable {c : Ring.Size 16} {τ δ : Type}

/-- A request the driver makes: it has a buffer, and no more of them than the device
    takes in a request, nor than the queue has descriptors. -/
structure Request (c : Ring.Size 16) (τ : Type) where
  data : τ
  outSgs : List Iovec
  inSgs : List Iovec
  pos : 0 < (outSgs ++ inSgs).length
  le_max : (outSgs ++ inSgs).length ≤ virtioReqMaxBufs
  le_num : (outSgs ++ inSgs).length ≤ c.num
  valid : ∀ b ∈ outSgs ++ inSgs, b.Valid

/-- All the buffers of a request. -/
def Request.bufs (req : Request c τ) : List Iovec := req.outSgs ++ req.inSgs

/-- Where the interrupt handler is. -/
inductive Pc
  | idle
  | ack (status : BitVec 32)
  | check
  | disable
  | get
  | enable
  | poll (lastUsedIdx : BitVec 16)
  deriving DecidableEq

/-- The state of a queue: its memory, the driver, the device, the registers through
    which they notify each other, and what was submitted, served and taken so far.

    `notifies` is the number of notifications the driver is about to make, `looping`
    and `armed` how many times the device is in its loop, before and after serving a
    request. -/
structure State (c : Ring.Size 16) (τ δ : Type) where
  ring : Vring
  vq : VringVirtqueue τ
  q : VirtioQueue
  dev : δ
  notifies : ℕ
  looping : ℕ
  armed : ℕ
  intStatus : BitVec 32
  irq : Bool
  pc : Pc
  crashed : Bool
  submitted : List (Request c τ)
  enqueued : List VirtioReq
  gotten : List τ

/-- The status of the device when it has put a request in the used ring. -/
abbrev virtioMmioIntVring : BitVec 32 := 1

/-- A queue of `c` descriptors set up by the driver, at the given addresses. -/
def VirtioQueue.setUp (c : Ring.Size 16) (numMax : BitVec 32) (desc avail used : BitVec 64) :
    VirtioQueue :=
  ⟨numMax, c.word, 1, 0, desc, avail, used, 0, 0⟩

/-- The queue `q`, when nothing was added to it yet. -/
def init (c : Ring.Size 16) (τ : Type) (q : VirtioQueue) (dev : δ) : State c τ δ :=
  let new := vringNewVirtqueue c.word true true .zero
  ⟨new.2, new.1, q, dev, 0, 0, 0, 0, false, .idle, false, [], [], []⟩

inductive Event (c : Ring.Size 16) (τ : Type)
  | add (req : Request c τ)
  | kick
  | notify
  | iterate
  | arm
  | interrupt
  | ack
  | check
  | disable
  | get
  | enable
  | poll

namespace State

variable (s : State c τ δ)

def add (req : Request c τ) : State c τ δ :=
  match virtqueueAdd s.vq s.ring req.outSgs req.inSgs req.data with
  | .bug => { s with crashed := true }
  | .eio => s
  | .enospc notify => { s with notifies := s.notifies + notify.toNat }
  | .added vq ring notify =>
    { s with vq, ring, notifies := s.notifies + notify.toNat, submitted := s.submitted ++ [req] }

def kick : State c τ δ :=
  let (needsKick, vq) := virtqueueKickPrepare s.vq s.ring
  { s with vq, notifies := s.notifies + needsKick.toNat }

/-- The write to the register has the device go through its queue, if it is ready. -/
def notify : State c τ δ :=
  let s := { s with notifies := s.notifies - 1 }
  if s.vq.broken ∨ s.q.ready = 0 then s else { s with looping := s.looping + 1 }

/-- The queue is processed from the test of the loop to the end of the request. -/
def iterate (serve : δ → VirtioReq → δ × BitVec 16) : State c τ δ :=
  let s := { s with looping := s.looping - 1 }
  if s.q.lastAvailIdx = s.ring.availIdx then s
  else match virtioProcessOne (.sync serve) s.q s.ring s.dev with
    | .error _ => { s with crashed := true }
    | .ok p =>
      { s with
        ring := p.ring
        q := p.q
        dev := p.dev
        intStatus := if p.irq then s.intStatus ||| virtioMmioIntVring else s.intStatus
        irq := s.irq || p.irq
        armed := s.armed + p.accepted.toNat
        enqueued := s.enqueued ++ [p.req] }

def arm : State c τ δ :=
  let s := { s with armed := s.armed - 1, looping := s.looping + 1 }
  if s.q.lastAvailIdx = s.ring.availIdx then
    { s with ring := virtioSetAvailEvent s.ring s.ring.availIdx }
  else s

def interrupt : State c τ δ := { s with irq := false, pc := .ack s.intStatus }

def ack : State c τ δ :=
  match s.pc with
  | .ack status =>
    { s with
      intStatus := 0
      pc := if status &&& virtioMmioIntVring = 0 then .idle else .check }
  | _ => s

def check : State c τ δ :=
  { s with pc := if moreUsed s.vq s.ring && !s.vq.broken then .disable else .idle }

def disable : State c τ δ :=
  let (vq, ring) := virtqueueDisableCb s.vq s.ring
  { s with vq, ring, pc := .get }

def get : State c τ δ :=
  match virtqueueGetBuf s.vq s.ring with
  | .nothing => { s with pc := if s.vq.broken then .idle else .enable }
  | .badRing => { s with vq := { s.vq with broken := true }, pc := .idle }
  | .stuck => { s with crashed := true }
  | .got data _ vq ring => { s with vq, ring, gotten := s.gotten ++ [data] }

def enable : State c τ δ :=
  let (vq, ring) := virtqueueEnableCbPrepare s.vq s.ring
  { s with vq, ring, pc := .poll vq.lastUsedIdx }

def poll : State c τ δ :=
  match s.pc with
  | .poll lastUsedIdx =>
    { s with pc := if virtqueuePoll s.ring lastUsedIdx then .disable else .idle }
  | _ => s

end State

/-- A queue, with a device that serves the requests by `serve`. A kick when nothing
    was added since the last one is left out: it does nothing. -/
def system (serve : δ → VirtioReq → δ × BitVec 16) : System (State c τ δ) (Event c τ) where
  Enabled s l := s.crashed = false ∧ match l with
    | .add _ => True
    | .kick => 0 < s.vq.numAdded
    | .notify => 0 < s.notifies
    | .iterate => 0 < s.looping
    | .arm => 0 < s.armed
    | .interrupt => s.irq ∧ s.pc = .idle
    | .ack => ∃ status, s.pc = .ack status
    | .check => s.pc = .check
    | .disable => s.pc = .disable
    | .get => s.pc = .get
    | .enable => s.pc = .enable
    | .poll => ∃ lastUsedIdx, s.pc = .poll lastUsedIdx
  next s
    | .add req => s.add req
    | .kick => s.kick
    | .notify => s.notify
    | .iterate => s.iterate serve
    | .arm => s.arm
    | .interrupt => s.interrupt
    | .ack => s.ack
    | .check => s.check
    | .disable => s.disable
    | .get => s.get
    | .enable => s.enable
    | .poll => s.poll

/-! ## The invariant -/

/-- A request in flight, and its chain of descriptors. -/
structure Entry (c : Ring.Size 16) (τ : Type) where
  req : Request c τ
  chain : List ℕ

/-- The first descriptor of a request. -/
def Entry.head (e : Entry c τ) : ℕ := e.chain.headD 0

/-- The last descriptor of a request. -/
def Entry.last (e : Entry c τ) : ℕ := e.chain.getLastD 0

/-- What of the memory and of the two sides the rest depends on: the free list, and the
    rings as far as they are in use. -/
structure Inv (s : State c τ δ) (flight : List (Entry c τ)) (free : List ℕ) : Prop where
  crashed : s.crashed = false
  broken : s.vq.broken = false
  event : s.vq.event = true
  vqNum : s.vq.num = c.word
  qNum : s.q.num = c.word
  ready : s.q.ready ≠ 0
  merge : s.q.maxMergeLen = 0
  /-- The logs: what is in flight was submitted last, and not taken yet. -/
  submitted : s.submitted.drop s.gotten.length = flight.map Entry.req
  gotten_le : s.gotten.length ≤ s.enqueued.length
  enqueued_le : s.enqueued.length ≤ s.submitted.length
  /-- The indices count the entries of the logs. -/
  availIdx : s.ring.availIdx = BitVec.ofNat 16 s.submitted.length
  availIdxShadow : s.vq.availIdxShadow = BitVec.ofNat 16 s.submitted.length
  usedIdx : s.ring.usedIdx = BitVec.ofNat 16 s.enqueued.length
  lastAvailIdx : s.q.lastAvailIdx = BitVec.ofNat 16 s.enqueued.length
  lastUsedIdx : s.vq.lastUsedIdx = BitVec.ofNat 16 s.gotten.length
  /-- The descriptors are shared out. -/
  perm : (free ++ flight.flatMap Entry.chain).Perm (List.range c.num)
  numFree : s.vq.numFree = free.length
  linked : Links.Linked (nextOf s.ring.desc) s.vq.freeHead free
  spells : ∀ e ∈ flight, Spells s.ring.desc e.chain e.req.bufs
  data : ∀ e ∈ flight, s.vq.data e.head = some e.req.data
  /-- The rings have the first descriptors of the chains. -/
  avail : ∀ j e, flight[j]? = some e →
    (s.ring.availRing ((s.gotten.length + j) % c.num)).toNat = e.head
  used : ∀ j e, flight[j]? = some e → s.gotten.length + j < s.enqueued.length →
    (s.ring.usedRing ((s.gotten.length + j) % c.num)).id.toNat = e.head

variable {s s' : State c τ δ} {flight : List (Entry c τ)} {free : List ℕ}

section Facts

variable (h : Inv s flight free)

include h

theorem Inv.length_submitted : s.submitted.length = s.gotten.length + flight.length := by
  have hlen := congrArg List.length h.submitted
  have := h.gotten_le.trans h.enqueued_le
  rw [List.length_drop, List.length_map] at hlen
  omega

/-- All the descriptors are in use or not. -/
theorem Inv.length_add_sum : free.length + (flight.map fun e => e.chain.length).sum = c.num := by
  have hlen := h.perm.length_eq
  rwa [List.length_append, List.length_flatMap, List.length_range] at hlen

/-- Every request in flight has a descriptor. -/
theorem Inv.length_add_length_le : free.length + flight.length ≤ c.num := by
  rw [← h.length_add_sum]
  refine Nat.add_le_add_left ?_ _
  calc flight.length = (flight.map fun _ => 1).sum := by simp
    _ ≤ (flight.map fun e => e.chain.length).sum :=
      List.sum_le_sum fun e he => List.length_pos_iff.2 (h.spells e he).ne_nil

theorem Inv.nodup : (free ++ flight.flatMap Entry.chain).Nodup :=
  h.perm.nodup_iff.2 List.nodup_range

theorem Inv.lt_num_of_mem {i : ℕ} (hi : i ∈ free ++ flight.flatMap Entry.chain) : i < c.num :=
  List.mem_range.1 (h.perm.mem_iff.1 hi)

theorem Inv.lt_num_of_mem_chain {e : Entry c τ} (he : e ∈ flight) {i : ℕ} (hi : i ∈ e.chain) :
    i < c.num :=
  h.lt_num_of_mem (List.mem_append_right _ (List.mem_flatMap.2 ⟨e, he, hi⟩))

theorem Inv.chain_eq {e : Entry c τ} (he : e ∈ flight) : e.chain = e.head :: e.chain.tail := by
  obtain ⟨i, ch, hch⟩ := List.exists_cons_of_ne_nil (h.spells e he).ne_nil
  rw [Entry.head, hch]
  rfl

theorem Inv.head_lt {e : Entry c τ} (he : e ∈ flight) : e.head < c.num := by
  refine h.lt_num_of_mem_chain he ?_
  rw [h.chain_eq he]
  exact List.mem_cons_self

/-- The indices of the device differ as long as a request waits to be served. -/
theorem Inv.lastAvailIdx_eq_iff :
    s.q.lastAvailIdx = s.ring.availIdx ↔ s.enqueued.length = s.submitted.length := by
  have := h.length_submitted
  have := h.length_add_length_le
  have := h.gotten_le
  have := c.num_lt
  rw [h.lastAvailIdx, h.availIdx, Ring.ofNat_inj_of_lt h.enqueued_le (by omega)]

/-- The indices of the driver differ as long as a request waits to be taken. -/
theorem Inv.moreUsed_iff : moreUsed s.vq s.ring ↔ s.gotten.length < s.enqueued.length := by
  have := h.length_submitted
  have := h.length_add_length_le
  have := h.gotten_le
  have := h.enqueued_le
  have := c.num_lt
  rw [moreUsed, bne_iff_ne, h.lastUsedIdx, h.usedIdx, Ne,
    Ring.ofNat_inj_of_lt h.gotten_le (by omega)]
  omega

end Facts

/-- All the descriptors of a new queue are in the list. -/
theorem inv_init (c : Ring.Size 16) (τ : Type) (numMax : BitVec 32) (desc avail used : BitVec 64)
    (dev : δ) : Inv (init c τ (.setUp c numMax desc avail used) dev) [] (List.range c.num) where
  crashed := rfl
  broken := rfl
  event := rfl
  vqNum := rfl
  qNum := rfl
  ready := show (1 : BitVec 32) ≠ 0 by decide
  merge := rfl
  submitted := rfl
  gotten_le := Nat.le_refl _
  enqueued_le := Nat.le_refl _
  availIdx := rfl
  availIdxShadow := rfl
  usedIdx := rfl
  lastAvailIdx := rfl
  lastUsedIdx := rfl
  perm := by rw [List.flatMap_nil, List.append_nil]
  numFree := by rw [List.length_range]; exact c.toNat_word
  linked := by
    rw [List.range_eq_range']
    change Links.Linked _ 0 _
    refine Links.linked_range' fun i hi => ?_
    have hlt := c.num_lt
    have hi' : i + 1 < c.word.toNat := by rw [c.toNat_word]; omega
    simp only [init, vringNewVirtqueue, nextOf, if_pos hi']
    rw [BitVec.toNat_ofNat, Nat.mod_eq_of_lt (by omega)]
  spells e he := absurd he List.not_mem_nil
  data e he := absurd he List.not_mem_nil
  avail j e he := by simp at he
  used j e he := by simp at he

/-- The invariant says nothing about the state of the device. -/
theorem Inv.setDev (h : Inv s flight free) (dev : δ) : Inv { s with dev := dev } flight free := by
  cases h
  constructor <;> assumption

/-! ## Events that only concern notifications -/

/-- The states `s` and `s'` only differ in the notifications, and in the memory by
    which they are asked for. -/
structure Same (s s' : State c τ δ) : Prop where
  q : s'.q = s.q
  vq : s'.vq = { s.vq with
    numAdded := s'.vq.numAdded
    availFlagsShadow := s'.vq.availFlagsShadow }
  ring : s'.ring = { s.ring with
    availFlags := s'.ring.availFlags
    availRing := s'.ring.availRing
    availEvent := s'.ring.availEvent }
  availRing : ∀ i < c.num, s'.ring.availRing i = s.ring.availRing i
  dev : s'.dev = s.dev
  crashed : s'.crashed = s.crashed
  submitted : s'.submitted = s.submitted
  enqueued : s'.enqueued = s.enqueued
  gotten : s'.gotten = s.gotten

theorem Inv.same (h : Inv s flight free) (hs : Same s s') : Inv s' flight free where
  crashed := hs.crashed.trans h.crashed
  broken := by rw [hs.vq]; exact h.broken
  event := by rw [hs.vq]; exact h.event
  vqNum := by rw [hs.vq]; exact h.vqNum
  qNum := by rw [hs.q]; exact h.qNum
  ready := by rw [hs.q]; exact h.ready
  merge := by rw [hs.q]; exact h.merge
  submitted := by rw [hs.submitted, hs.gotten]; exact h.submitted
  gotten_le := by rw [hs.gotten, hs.enqueued]; exact h.gotten_le
  enqueued_le := by rw [hs.submitted, hs.enqueued]; exact h.enqueued_le
  availIdx := by rw [hs.ring, hs.submitted]; exact h.availIdx
  availIdxShadow := by rw [hs.vq, hs.submitted]; exact h.availIdxShadow
  usedIdx := by rw [hs.ring, hs.enqueued]; exact h.usedIdx
  lastAvailIdx := by rw [hs.q, hs.enqueued]; exact h.lastAvailIdx
  lastUsedIdx := by rw [hs.vq, hs.gotten]; exact h.lastUsedIdx
  perm := h.perm
  numFree := by rw [hs.vq]; exact h.numFree
  linked := by rw [hs.vq, hs.ring]; exact h.linked
  spells := by rw [hs.ring]; exact h.spells
  data := by rw [hs.vq]; exact h.data
  avail j e he := by
    rw [hs.gotten, hs.availRing _ (Nat.mod_lt _ c.num_pos)]
    exact h.avail j e he
  used := by rw [hs.ring, hs.gotten, hs.enqueued]; exact h.used

theorem same_kick : Same s s.kick := ⟨rfl, rfl, rfl, fun _ _ => rfl, rfl, rfl, rfl, rfl, rfl⟩

theorem same_notify : Same s s.notify := by
  rw [State.notify]
  split <;> exact ⟨rfl, rfl, rfl, fun _ _ => rfl, rfl, rfl, rfl, rfl, rfl⟩

theorem same_arm : Same s s.arm := by
  rw [State.arm]
  split <;> exact ⟨rfl, rfl, rfl, fun _ _ => rfl, rfl, rfl, rfl, rfl, rfl⟩

theorem same_ack : Same s s.ack := by
  rw [State.ack]
  split <;> exact ⟨rfl, rfl, rfl, fun _ _ => rfl, rfl, rfl, rfl, rfl, rfl⟩

theorem same_disable : Same s s.disable := by
  simp only [State.disable, virtqueueDisableCb]
  split <;> exact ⟨rfl, rfl, rfl, fun _ _ => rfl, rfl, rfl, rfl, rfl, rfl⟩

theorem same_poll : Same s s.poll := by
  rw [State.poll]
  split <;> exact ⟨rfl, rfl, rfl, fun _ _ => rfl, rfl, rfl, rfl, rfl, rfl⟩

/-- The event index of the driver is not in a slot of the available ring. -/
theorem same_enable (hnum : s.vq.num = c.word) : Same s s.enable := by
  refine ⟨rfl, rfl, rfl, fun i hi => ?_, rfl, rfl, rfl, rfl, rfl⟩
  refine Function.update_of_ne ?_ _ _
  rw [hnum, c.toNat_word]
  exact hi.ne

/-! ## Adding a request -/

/-- The state after the request `req` is added, in the first free descriptors. -/
def State.added (s : State c τ δ) (req : Request c τ) : State c τ δ :=
  let (desc, i) := fillChain s.ring.desc s.vq.freeHead (sgFlags req.outSgs req.inSgs)
  { s with
    vq := s.vq.addBuf req.data req.bufs.length i
    ring := s.ring.addBuf s.vq desc
    submitted := s.submitted ++ [req] }

/-- Adding a request: the device is kicked when the count of the requests added is about
    to overflow, and notified when there are not enough descriptors. -/
theorem Inv.add_eq (h : Inv s flight free) (req : Request c τ) :
    s.add req =
      if req.bufs.length ≤ free.length then
        if s.vq.numAdded + 1 = 2 ^ 16 - 1 then (s.added req).kick else s.added req
      else { s with notifies := s.notifies + (!req.outSgs.isEmpty).toNat } := by
  have hle : req.bufs.length ≤ s.vq.num.toNat := by
    rw [h.vqNum, c.toNat_word]
    exact req.le_num
  rw [State.add, ← h.numFree]
  split_ifs with hfree hadded
  · rw [virtqueueAdd_eq h.broken req.pos hle hfree, if_pos hadded]
    rfl
  · rw [virtqueueAdd_eq h.broken req.pos hle hfree, if_neg hadded]
    rfl
  · rw [virtqueueAdd_of_lt h.broken req.pos hle (Nat.not_le.1 hfree)]

theorem Inv.added (h : Inv s flight free) {req : Request c τ}
    (hfree : req.bufs.length ≤ free.length) :
    Inv (s.added req) (flight ++ [⟨req, free.take req.bufs.length⟩])
      (free.drop req.bufs.length) := by
  set ch := free.take req.bufs.length with hch
  have hsplit : free = ch ++ free.drop req.bufs.length := (List.take_append_drop _ _).symm
  have hpos : 0 < req.bufs.length := req.pos
  have hlen : ch.length = req.bufs.length := List.length_take_of_le hfree
  have hne : ch ≠ [] := List.length_pos_iff.1 (hlen ▸ hpos)
  have hnodup := h.nodup
  have hlinked := h.linked
  rw [hsplit, Links.linked_append] at hlinked
  obtain ⟨hlinked, hrest⟩ := hlinked
  have hlen' : ch.length = (sgFlags req.outSgs req.inSgs).length := by
    rw [hlen, ← List.length_map (f := Prod.fst), map_fst_sgFlags]
    rfl
  have hsub : ∀ i ∈ ch, i ∈ free := fun i hi => List.mem_of_mem_take hi
  obtain ⟨hspells, hframe, hnext, hafter⟩ := fillChain_spec hlinked
    ((List.take_sublist _ _).nodup (List.nodup_append.1 hnodup).1) hlen' hne sgFlags_next
  rw [map_fst_sgFlags] at hspells
  -- the descriptors of the requests in flight are other ones
  have hdisj : ∀ e ∈ flight, ∀ i ∈ e.chain, i ∉ ch := fun e he i hi hmem =>
    (List.nodup_append.1 hnodup).2.2 i (hsub i hmem) i (List.mem_flatMap.2 ⟨e, he, hi⟩) rfl
  have hhead : ch = s.vq.freeHead :: ch.tail := by
    obtain ⟨i, ch', hch'⟩ := List.exists_cons_of_ne_nil hne
    rw [hch'] at hlinked ⊢
    rw [hlinked.1]
    rfl
  have hmem : s.vq.freeHead ∈ ch := hhead ▸ List.mem_cons_self
  have hlt : s.vq.freeHead < c.num := h.lt_num_of_mem (List.mem_append_left _ (hsub _ hmem))
  have hnum := c.num_lt
  have hsubmitted := h.length_submitted
  have hflight : flight.length < c.num := by
    have := h.length_add_length_le
    omega
  have hslot : Ring.slot s.vq.num s.vq.availIdxShadow = s.submitted.length % c.num := by
    rw [h.vqNum, h.availIdxShadow, Ring.slot_ofNat]
  exact {
    crashed := h.crashed
    broken := h.broken
    event := h.event
    vqNum := h.vqNum
    qNum := h.qNum
    ready := h.ready
    merge := h.merge
    submitted := by
      change (s.submitted ++ [req]).drop s.gotten.length = _
      rw [List.drop_append_of_le_length (by omega), h.submitted, List.map_append]
      rfl
    gotten_le := h.gotten_le
    enqueued_le := by
      change _ ≤ (s.submitted ++ [req]).length
      rw [List.length_append]
      exact Nat.le_add_right_of_le h.enqueued_le
    availIdx := by
      change s.vq.availIdxShadow + 1 = BitVec.ofNat 16 (s.submitted ++ [req]).length
      rw [List.length_append, h.availIdxShadow, Ring.ofNat_add_one]
      rfl
    availIdxShadow := by
      change s.vq.availIdxShadow + 1 = BitVec.ofNat 16 (s.submitted ++ [req]).length
      rw [List.length_append, h.availIdxShadow, Ring.ofNat_add_one]
      rfl
    usedIdx := h.usedIdx
    lastAvailIdx := h.lastAvailIdx
    lastUsedIdx := h.lastUsedIdx
    perm := by
      rw [List.flatMap_append, List.flatMap_singleton]
      refine List.Perm.trans ?_ h.perm
      rw [← List.append_assoc]
      refine List.perm_append_comm.trans ?_
      rw [← List.append_assoc, ← hsplit]
    numFree := by
      rw [List.length_drop]
      exact congrArg (· - req.bufs.length) h.numFree
    linked := by
      change Links.Linked (nextOf (fillChain _ _ _).1) (fillChain _ _ _).2 _
      rw [hnext, hafter]
      exact hrest
    spells := by
      intro e he
      rcases List.mem_append.1 he with he | he
      · exact (h.spells e he).congr fun i hi => hframe i (hdisj e he i hi)
      · rw [List.mem_singleton.1 he]
        exact hspells
    data := by
      intro e he
      change Function.update _ _ _ _ = _
      rcases List.mem_append.1 he with he | he
      · have hne : e.head ≠ s.vq.freeHead := fun heq =>
          hdisj e he e.head (h.chain_eq he ▸ List.mem_cons_self) (heq ▸ hmem)
        rw [Function.update_of_ne hne]
        exact h.data e he
      · rw [List.mem_singleton.1 he, Entry.head, hhead]
        exact Function.update_self _ _ _
    avail := by
      intro j e he
      change (Function.update s.ring.availRing _ _ ((s.gotten.length + j) % c.num)).toNat = _
      rw [hslot]
      rcases Nat.lt_or_ge j flight.length with hj | hj
      · rw [Function.update_of_ne (Ring.mod_ne_mod (by omega) (by omega))]
        rw [List.getElem?_append_left hj] at he
        exact h.avail j e he
      · rw [List.getElem?_append_right hj, List.getElem?_singleton] at he
        split at he
        case isTrue hj' =>
          obtain rfl := Option.some.inj he
          rw [show s.gotten.length + j = s.submitted.length by omega, Function.update_self,
            BitVec.toNat_ofNat, Nat.mod_eq_of_lt (hlt.trans hnum), Entry.head, hhead]
          rfl
        case isFalse => cases he
    used := by
      intro j e he hj
      have := h.enqueued_le
      have hj' : s.gotten.length + j < s.enqueued.length := hj
      rw [List.getElem?_append_left (by omega)] at he
      exact h.used j e he hj }

/-! ## Serving a request -/

/-- The state after the request `req` is served, the driver being interrupted or not. -/
def State.served (s : State c τ δ) (serve : δ → VirtioReq → δ × BitVec 16) (req : Request c τ)
    (irq : Bool) : State c τ δ :=
  { s with
    ring := s.ring.use s.q (serve s.dev (.ofBufs req.bufs)).2
    q := { s.q with
      lastAvailIdx := s.q.lastAvailIdx + 1
      lastUsedIdxSignaled := if irq then s.ring.usedIdx + 1 else s.q.lastUsedIdxSignaled }
    dev := (serve s.dev (.ofBufs req.bufs)).1
    looping := s.looping - 1
    armed := s.armed + 1
    intStatus := if irq then s.intStatus ||| virtioMmioIntVring else s.intStatus
    irq := s.irq || irq
    enqueued := s.enqueued ++ [.ofBufs req.bufs] }

theorem Inv.exists_next (h : Inv s flight free) (hlt : s.enqueued.length < s.submitted.length) :
    ∃ e, flight[s.enqueued.length - s.gotten.length]? = some e := by
  have := h.length_submitted
  have := h.gotten_le
  exact ⟨_, List.getElem?_eq_getElem (by omega)⟩

/-- An iteration of the loop of the device, when a request is available. -/
theorem Inv.iterate_of_lt (h : Inv s flight free) (serve : δ → VirtioReq → δ × BitVec 16)
    (hlt : s.enqueued.length < s.submitted.length) {e : Entry c τ}
    (he : flight[s.enqueued.length - s.gotten.length]? = some e) :
    ∃ irq, (s.enqueued.length + 1 = s.submitted.length → irq = true) ∧
      s.iterate serve = s.served serve e.req irq := by
  have hmem := List.mem_of_getElem? he
  have hslot : Ring.slot s.q.num s.q.lastAvailIdx = s.enqueued.length % c.num := by
    rw [h.qNum, h.lastAvailIdx, Ring.slot_ofNat]
  have havail := h.avail _ _ he
  rw [Nat.add_sub_cancel' h.gotten_le, ← hslot] at havail
  have hspells := h.spells e hmem
  rw [h.chain_eq hmem] at hspells
  obtain ⟨irq, hirq, hprocess⟩ := virtioProcessOne_eq serve h.qNum h.merge havail
    (h.head_lt hmem) hspells
    (fun j hj => h.lt_num_of_mem_chain hmem (List.mem_of_mem_tail hj)) e.req.valid e.req.le_max
    s.dev
  refine ⟨irq, fun heq => hirq ?_, ?_⟩
  · rw [h.lastAvailIdx, h.availIdx, Ring.ofNat_add_one, heq]
  · have hne : s.q.lastAvailIdx ≠ s.ring.availIdx := fun heq =>
      hlt.ne (h.lastAvailIdx_eq_iff.1 heq)
    rw [State.iterate]
    simp only [if_neg hne, hprocess]
    rfl

theorem Inv.served (h : Inv s flight free) (serve : δ → VirtioReq → δ × BitVec 16)
    (hlt : s.enqueued.length < s.submitted.length) {e : Entry c τ}
    (he : flight[s.enqueued.length - s.gotten.length]? = some e) (irq : Bool) :
    Inv (s.served serve e.req irq) flight free := by
  have hsubmitted := h.length_submitted
  have hle := h.length_add_length_le
  have hgotten := h.gotten_le
  have hlen : (s.served serve e.req irq).enqueued.length = s.enqueued.length + 1 :=
    List.length_append
  have hslot : Ring.slot s.q.num s.q.lastAvailIdx = s.enqueued.length % c.num := by
    rw [h.qNum, h.lastAvailIdx, Ring.slot_ofNat]
  have hused : Ring.slot s.q.num s.ring.usedIdx = s.enqueued.length % c.num := by
    rw [h.qNum, h.usedIdx, Ring.slot_ofNat]
  exact {
    crashed := h.crashed
    broken := h.broken
    event := h.event
    vqNum := h.vqNum
    qNum := h.qNum
    ready := h.ready
    merge := h.merge
    submitted := h.submitted
    gotten_le := hlen ▸ Nat.le_add_right_of_le h.gotten_le
    enqueued_le := hlen ▸ hlt
    availIdx := h.availIdx
    availIdxShadow := h.availIdxShadow
    usedIdx := by
      rw [hlen, ← Ring.ofNat_add_one, ← h.usedIdx]
      rfl
    lastAvailIdx := by
      rw [hlen, ← Ring.ofNat_add_one, ← h.lastAvailIdx]
      rfl
    lastUsedIdx := h.lastUsedIdx
    perm := h.perm
    numFree := h.numFree
    linked := h.linked
    spells := h.spells
    data := h.data
    avail := h.avail
    used := by
      intro j e' he' hj
      change BitVec.toNat (VringUsedElem.id (Function.update s.ring.usedRing _ _
        ((s.gotten.length + j) % c.num))) = _
      rw [hused]
      rw [hlen] at hj
      have hj' : s.gotten.length + j < s.enqueued.length + 1 := hj
      rcases Nat.lt_or_ge (s.gotten.length + j) s.enqueued.length with hj | hj
      · rw [Function.update_of_ne (Ring.mod_ne_mod hj (by omega))]
        exact h.used j e' he' hj
      · -- the request that was served
        obtain rfl : j = s.enqueued.length - s.gotten.length := by omega
        obtain rfl := Option.some.inj (he.symm.trans he')
        have havail := h.avail _ _ he
        rw [Nat.add_sub_cancel' hgotten] at havail ⊢
        rw [Function.update_self, hslot, BitVec.toNat_setWidth_of_le (by decide)]
        exact havail }

/-! ## Taking a request -/

/-- The state after the request of `e` is taken, its descriptors being put back in the
    list. -/
def State.taken (s : State c τ δ) (e : Entry c τ) (availRing : ℕ → BitVec 16) : State c τ δ :=
  { s with
    vq := { s.vq with
      data := Function.update s.vq.data e.head none
      freeHead := e.head
      numFree := s.vq.numFree + e.chain.length
      lastUsedIdx := s.vq.lastUsedIdx + 1 }
    ring := { s.ring with
      desc := Function.update s.ring.desc e.last
        { s.ring.desc e.last with next := BitVec.ofNat 16 s.vq.freeHead }
      availRing := availRing }
    gotten := s.gotten ++ [e.req.data] }

/-- Taking a request, when one was served. -/
theorem Inv.get_of_lt {e : Entry c τ} (h : Inv s (e :: flight) free)
    (hlt : s.gotten.length < s.enqueued.length) :
    ∃ availRing, (∀ k < c.num, availRing k = s.ring.availRing k) ∧
      s.get = s.taken e availRing := by
  have hmem : e ∈ e :: flight := List.mem_cons_self
  have hchain := h.chain_eq hmem
  have hspells := h.spells e hmem
  rw [hchain] at hspells
  have hid := h.used 0 e rfl hlt
  rw [Nat.add_zero, ← Ring.slot_ofNat, ← h.lastUsedIdx, ← h.vqNum] at hid
  have hnum : s.vq.num.toNat = c.num := by rw [h.vqNum, c.toNat_word]
  have hlen : e.chain.tail.length < s.vq.num.toNat := by
    have := h.length_add_sum
    have hlen := congrArg List.length hchain
    simp only [List.map_cons, List.sum_cons, List.length_cons] at this hlen
    omega
  obtain ⟨len, availRing, havail, hget⟩ := virtqueueGetBuf_eq h.broken (h.moreUsed_iff.2 hlt) hid
    (hnum ▸ h.head_lt hmem) (h.data e hmem) hspells hlen
  refine ⟨availRing, fun k hk => havail k (hnum ▸ hk), ?_⟩
  have hlast : e.last = (e.head :: e.chain.tail).getLast (List.cons_ne_nil _ _) := by
    rw [Entry.last, hchain]
    rfl
  rw [State.get, hget]
  simp only [State.taken, hlast]
  congr 2
  rw [Nat.add_assoc, hchain]
  rfl

theorem Inv.last_mem {e : Entry c τ} (h : Inv s (e :: flight) free) : e.last ∈ e.chain := by
  have hne := (h.spells e List.mem_cons_self).ne_nil
  rw [Entry.last, List.getLastD_eq_getLast?, List.getLast?_eq_some_getLast hne]
  exact List.getLast_mem hne

/-- The last descriptor of a request is linked to the ones that were free before. -/
theorem Inv.linked_taken {e : Entry c τ} (h : Inv s (e :: flight) free)
    (availRing : ℕ → BitVec 16) :
    Links.Linked (nextOf (s.taken e availRing).ring.desc) e.head (e.chain ++ free) := by
  have hmem : e ∈ e :: flight := List.mem_cons_self
  have hchain := h.chain_eq hmem
  have hspells := h.spells e hmem
  have hne := hspells.ne_nil
  have hlast : e.last = e.chain.getLast hne := by
    rw [Entry.last, List.getLastD_eq_getLast?, List.getLast?_eq_some_getLast hne]
    rfl
  have hnodup := h.nodup
  rw [List.flatMap_cons] at hnodup
  obtain ⟨-, hnodup, hfree⟩ := List.nodup_append.1 hnodup
  have hframe : ∀ i ≠ e.last,
      nextOf (s.taken e availRing).ring.desc i = nextOf s.ring.desc i := fun i hi =>
    congrArg (fun d : VringDesc => d.next.toNat) (Function.update_of_ne hi _ _)
  have hlinked : Links.Linked (nextOf s.ring.desc) e.head e.chain := by
    rw [hchain] at hspells ⊢
    exact hspells.linked
  obtain ⟨hlinked', hafter⟩ := hlinked.relink (List.nodup_append.1 hnodup).1 hne
    fun i _ hi => hframe i (hlast ▸ hi)
  refine Links.linked_append.2 ⟨hlinked', ?_⟩
  cases free with
  | nil => trivial
  | cons j free =>
    have hj : j = s.vq.freeHead := h.linked.1
    have hlt : s.vq.freeHead < 2 ^ 16 :=
      hj ▸ (h.lt_num_of_mem List.mem_cons_self).trans c.num_lt
    have hnext : nextOf (s.taken e availRing).ring.desc e.last = s.vq.freeHead := by
      simpa [nextOf, State.taken] using hlt
    rw [hafter, ← hlast, hnext]
    refine h.linked.congr fun i hi => hframe i ?_
    rintro rfl
    exact hfree _ hi _ (List.mem_append_left _ h.last_mem) rfl

theorem Inv.taken {e : Entry c τ} (h : Inv s (e :: flight) free)
    (hlt : s.gotten.length < s.enqueued.length) {availRing : ℕ → BitVec 16}
    (havail : ∀ k < c.num, availRing k = s.ring.availRing k) :
    Inv (s.taken e availRing) flight (e.chain ++ free) := by
  have hmem : e ∈ e :: flight := List.mem_cons_self
  have hchain := h.chain_eq hmem
  have hne := (h.spells e hmem).ne_nil
  have hnodup := h.nodup
  rw [List.flatMap_cons] at hnodup
  obtain ⟨-, hnodup, hfree⟩ := List.nodup_append.1 hnodup
  obtain ⟨hchain_nodup, -, hdisj⟩ := List.nodup_append.1 hnodup
  have hlast := h.last_mem
  have hhead : e.head ∈ e.chain := hchain ▸ List.mem_cons_self
  have hlen : (s.taken e availRing).gotten.length = s.gotten.length + 1 := List.length_append
  have hother : ∀ e' ∈ flight, ∀ i ∈ e.chain, i ∉ e'.chain := fun e' he' i hi hi' =>
    hdisj i hi i (List.mem_flatMap.2 ⟨e', he', hi'⟩) rfl
  exact {
    crashed := h.crashed
    broken := h.broken
    event := h.event
    vqNum := h.vqNum
    qNum := h.qNum
    ready := h.ready
    merge := h.merge
    submitted := by
      rw [hlen]
      change s.submitted.drop _ = _
      rw [← List.drop_drop, h.submitted]
      rfl
    gotten_le := hlen ▸ hlt
    enqueued_le := h.enqueued_le
    availIdx := h.availIdx
    availIdxShadow := h.availIdxShadow
    usedIdx := h.usedIdx
    lastAvailIdx := h.lastAvailIdx
    lastUsedIdx := by
      rw [hlen, ← Ring.ofNat_add_one, ← h.lastUsedIdx]
      rfl
    perm := by
      refine List.Perm.trans ?_ h.perm
      rw [List.flatMap_cons, ← List.append_assoc]
      exact List.perm_append_comm.append_right _
    numFree := by
      rw [List.length_append, Nat.add_comm, ← h.numFree]
      rfl
    linked := h.linked_taken availRing
    spells := by
      intro e' he'
      refine (h.spells e' (List.mem_cons_of_mem _ he')).congr fun i hi => ?_
      have hne : i ≠ e.last := fun heq => hother e' he' _ hlast (heq ▸ hi)
      exact Function.update_of_ne hne _ _
    data := by
      intro e' he'
      have hmem' := List.mem_cons_of_mem e he'
      have hne : e'.head ≠ e.head := fun heq =>
        hother e' he' _ hhead (heq ▸ h.chain_eq hmem' ▸ List.mem_cons_self)
      exact (Function.update_of_ne hne _ _).trans (h.data e' hmem')
    avail := by
      intro j e' he'
      rw [hlen, Nat.add_assoc, Nat.add_comm 1]
      change (availRing _).toNat = _
      rw [havail _ (Nat.mod_lt _ c.num_pos)]
      exact h.avail (j + 1) e' he'
    used := by
      intro j e' he' hj
      rw [hlen, Nat.add_assoc, Nat.add_comm 1] at *
      exact h.used (j + 1) e' he' hj }

/-! ## Every event -/

theorem Inv.add_same (h : Inv s flight free) (req : Request c τ) :
    Same s (s.add req) ∨ req.bufs.length ≤ free.length ∧ Same (s.added req) (s.add req) := by
  rw [h.add_eq req]
  split_ifs with hfree hadded
  · exact .inr ⟨hfree, same_kick⟩
  · exact .inr ⟨hfree, ⟨rfl, rfl, rfl, fun _ _ => rfl, rfl, rfl, rfl, rfl, rfl⟩⟩
  · exact .inl ⟨rfl, rfl, rfl, fun _ _ => rfl, rfl, rfl, rfl, rfl, rfl⟩

theorem Inv.iterate_of_eq (h : Inv s flight free) (serve : δ → VirtioReq → δ × BitVec 16)
    (heq : s.enqueued.length = s.submitted.length) :
    s.iterate serve = { s with looping := s.looping - 1 } :=
  if_pos (h.lastAvailIdx_eq_iff.2 heq)

theorem Inv.get_of_eq (h : Inv s flight free) (heq : s.gotten.length = s.enqueued.length) :
    s.get = { s with pc := .enable } := by
  have hmore : ¬moreUsed s.vq s.ring := h.moreUsed_iff.not.2 heq.not_lt
  rw [State.get, virtqueueGetBuf, if_neg (Bool.eq_false_iff.1 h.broken), if_neg hmore]
  simp only [if_neg (Bool.eq_false_iff.1 h.broken)]

theorem Inv.exists_cons (h : Inv s flight free) (hlt : s.gotten.length < s.enqueued.length) :
    ∃ e flight', flight = e :: flight' := by
  have := h.length_submitted
  have := h.enqueued_le
  exact List.exists_cons_of_ne_nil (List.length_pos_iff.1 (by omega))

variable {serve : δ → VirtioReq → δ × BitVec 16}

/-- What an event may do: it only concerns notifications, or a request is added, served or
    taken. -/
inductive Step (serve : δ → VirtioReq → δ × BitVec 16) (flight : List (Entry c τ))
    (free : List ℕ) (s : State c τ δ) : Event c τ → State c τ δ → Prop
  | same {l : Event c τ} {s' : State c τ δ} (hs : Same s s') : Step serve flight free s l s'
  | added {req : Request c τ} {s' : State c τ δ} (hfree : req.bufs.length ≤ free.length)
      (hs : Same (s.added req) s') : Step serve flight free s (.add req) s'
  | served {e : Entry c τ} (irq : Bool) (hlt : s.enqueued.length < s.submitted.length)
      (he : flight[s.enqueued.length - s.gotten.length]? = some e) :
      Step serve flight free s .iterate (s.served serve e.req irq)
  | taken {e : Entry c τ} {flight' : List (Entry c τ)} {availRing : ℕ → BitVec 16}
      (hflight : flight = e :: flight') (hlt : s.gotten.length < s.enqueued.length)
      (havail : ∀ k < c.num, availRing k = s.ring.availRing k) :
      Step serve flight free s .get (s.taken e availRing)

theorem Inv.step (h : Inv s flight free) (l : Event c τ) :
    Step serve flight free s l ((system serve).next s l) := by
  cases l with
  | add req =>
    obtain hs | ⟨hfree, hs⟩ := h.add_same req
    · exact .same hs
    · exact .added hfree hs
  | kick => exact .same same_kick
  | notify => exact .same same_notify
  | iterate =>
    change Step serve flight free s .iterate (s.iterate serve)
    rcases h.enqueued_le.eq_or_lt with heq | hlt
    · rw [h.iterate_of_eq serve heq]
      exact .same ⟨rfl, rfl, rfl, fun _ _ => rfl, rfl, rfl, rfl, rfl, rfl⟩
    · obtain ⟨e, he⟩ := h.exists_next hlt
      obtain ⟨irq, -, hiterate⟩ := h.iterate_of_lt serve hlt he
      rw [hiterate]
      exact .served irq hlt he
  | arm => exact .same same_arm
  | interrupt => exact .same ⟨rfl, rfl, rfl, fun _ _ => rfl, rfl, rfl, rfl, rfl, rfl⟩
  | ack => exact .same same_ack
  | check => exact .same ⟨rfl, rfl, rfl, fun _ _ => rfl, rfl, rfl, rfl, rfl, rfl⟩
  | disable => exact .same same_disable
  | get =>
    change Step serve flight free s .get s.get
    rcases h.gotten_le.eq_or_lt with heq | hlt
    · rw [h.get_of_eq heq]
      exact .same ⟨rfl, rfl, rfl, fun _ _ => rfl, rfl, rfl, rfl, rfl, rfl⟩
    · obtain ⟨e, flight, rfl⟩ := h.exists_cons hlt
      obtain ⟨availRing, havail, hget⟩ := h.get_of_lt hlt
      rw [hget]
      exact .taken rfl hlt havail
  | enable => exact .same (same_enable h.vqNum)
  | poll => exact .same same_poll

/-- The invariant is kept. -/
theorem Inv.exists_of_step {l : Event c τ} (h : Inv s flight free)
    (hstep : Step serve flight free s l s') : ∃ flight' free', Inv s' flight' free' := by
  cases hstep with
  | same hs => exact ⟨_, _, h.same hs⟩
  | added hfree hs => exact ⟨_, _, (h.added hfree).same hs⟩
  | served irq hlt he => exact ⟨_, _, h.served serve hlt he irq⟩
  | taken hflight hlt havail =>
    subst hflight
    exact ⟨_, _, h.taken hlt havail⟩

/-- No other event adds a request. -/
theorem Step.submitted_eq {l : Event c τ} (hstep : Step serve flight free s l s')
    (hadd : ∀ req, l ≠ .add req) : s'.submitted = s.submitted := by
  cases hstep with
  | same hs => exact hs.submitted
  | added hfree hs => exact absurd rfl (hadd _)
  | served irq hlt he => rfl
  | taken hflight hlt havail => rfl

/-! ## Refinement -/

/-- The queue, as the service it is. -/
def State.service (s : State c τ δ) : Service (Request c τ) VirtioReq τ :=
  ⟨s.submitted, s.enqueued, s.gotten⟩

/-- The service a queue of `c` descriptors provides: the device is handed the buffers of a
    request, each of which takes a descriptor. -/
def spec (c : Ring.Size 16) (τ : Type) :
    System (Service (Request c τ) VirtioReq τ) (Service.Event (Request c τ)) :=
  Service.system (fun req => .ofBufs req.bufs) Request.data (fun req => req.bufs.length) c.num

theorem Same.service_eq (hs : Same s s') : s'.service = s.service := by
  simp only [State.service, hs.submitted, hs.enqueued, hs.gotten]

/-- The descriptors of the requests in flight are their buffers. -/
theorem Inv.sum_chain (h : Inv s flight free) :
    (s.service.inFlight.map fun req => req.bufs.length).sum =
      (flight.map fun e => e.chain.length).sum := by
  change ((s.submitted.drop s.gotten.length).map _).sum = _
  rw [h.submitted, List.map_map]
  exact congrArg List.sum (List.map_congr_left fun e he => (h.spells e he).length_eq.symm)

/-- The requests in flight are those submitted last. -/
theorem Inv.submitted_getElem? (h : Inv s flight free) {j : ℕ} {e : Entry c τ}
    (he : flight[j]? = some e) : s.submitted[s.gotten.length + j]? = some e.req := by
  rw [← List.getElem?_drop, h.submitted, List.getElem?_map, he]
  rfl

/-- An event of the queue is one of the service, or none. -/
theorem Inv.service_of_step {l : Event c τ} (h : Inv s flight free)
    (hstep : Step serve flight free s l s') :
    s'.service = s.service ∨
      ∃ l, (spec c τ).Enabled s.service l ∧ s'.service = (spec c τ).next s.service l := by
  cases hstep with
  | same hs => exact .inl hs.service_eq
  | @added req _ hfree hs =>
    refine .inr ⟨.submit req, ?_, hs.service_eq⟩
    have hnum := h.length_add_sum
    change ((s.service.inFlight ++ [req]).map fun req => req.bufs.length).sum ≤ c.num
    rw [List.map_append, List.sum_append, h.sum_chain, List.map_singleton, List.sum_singleton]
    omega
  | served irq hlt he =>
    have hreq := h.submitted_getElem? he
    rw [Nat.add_sub_cancel' h.gotten_le] at hreq
    refine .inr ⟨.serve, hlt, ?_⟩
    simp only [State.service, State.served, spec, Service.system, hreq]
    rfl
  | @taken e _ _ hflight hlt havail =>
    subst hflight
    have hreq : s.submitted[s.gotten.length]? = some e.req := h.submitted_getElem? (j := 0) rfl
    refine .inr ⟨.take, hlt, ?_⟩
    simp only [State.service, State.taken, spec, Service.system, hreq]
    rfl

/-- The device serves what it is handed. -/
theorem Step.dev_eq {l : Event c τ} (hstep : Step serve flight free s l s') : ∃ rs,
    s'.enqueued = s.enqueued ++ rs ∧
      s'.dev = rs.foldl (fun dev r => (serve dev r).1) s.dev := by
  cases hstep with
  | same hs => exact ⟨[], hs.enqueued.trans (List.append_nil _).symm, hs.dev⟩
  | added hfree hs => exact ⟨[], hs.enqueued.trans (List.append_nil _).symm, hs.dev⟩
  | served irq hlt he => exact ⟨_, rfl, rfl⟩
  | taken hflight hlt havail => exact ⟨[], (List.append_nil _).symm, rfl⟩

/-- Four descriptors. -/
abbrev sampleSize : Ring.Size 16 := ⟨2, by decide, by decide⟩

/-- A request of two buffers. -/
def sampleRequest : Request sampleSize ℕ :=
  ⟨7, [⟨0x1000, 16⟩], [⟨0x2000, 512⟩], by decide, by decide, by decide, by decide⟩

/-- The events by which a request is added, served and taken. -/
def sampleEvents : List (Event sampleSize ℕ) :=
  [.add sampleRequest, .kick, .notify, .iterate, .interrupt, .ack, .check, .disable, .get]

/-- A queue whose device counts the requests it serves. -/
def sampleInit : State sampleSize ℕ ℕ :=
  init sampleSize ℕ (.setUp sampleSize 128 0x3000 0x4000 0x5000) 0

def sample : State sampleSize ℕ ℕ :=
  (system fun n _ => (n + 1, 1)).run sampleInit sampleEvents

theorem isRun_sample : (system fun n _ => (n + 1, 1)).IsRun sampleInit sampleEvents :=
  ⟨⟨rfl, trivial⟩, ⟨rfl, by decide⟩, ⟨rfl, by decide⟩, ⟨rfl, by decide⟩, ⟨rfl, rfl, rfl⟩,
    ⟨rfl, _, rfl⟩, ⟨rfl, rfl⟩, ⟨rfl, rfl⟩, ⟨rfl, rfl⟩, trivial⟩

section Reachable

variable {numMax : BitVec 32} {desc avail used : BitVec 64} {dev : δ}
  (hs : (system serve).Reachable (init c τ (.setUp c numMax desc avail used) dev) s)

include hs

theorem exists_inv : ∃ flight free, Inv s flight free :=
  hs.invariant (P := fun s => ∃ flight free, Inv s flight free)
    ⟨[], _, inv_init c τ numMax desc avail used dev⟩
    fun _ l ⟨_, _, h⟩ _ => h.exists_of_step (h.step l)

theorem dev_eq_foldl : s.dev = s.enqueued.foldl (fun dev r => (serve dev r).1) dev := by
  induction hs with
  | refl => rfl
  | @step s l hs hl ih =>
    obtain ⟨flight, free, h⟩ := exists_inv hs
    have hstep : Step serve flight free s l ((system serve).next s l) := h.step l
    obtain ⟨rs, henqueued, hdev⟩ := hstep.dev_eq
    rw [hdev, henqueued, List.foldl_append, ← ih]

/-- The queue refines the service. -/
theorem reachable_spec : (spec c τ).Reachable .init s.service :=
  hs.refine (P := fun s => ∃ flight free, Inv s flight free)
    ⟨[], _, inv_init c τ numMax desc avail used dev⟩
    (fun _ l ⟨_, _, h⟩ _ => h.exists_of_step (h.step l))
    fun _ l ⟨_, _, h⟩ _ => h.service_of_step (h.step l)

/-- In whatever order the two sides go on, the queue is a service: the device is handed the
    buffers of the requests in the order they were added, and the driver takes the
    requests back in that order, each of them once. -/
theorem reachable_service :
    (spec c τ).Reachable .init s.service ∧
      s.enqueued = (s.submitted.map fun req => .ofBufs req.bufs).take s.enqueued.length ∧
      s.gotten = (s.submitted.map Request.data).take s.gotten.length ∧
      s.gotten.length ≤ s.enqueued.length ∧
      s.dev = s.enqueued.foldl (fun dev r => (serve dev r).1) dev := by
  have hspec := reachable_spec hs
  obtain ⟨hserved, htaken, htaken_le, -, -⟩ := Service.inOrder_of_reachable hspec
  exact ⟨hspec, hserved, htaken, htaken_le, dev_eq_foldl hs⟩

omit hs in
/-- A request is added to a queue of four descriptors, served and taken. -/
theorem reachable_service_sample :
    sample.gotten = [7] ∧
      sample.gotten = (sample.submitted.map Request.data).take sample.gotten.length :=
  ⟨rfl, (reachable_service (System.reachable_run isRun_sample)).2.2.1⟩

/-- Neither side ever runs into an error (a panic of the device, a bug or a broken queue of
    the driver), and no descriptor is lost or shared: each one of the ring is either in the free
    list of the driver or in the chain of one of the requests in flight, once, and the chains
    have the buffers of their requests. -/
theorem descriptors_shared_out : s.crashed = false ∧ s.vq.broken = false ∧
    ∃ (free : List ℕ) (chains : List (List ℕ)),
      Links.Linked (nextOf s.ring.desc) s.vq.freeHead free ∧ free.length = s.vq.numFree ∧
      List.Forall₂ (fun chain req => Spells s.ring.desc chain req.bufs) chains s.service.inFlight ∧
      (free ++ chains.flatten).Perm (List.range c.num) := by
  obtain ⟨flight, free, h⟩ := exists_inv hs
  have hflight : s.service.inFlight = flight.map Entry.req := h.submitted
  refine ⟨h.crashed, h.broken, free, flight.map Entry.chain, h.linked, h.numFree.symm, ?_, ?_⟩
  · rw [hflight, List.forall₂_map_left_iff, List.forall₂_map_right_iff, List.forall₂_same]
    exact h.spells
  · rw [← List.flatMap_def]
    exact h.perm

omit hs in
/-- Two of the four descriptors are those of a request that has been added. -/
theorem descriptors_shared_out_sample :
    let s := (system fun n _ => (n + 1, 1)).run sampleInit [.add sampleRequest]
    s.service.inFlight = [sampleRequest] ∧ s.vq.numFree = 2 ∧
      ∃ (free : List ℕ) (chains : List (List ℕ)),
        List.Forall₂ (fun chain req => Spells s.ring.desc chain req.bufs) chains [sampleRequest] ∧
        (free ++ chains.flatten).Perm (List.range 4) := by
  have hrun : (system fun n _ => (n + 1, 1)).IsRun sampleInit [.add sampleRequest] :=
    ⟨⟨rfl, trivial⟩, trivial⟩
  obtain ⟨-, -, free, chains, -, -, hchains, hperm⟩ :=
    descriptors_shared_out (System.reachable_run hrun)
  exact ⟨rfl, rfl, free, chains, hchains, hperm⟩

end Reachable

end Virtio

end NodeLkl
