import NodeLkl.Base.Links
import NodeLkl.Virtio.Vring

/-!
# Virtio drivers

The driver side of a virtio queue, in the kernel. The descriptors that are not in
use are in a list, linked by their `next`. A request takes the first ones, which
are chained already, for its buffers (`virtqueueAdd`); once the device has put it
in the used ring, its descriptors are put back at the front of the list
(`virtqueueGetBuf`, `detachBuf`).

The device is notified of requests that are past its event index
(`virtqueueKickPrepare`). It interrupts the driver, which then takes the requests
out of the used ring, having disabled interrupts, until none is left after they
are enabled again (`virtqueueEnableCbPrepare`, `virtqueuePoll`).

* `fillChain_spec`: filling descriptors from the list chains them;
* `virtqueueAdd_eq`: adding a request for which there are enough descriptors;
* `detachLoop_of_spells`: the last descriptor of a chain is found from the first;
* `virtqueueGetBuf_eq`: taking a request whose chain is well-formed.
-/

namespace NodeLkl

namespace Virtio

variable {τ : Type}

/-- A queue, as the driver sees it. `data` is the request each first descriptor
    belongs to. -/
structure VringVirtqueue (τ : Type) where
  num : BitVec 32
  event : Bool
  broken : Bool
  freeHead : ℕ
  numFree : ℕ
  numAdded : ℕ
  lastUsedIdx : BitVec 16
  availFlagsShadow : BitVec 16
  availIdxShadow : BitVec 16
  data : ℕ → Option τ

/-- The flag by which the driver disables interrupts. -/
abbrev vringAvailFNoInterrupt : BitVec 16 := 1

/-- The flag by which a device disables notifications. -/
abbrev vringUsedFNoNotify : BitVec 16 := 1

/-- A new queue of `num` descriptors, all of them in the list. -/
def vringNewVirtqueue (num : BitVec 32) (event callback : Bool) (r : Vring) :
    VringVirtqueue τ × Vring :=
  let flags := if callback then 0 else vringAvailFNoInterrupt
  let desc i : VringDesc :=
    if i + 1 < num.toNat then { r.desc i with next := BitVec.ofNat 16 (i + 1) } else r.desc i
  (⟨num, event, false, 0, num.toNat, 0, 0, flags, 0, fun _ => none⟩,
    { r with desc := desc, availFlags := if callback ∨ event then r.availFlags else flags })

/-! ## Adding a request -/

/-- The link of a descriptor. -/
def nextOf (desc : ℕ → VringDesc) (i : ℕ) : ℕ := (desc i).next.toNat

/-- The descriptor of the buffer `sg`, linked as `d` is. -/
def VringDesc.setBuf (d : VringDesc) (sg : Iovec) (flags : BitVec 16) : VringDesc :=
  { d with addr := sg.iovBase, len := sg.iovLen, flags := flags }

/-- The descriptors from `i` on filled with the buffers `sgs`, along their links:
    the table, the descriptor after them, and the last one filled (`prev` if there
    is none). -/
def fillDescs (desc : ℕ → VringDesc) (i prev : ℕ) :
    List (Iovec × BitVec 16) → (ℕ → VringDesc) × ℕ × ℕ
  | [] => (desc, i, prev)
  | (sg, flags) :: sgs =>
    fillDescs (Function.update desc i ((desc i).setBuf sg flags)) (nextOf desc i) i sgs

/-- The descriptor `i` does not continue. -/
def clearNext (desc : ℕ → VringDesc) (i : ℕ) : ℕ → VringDesc :=
  Function.update desc i { desc i with flags := (desc i).flags &&& ~~~VringDescF.next }

/-- The descriptors filled, the last of which does not continue. -/
def fillChain (desc : ℕ → VringDesc) (i : ℕ) (sgs : List (Iovec × BitVec 16)) :
    (ℕ → VringDesc) × ℕ :=
  let (desc, i, prev) := fillDescs desc i i sgs
  (clearNext desc prev, i)

/-- The buffers of a request, those the device reads and then those it writes, with
    the flags of their descriptors. -/
def sgFlags (outSgs inSgs : List Iovec) : List (Iovec × BitVec 16) :=
  outSgs.map (·, VringDescF.next) ++ inSgs.map (·, VringDescF.next ||| VringDescF.write)

/-- The device has to be notified of the requests added since it last was. -/
def virtqueueKickPrepare (vq : VringVirtqueue τ) (r : Vring) : Bool × VringVirtqueue τ :=
  let old := vq.availIdxShadow - BitVec.ofNat 16 vq.numAdded
  let new := vq.availIdxShadow
  let needsKick :=
    if vq.event then vringNeedEvent r.availEvent new old
    else r.usedFlags &&& vringUsedFNoNotify == 0
  (needsKick, { vq with numAdded := 0 })

/-- How adding a request ends: the kernel stops, the queue is broken or has not
    enough free descriptors, or the request is added. The device is notified or
    not. -/
inductive AddResult (τ : Type)
  | bug
  | eio
  | enospc (notify : Bool)
  | added (vq : VringVirtqueue τ) (ring : Vring) (notify : Bool)

/-- Adding the request `data`, with the given buffers. The device does not support
    indirect descriptors. -/
def virtqueueAdd (vq : VringVirtqueue τ) (r : Vring) (outSgs inSgs : List Iovec) (data : τ) :
    AddResult τ :=
  let totalSg := outSgs.length + inSgs.length
  if vq.broken then .eio
  else if vq.num.toNat < totalSg ∨ totalSg = 0 then .bug
  else if vq.numFree < totalSg then
    -- the device is notified, so that it serves what is in the queue
    .enospc !outSgs.isEmpty
  else
    let head := vq.freeHead
    let (desc, i) := fillChain r.desc head (sgFlags outSgs inSgs)
    let avail := Ring.slot vq.num vq.availIdxShadow
    let vq := { vq with
      numFree := vq.numFree - totalSg
      freeHead := i
      data := Function.update vq.data head (some data)
      availIdxShadow := vq.availIdxShadow + 1
      numAdded := vq.numAdded + 1 }
    let r := { r with
      desc := desc
      availRing := Function.update r.availRing avail (BitVec.ofNat 16 head)
      availIdx := vq.availIdxShadow }
    -- the count of the requests added must not overflow
    if vq.numAdded = 2 ^ 16 - 1 then
      let (notify, vq) := virtqueueKickPrepare vq r
      .added vq r notify
    else .added vq r false

/-! ## Taking a request out of the used ring -/

/-- The last descriptor of the chain starting at `i`, and the number of free
    descriptors when those before it are counted. A chain of more than `fuel`
    descriptors is taken for one that does not end. -/
def detachLoop (desc : ℕ → VringDesc) : (fuel i numFree : ℕ) → Option (ℕ × ℕ)
  | 0, _, _ => none
  | fuel + 1, i, numFree =>
    if (desc i).flags &&& VringDescF.next ≠ 0 then
      detachLoop desc fuel (nextOf desc i) (numFree + 1)
    else some (i, numFree)

/-- The descriptors of the request starting at `head` are put back in the list. A
    chain has at most `num` descriptors, or never ends. -/
def detachBuf (vq : VringVirtqueue τ) (r : Vring) (head : ℕ) :
    Option (VringVirtqueue τ × Vring) :=
  match detachLoop r.desc vq.num.toNat head vq.numFree with
  | none => none
  | some (i, numFree) =>
    let d := { r.desc i with next := BitVec.ofNat 16 vq.freeHead }
    some ({ vq with
        data := Function.update vq.data head none
        freeHead := head
        numFree := numFree + 1 },
      { r with desc := Function.update r.desc i d })

/-- The device has served requests the driver has not taken yet. -/
def moreUsed (vq : VringVirtqueue τ) (r : Vring) : Bool := vq.lastUsedIdx != r.usedIdx

/-- How taking a request ends: there is none, the used ring does not make sense, it
    does not end, or the request is taken. -/
inductive GetResult (τ : Type)
  | nothing
  | badRing
  | stuck
  | got (data : τ) (len : BitVec 32) (vq : VringVirtqueue τ) (ring : Vring)

/-- Taking the next request out of the used ring. -/
def virtqueueGetBuf (vq : VringVirtqueue τ) (r : Vring) : GetResult τ :=
  if vq.broken then .nothing
  else if moreUsed vq r then
    let e := r.usedRing (Ring.slot vq.num vq.lastUsedIdx)
    if vq.num.toNat ≤ e.id.toNat then .badRing
    else match vq.data e.id.toNat with
      | none => .badRing
      | some data =>
        match detachBuf vq r e.id.toNat with
        | none => .stuck
        | some (vq, r) =>
          let vq := { vq with lastUsedIdx := vq.lastUsedIdx + 1 }
          -- the driver expects an interrupt for the next request
          let availRing :=
            if vq.availFlagsShadow &&& vringAvailFNoInterrupt = 0 then
              Function.update r.availRing vq.num.toNat vq.lastUsedIdx
            else r.availRing
          .got data e.len vq { r with availRing := availRing }
  else .nothing

def virtqueueDisableCb (vq : VringVirtqueue τ) (r : Vring) : VringVirtqueue τ × Vring :=
  if vq.availFlagsShadow &&& vringAvailFNoInterrupt = 0 then
    let flags := vq.availFlagsShadow ||| vringAvailFNoInterrupt
    ({ vq with availFlagsShadow := flags },
      { r with availFlags := if vq.event then r.availFlags else flags })
  else (vq, r)

/-- Interrupts are enabled again, from the request the driver takes next on. -/
def virtqueueEnableCbPrepare (vq : VringVirtqueue τ) (r : Vring) : VringVirtqueue τ × Vring :=
  let flags := vq.availFlagsShadow &&& ~~~vringAvailFNoInterrupt
  let availFlags :=
    if vq.availFlagsShadow &&& vringAvailFNoInterrupt = 0 ∨ vq.event then r.availFlags else flags
  let availRing := Function.update r.availRing vq.num.toNat vq.lastUsedIdx
  ({ vq with availFlagsShadow := flags },
    { r with availRing := availRing, availFlags := availFlags })

def virtqueuePoll (r : Vring) (lastUsedIdx : BitVec 16) : Bool := lastUsedIdx != r.usedIdx

/-! ## Chains -/

section Fill

variable {desc : ℕ → VringDesc} {i : ℕ} {c : List ℕ} {sgs : List (Iovec × BitVec 16)}

/-- Updating a descriptor does not change the links, if its own is the same. -/
theorem nextOf_update (desc : ℕ → VringDesc) (i : ℕ) {d : VringDesc}
    (hd : d.next = (desc i).next) : nextOf (Function.update desc i d) = nextOf desc := by
  funext j
  by_cases hj : j = i
  · subst hj
    simp [nextOf, hd]
  · simp [nextOf, hj]

theorem nextOf_setBuf (desc : ℕ → VringDesc) (i : ℕ) (sg : Iovec) (flags : BitVec 16) :
    nextOf (Function.update desc i ((desc i).setBuf sg flags)) = nextOf desc :=
  nextOf_update desc i rfl

theorem nextOf_clearNext (desc : ℕ → VringDesc) (i : ℕ) :
    nextOf (clearNext desc i) = nextOf desc :=
  nextOf_update desc i rfl

/-- What filling descriptors does: it changes no other descriptor and no link, and
    ends where the links lead to. -/
theorem fillDescs_spec (prev : ℕ) (hc : Links.Linked (nextOf desc) i c)
    (hlen : c.length = sgs.length) :
    (∀ k ∉ c, (fillDescs desc i prev sgs).1 k = desc k) ∧
      nextOf (fillDescs desc i prev sgs).1 = nextOf desc ∧
      (fillDescs desc i prev sgs).2.1 = Links.after (nextOf desc) i c ∧
      (c ≠ [] → (fillDescs desc i prev sgs).2.2 ∈ c) := by
  induction c generalizing desc i prev sgs with
  | nil =>
    obtain rfl := List.length_eq_zero_iff.1 hlen.symm
    exact ⟨fun _ _ => rfl, rfl, rfl, fun h => absurd rfl h⟩
  | cons j c ih =>
    obtain ⟨rfl, hc⟩ := hc
    obtain ⟨⟨sg, flags⟩, sgs, rfl⟩ := List.exists_cons_of_length_eq_add_one hlen.symm
    have hnext := nextOf_setBuf desc j sg flags
    have hc' : Links.Linked (nextOf (Function.update desc j ((desc j).setBuf sg flags)))
        (nextOf desc j) c := hnext ▸ hc
    obtain ⟨hframe, hlinks, hafter, hprev⟩ := ih j hc' (Nat.succ_inj.1 hlen)
    rw [fillDescs]
    refine ⟨fun k hk => ?_, hlinks.trans hnext, ?_, fun _ => ?_⟩
    · rw [List.mem_cons, not_or] at hk
      exact (hframe k hk.2).trans (Function.update_of_ne hk.1 _ _)
    · rw [hnext] at hafter
      exact hafter
    · cases c with
      | nil =>
        obtain rfl := List.length_eq_zero_iff.1 (Nat.succ_inj.1 hlen).symm
        exact List.mem_cons_self
      | cons k c => exact List.mem_cons_of_mem _ (hprev (List.cons_ne_nil k c))

/-- The descriptors filled are a chain of the buffers, once the last one does not
    continue. -/
theorem spells_fillDescs (prev : ℕ) (hc : Links.Linked (nextOf desc) i c) (hnodup : c.Nodup)
    (hlen : c.length = sgs.length) (hne : c ≠ [])
    (hflags : ∀ sg ∈ sgs, sg.2 &&& VringDescF.next ≠ 0) :
    Spells (clearNext (fillDescs desc i prev sgs).1 (fillDescs desc i prev sgs).2.2) c
      (sgs.map Prod.fst) := by
  induction c generalizing desc i prev sgs with
  | nil => exact absurd rfl hne
  | cons j c ih =>
    obtain ⟨rfl, hc⟩ := hc
    obtain ⟨⟨sg, flags⟩, sgs, rfl⟩ := List.exists_cons_of_length_eq_add_one hlen.symm
    have hlen' := Nat.succ_inj.1 hlen
    have hnext := nextOf_setBuf desc j sg flags
    rw [fillDescs]
    cases c with
    | nil =>
      obtain rfl := List.length_eq_zero_iff.1 hlen'.symm
      simp [fillDescs, clearNext, Spells, VringDesc.setBuf, BitVec.and_assoc]
    | cons k c =>
      obtain ⟨⟨sg', flags'⟩, sgs, rfl⟩ := List.exists_cons_of_length_eq_add_one hlen'.symm
      have hc' : Links.Linked (nextOf (Function.update desc j ((desc j).setBuf sg flags)))
          (nextOf desc j) (k :: c) := hnext ▸ hc
      have hj : j ∉ k :: c := (List.nodup_cons.1 hnodup).1
      obtain ⟨hframe, -, -, hprev⟩ := fillDescs_spec j hc' hlen'
      have hspells := ih j hc' (List.nodup_cons.1 hnodup).2 hlen' (List.cons_ne_nil k c)
        fun sg hsg => hflags sg (List.mem_cons_of_mem _ hsg)
      -- neither filling the others nor the end of the chain changes the first one
      have hfirst : clearNext
          (fillDescs (Function.update desc j ((desc j).setBuf sg flags)) (nextOf desc j) j
            ((sg', flags') :: sgs)).1
          (fillDescs (Function.update desc j ((desc j).setBuf sg flags)) (nextOf desc j) j
            ((sg', flags') :: sgs)).2.2 j = (desc j).setBuf sg flags := by
        have hne : j ≠ _ := fun heq => hj (heq ▸ hprev (List.cons_ne_nil k c))
        rw [clearNext, Function.update_of_ne hne, hframe j hj, Function.update_self]
      refine ⟨?_, ?_, ?_, ?_, hspells⟩
      · exact congrArg VringDesc.addr hfirst
      · exact congrArg VringDesc.len hfirst
      · rw [hfirst]
        exact hflags _ List.mem_cons_self
      · rw [hfirst]
        exact hc.1.symm

/-- What filling the chain of a request does. -/
theorem fillChain_spec (hc : Links.Linked (nextOf desc) i c) (hnodup : c.Nodup)
    (hlen : c.length = sgs.length) (hne : c ≠ [])
    (hflags : ∀ sg ∈ sgs, sg.2 &&& VringDescF.next ≠ 0) :
    Spells (fillChain desc i sgs).1 c (sgs.map Prod.fst) ∧
      (∀ k ∉ c, (fillChain desc i sgs).1 k = desc k) ∧
      nextOf (fillChain desc i sgs).1 = nextOf desc ∧
      (fillChain desc i sgs).2 = Links.after (nextOf desc) i c := by
  obtain ⟨hframe, hlinks, hafter, hprev⟩ := fillDescs_spec i hc hlen
  refine ⟨spells_fillDescs i hc hnodup hlen hne hflags, fun k hk => ?_, ?_, hafter⟩
  · have hk' : k ≠ _ := fun heq => hk (heq ▸ hprev hne)
    exact (Function.update_of_ne hk' _ _).trans (hframe k hk)
  · exact (nextOf_clearNext _ _).trans hlinks

/-- The buffers of a request are all chained. -/
theorem sgFlags_next {outSgs inSgs : List Iovec} :
    ∀ sg ∈ sgFlags outSgs inSgs, sg.2 &&& VringDescF.next ≠ 0 := by
  intro sg hsg
  rw [sgFlags, List.mem_append, List.mem_map, List.mem_map] at hsg
  obtain ⟨_, _, rfl⟩ | ⟨_, _, rfl⟩ := hsg
  · exact show VringDescF.next &&& VringDescF.next ≠ 0 by decide
  · exact show (VringDescF.next ||| VringDescF.write) &&& VringDescF.next ≠ 0 by decide

theorem map_fst_sgFlags (outSgs inSgs : List Iovec) :
    (sgFlags outSgs inSgs).map Prod.fst = outSgs ++ inSgs := by
  simp [sgFlags, Function.comp_def]

end Fill

section Add

variable {vq : VringVirtqueue τ} {r : Vring} {outSgs inSgs : List Iovec}

/-- The queue after the request `data` is added, with the descriptors from the first
    free one on: the next free one is then `i`. -/
def VringVirtqueue.addBuf (vq : VringVirtqueue τ) (data : τ) (totalSg i : ℕ) :
    VringVirtqueue τ :=
  { vq with
    numFree := vq.numFree - totalSg
    freeHead := i
    data := Function.update vq.data vq.freeHead (some data)
    availIdxShadow := vq.availIdxShadow + 1
    numAdded := vq.numAdded + 1 }

/-- The memory of the queue after that, with the descriptors `desc`. -/
def Vring.addBuf (r : Vring) (vq : VringVirtqueue τ) (desc : ℕ → VringDesc) : Vring :=
  let slot := Ring.slot vq.num vq.availIdxShadow
  { r with
    desc := desc
    availRing := Function.update r.availRing slot (BitVec.ofNat 16 vq.freeHead)
    availIdx := vq.availIdxShadow + 1 }

/-- A request is added when there are enough descriptors. The device is only notified at
    once when the count of the requests added is about to overflow. -/
theorem virtqueueAdd_eq (hbroken : vq.broken = false) (hpos : 0 < (outSgs ++ inSgs).length)
    (hle : (outSgs ++ inSgs).length ≤ vq.num.toNat)
    (hfree : (outSgs ++ inSgs).length ≤ vq.numFree) (data : τ) :
    let desc := fillChain r.desc vq.freeHead (sgFlags outSgs inSgs)
    let vq' := vq.addBuf data (outSgs ++ inSgs).length desc.2
    let r' := r.addBuf vq desc.1
    virtqueueAdd vq r outSgs inSgs data =
      if vq.numAdded + 1 = 2 ^ 16 - 1 then
        .added (virtqueueKickPrepare vq' r').2 r' (virtqueueKickPrepare vq' r').1
      else .added vq' r' false := by
  rw [List.length_append] at *
  have hbug : ¬(vq.num.toNat < outSgs.length + inSgs.length ∨ outSgs.length + inSgs.length = 0) :=
    by omega
  simp only [virtqueueAdd, if_neg (Bool.eq_false_iff.1 hbroken), if_neg hbug,
    if_neg (Nat.not_lt.2 hfree)]
  rfl

/-- When there are not enough of them, nothing changes. -/
theorem virtqueueAdd_of_lt (hbroken : vq.broken = false) (hpos : 0 < (outSgs ++ inSgs).length)
    (hle : (outSgs ++ inSgs).length ≤ vq.num.toNat)
    (hfree : vq.numFree < (outSgs ++ inSgs).length) (data : τ) :
    virtqueueAdd vq r outSgs inSgs data = .enospc !outSgs.isEmpty := by
  rw [List.length_append] at *
  have hbug : ¬(vq.num.toNat < outSgs.length + inSgs.length ∨ outSgs.length + inSgs.length = 0) :=
    by omega
  simp only [virtqueueAdd, if_neg (Bool.eq_false_iff.1 hbroken), if_neg hbug, if_pos hfree]

end Add

section Detach

variable {desc : ℕ → VringDesc} {i : ℕ} {c : List ℕ} {bs : List Iovec}

/-- The descriptors of a chain are linked. -/
theorem Spells.linked (h : Spells desc (i :: c) bs) : Links.Linked (nextOf desc) i (i :: c) := by
  induction c generalizing i bs with
  | nil => exact ⟨rfl, trivial⟩
  | cons j c ih =>
    match bs, h with
    | b :: b' :: bs, ⟨_, _, _, hnext, h⟩ =>
      refine ⟨rfl, ?_⟩
      rw [show nextOf desc i = j from hnext]
      exact ih h

/-- The last descriptor of a chain is found from the first, and the ones before it
    counted. -/
theorem detachLoop_of_spells (h : Spells desc (i :: c) bs) {fuel : ℕ} (hfuel : c.length < fuel)
    (numFree : ℕ) : detachLoop desc fuel i numFree =
      some ((i :: c).getLast (List.cons_ne_nil i c), numFree + c.length) := by
  induction c generalizing i bs fuel numFree with
  | nil =>
    match fuel, bs, h with
    | fuel + 1, [b], ⟨_, _, hflags⟩ =>
      rw [detachLoop, if_neg (not_not.2 hflags)]
      rfl
  | cons j c ih =>
    match fuel, bs, h with
    | fuel + 1, b :: b' :: bs, ⟨_, _, hflags, hnext, h⟩ =>
      rw [detachLoop, if_pos hflags, show nextOf desc i = j from hnext,
        ih h (Nat.lt_of_succ_lt_succ hfuel), List.getLast_cons (List.cons_ne_nil j c),
        List.length_cons, Nat.add_assoc, Nat.add_comm 1]

/-- Taking a request whose chain is well-formed: its descriptors are put back in the
    list, and the slots of the available ring are not changed. -/
theorem virtqueueGetBuf_eq {vq : VringVirtqueue τ} {r : Vring} {data : τ}
    (hbroken : vq.broken = false) (hmore : moreUsed vq r)
    (hid : (r.usedRing (Ring.slot vq.num vq.lastUsedIdx)).id.toNat = i) (hi : i < vq.num.toNat)
    (hdata : vq.data i = some data) (hch : Spells r.desc (i :: c) bs)
    (hlen : c.length < vq.num.toNat) :
    ∃ len availRing, (∀ k < vq.num.toNat, availRing k = r.availRing k) ∧
      virtqueueGetBuf vq r = .got data len
        { vq with
          data := Function.update vq.data i none
          freeHead := i
          numFree := vq.numFree + c.length + 1
          lastUsedIdx := vq.lastUsedIdx + 1 }
        { r with
          desc := Function.update r.desc ((i :: c).getLast (List.cons_ne_nil i c))
            { r.desc ((i :: c).getLast (List.cons_ne_nil i c)) with
              next := BitVec.ofNat 16 vq.freeHead }
          availRing := availRing } := by
  simp only [virtqueueGetBuf, if_neg (Bool.eq_false_iff.1 hbroken), if_pos hmore, hid, hdata,
    detachBuf, detachLoop_of_spells hch hlen, if_neg hi.not_ge]
  refine ⟨_, _, fun k hk => ?_, rfl⟩
  split
  · exact Function.update_of_ne hk.ne _ _
  · rfl

end Detach

end Virtio

end NodeLkl
