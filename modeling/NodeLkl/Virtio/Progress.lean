import NodeLkl.Base.Bits
import NodeLkl.Virtio.Queue

/-!
# Progress of virtio queues

The driver and the device only notify each other when they have to. Here it is
shown that no request is left behind for want of a notification.

* The driver kicks the device after adding requests, and the device is notified if
  they are past its event index, which it sets when it has served everything
  (`Kicked`).
* The device interrupts the driver when it has served everything, at the latest
  (`Signaled`).

For the latter, the device must not serve a request after the interrupt handler
has read its status and before the status is acknowledged, which clears it,
whatever it is by then (`Exclusive`): the interrupt would be lost
(`exists_stalled`). A device that serves its requests in the thread of the driver,
as block devices do, never does.

* `gotten_of_halted`: unless the driver adds requests, the two sides come to rest
  after a number of events (`State.rank`), and all the requests were then served and
  taken.
-/

namespace NodeLkl

namespace Virtio

variable {c : Ring.Size 16} {τ δ : Type} {s : State c τ δ} {flight : List (Entry c τ)}
  {free : List ℕ} {serve : δ → VirtioReq → δ × BitVec 16}

/-- The device does not serve a request while the interrupt handler acknowledges another
    one. -/
def Exclusive (s : State c τ δ) (l : Event c τ) : Prop :=
  match l with
  | .iterate => ∀ status, s.pc ≠ .ack status
  | _ => True

section Events

variable (h : Inv s flight free)

include h

theorem Inv.notify_eq :
    s.notify = { s with notifies := s.notifies - 1, looping := s.looping + 1 } :=
  if_neg (not_or.2 ⟨Bool.eq_false_iff.1 h.broken, h.ready⟩)

theorem Inv.arm_eq : s.arm = { s with
    armed := s.armed - 1
    looping := s.looping + 1
    ring := { s.ring with
      availEvent := if s.enqueued.length = s.submitted.length then
        BitVec.ofNat 16 s.submitted.length else s.ring.availEvent } } := by
  by_cases heq : s.enqueued.length = s.submitted.length
  · simp only [State.arm, if_pos (h.lastAvailIdx_eq_iff.2 heq), if_pos heq, virtioSetAvailEvent,
      ← h.availIdx]
  · simp only [State.arm, if_neg (h.lastAvailIdx_eq_iff.not.2 heq), if_neg heq]

theorem Inv.check_eq :
    s.check = { s with pc := if s.gotten.length < s.enqueued.length then .disable else .idle } := by
  simp only [State.check, h.broken, Bool.not_false, Bool.and_true, h.moreUsed_iff]

theorem Inv.poll_eq (hpc : s.pc = .poll s.vq.lastUsedIdx) :
    s.poll = { s with pc := if s.gotten.length < s.enqueued.length then .disable else .idle } := by
  simp only [State.poll, hpc, ← h.moreUsed_iff]
  rfl

end Events

theorem ack_eq {status : BitVec 32} (hpc : s.pc = .ack status) : s.ack = { s with
    intStatus := 0
    pc := if status &&& virtioMmioIntVring = 0 then .idle else .check } := by
  rw [State.ack, hpc]

/-! ## Notifications -/

/-- Why the device will see the requests it has not served: it is going through its queue,
    is about to, or will be notified by the next kick. -/
structure Kicked (s : State c τ δ) : Prop where
  numAdded_le : s.vq.numAdded ≤ s.submitted.length
  armed : s.armed = 0 → s.enqueued.length = s.submitted.length →
    s.ring.availEvent = BitVec.ofNat 16 s.enqueued.length
  idle : s.notifies = 0 → s.looping = 0 → s.armed = 0 →
    s.ring.availEvent = BitVec.ofNat 16 s.enqueued.length ∧
      s.submitted.length ≤ s.enqueued.length + s.vq.numAdded

/-- A kick notifies the device if it has not served everything, unless it is at it. -/
theorem Kicked.kick (h : Kicked s) (hinv : Inv s flight free) (hlt : s.vq.numAdded < 2 ^ 16) :
    Kicked s.kick := by
  refine ⟨Nat.zero_le _, h.armed, fun hn hl ha => ?_⟩
  obtain ⟨hn, hkick⟩ := Nat.add_eq_zero_iff.1 hn
  obtain ⟨hevent, hle⟩ := h.idle hn hl ha
  refine ⟨hevent, ?_⟩
  have hneed : ¬Ring.crossed s.ring.availEvent s.vq.availIdxShadow
      (s.vq.availIdxShadow - BitVec.ofNat 16 s.vq.numAdded) := by
    have := Bool.toNat_eq_zero.1 hkick
    rw [if_pos hinv.event] at this
    exact Bool.eq_false_iff.1 this
  have := h.numAdded_le
  rw [hevent, hinv.availIdxShadow, BitVec.ofNat_sub_ofNat_of_le _ _ hlt h.numAdded_le,
    Ring.crossed_iff (by omega) hinv.enqueued_le (by omega)] at hneed
  exact Nat.not_lt.1 hneed

theorem Kicked.added (h : Kicked s) (hinv : Inv s flight free) (req : Request c τ) :
    Kicked (s.added req) := by
  have hlen : (s.added req).submitted.length = s.submitted.length + 1 := List.length_append
  refine ⟨?_, fun _ heq => ?_, fun hn hl ha => ?_⟩
  · rw [hlen]
    exact Nat.succ_le_succ h.numAdded_le
  · rw [hlen] at heq
    exact absurd heq (Nat.lt_succ_of_le hinv.enqueued_le).ne
  · obtain ⟨hevent, hle⟩ := h.idle hn hl ha
    rw [hlen]
    exact ⟨hevent, Nat.succ_le_succ hle⟩

theorem Kicked.notify (h : Kicked s) (hinv : Inv s flight free) : Kicked s.notify := by
  rw [hinv.notify_eq]
  exact ⟨h.numAdded_le, h.armed, fun _ hl _ => absurd hl (Nat.succ_ne_zero _)⟩

/-- When the device leaves its loop, its event index is past everything it served. -/
theorem Kicked.iterate (h : Kicked s) (hinv : Inv s flight free) :
    Kicked (s.iterate serve) := by
  rcases hinv.enqueued_le.eq_or_lt with heq | hlt
  · rw [hinv.iterate_of_eq serve heq]
    exact ⟨h.numAdded_le, h.armed, fun _ _ ha =>
      ⟨h.armed ha heq, Nat.le_add_right_of_le heq.ge⟩⟩
  · obtain ⟨e, he⟩ := hinv.exists_next hlt
    obtain ⟨irq, -, hiterate⟩ := hinv.iterate_of_lt serve hlt he
    rw [hiterate]
    exact ⟨h.numAdded_le, fun ha => absurd ha (Nat.succ_ne_zero _),
      fun _ _ ha => absurd ha (Nat.succ_ne_zero _)⟩

theorem Kicked.arm (h : Kicked s) (hinv : Inv s flight free) : Kicked s.arm := by
  rw [hinv.arm_eq]
  refine ⟨h.numAdded_le, fun _ heq => ?_, fun _ hl => absurd hl (Nat.succ_ne_zero _)⟩
  exact (if_pos heq).trans (congrArg _ heq.symm)

/-! ## Interrupts -/

/-- The interrupt handler is about to take what was served. -/
def Pc.taking : Pc → Prop
  | .ack status => status &&& virtioMmioIntVring ≠ 0
  | .check | .disable | .get => True
  | .idle | .enable | .poll _ => False

/-- Why the driver will see the requests the device has served: its interrupt handler is at
    it, or will be. -/
structure Signaled (s : State c τ δ) : Prop where
  ack : ∀ status, s.pc = .ack status → status = s.intStatus ∧ s.irq = false
  poll : ∀ lastUsedIdx, s.pc = .poll lastUsedIdx → lastUsedIdx = s.vq.lastUsedIdx
  irq : s.enqueued.length = s.submitted.length → s.gotten.length < s.enqueued.length →
    s.irq = true ∧ s.intStatus &&& virtioMmioIntVring ≠ 0 ∨ s.pc.taking

theorem Signaled.added (h : Signaled s) (hinv : Inv s flight free) (req : Request c τ) :
    Signaled (s.added req) := by
  refine ⟨h.ack, h.poll, fun heq => ?_⟩
  have hlen : (s.added req).submitted.length = s.submitted.length + 1 := List.length_append
  rw [hlen] at heq
  exact absurd heq (Nat.lt_succ_of_le hinv.enqueued_le).ne

/-- The driver is interrupted when the last request available is served. -/
theorem Signaled.iterate (h : Signaled s) (hinv : Inv s flight free)
    (hex : ∀ status, s.pc ≠ .ack status) : Signaled (s.iterate serve) := by
  rcases hinv.enqueued_le.eq_or_lt with heq | hlt
  · rw [hinv.iterate_of_eq serve heq]
    exact ⟨h.ack, h.poll, h.irq⟩
  · obtain ⟨e, he⟩ := hinv.exists_next hlt
    obtain ⟨irq, hirq, hiterate⟩ := hinv.iterate_of_lt serve hlt he
    rw [hiterate]
    refine ⟨fun status hpc => absurd hpc (hex status), h.poll, fun heq _ => .inl ?_⟩
    have hlen : (s.served serve e.req irq).enqueued.length = s.enqueued.length + 1 :=
      List.length_append
    obtain rfl := hirq (hlen ▸ heq)
    refine ⟨Bool.or_true _, ?_⟩
    change (s.intStatus ||| virtioMmioIntVring) &&& virtioMmioIntVring ≠ 0
    rw [Bits.or_and_self]
    decide

theorem Signaled.interrupt (h : Signaled s) (hpc : s.pc = .idle) : Signaled s.interrupt := by
  refine ⟨fun status hstatus => ⟨(Pc.ack.inj hstatus).symm, rfl⟩,
    fun _ hpoll => Pc.noConfusion hpoll,
    fun heq hlt => .inr ?_⟩
  obtain ⟨-, hstatus⟩ | htaking := h.irq heq hlt
  · exact hstatus
  · exact absurd htaking (hpc ▸ id)

/-- The handler goes on with `pc`, or returns. -/
theorem signaled_ite {p : Prop} [Decidable p] {pc : Pc} {status : BitVec 32}
    (hpc : pc = .check ∨ pc = .disable)
    (hirq : s.enqueued.length = s.submitted.length → s.gotten.length < s.enqueued.length →
      s.irq = true ∧ status &&& virtioMmioIntVring ≠ 0 ∨ p) :
    Signaled { s with intStatus := status, pc := if p then pc else .idle } := by
  by_cases hp : p
  · simp only [if_pos hp]
    obtain rfl | rfl := hpc <;>
      exact ⟨fun _ hack => Pc.noConfusion hack, fun _ hpoll => Pc.noConfusion hpoll,
        fun _ _ => .inr trivial⟩
  · simp only [if_neg hp]
    exact ⟨fun _ hack => Pc.noConfusion hack, fun _ hpoll => Pc.noConfusion hpoll,
      fun heq hlt => .inl ((hirq heq hlt).resolve_right hp)⟩

/-- Clearing the status loses no interrupt: it is the one that was read. -/
theorem Signaled.acked (h : Signaled s) {status : BitVec 32} (hpc : s.pc = .ack status) :
    Signaled s.ack := by
  rw [ack_eq hpc, ← ite_not]
  refine signaled_ite (.inl rfl) fun heq hlt => .inr ?_
  obtain ⟨hirq, -⟩ | htaking := h.irq heq hlt
  · rw [(h.ack status hpc).2] at hirq
    cases hirq
  · rw [hpc] at htaking
    exact htaking

theorem Signaled.check (hinv : Inv s flight free) : Signaled s.check := by
  rw [hinv.check_eq]
  exact signaled_ite (.inr rfl) fun _ hlt => .inr hlt

theorem Signaled.disable : Signaled s.disable := by
  simp only [State.disable]
  exact ⟨fun _ hack => Pc.noConfusion hack, fun _ hpoll => Pc.noConfusion hpoll,
    fun _ _ => .inr trivial⟩

theorem Signaled.get (hinv : Inv s flight free) (hpc : s.pc = .get) : Signaled s.get := by
  rcases hinv.gotten_le.eq_or_lt with heq | hlt
  · rw [hinv.get_of_eq heq]
    exact ⟨fun _ hack => Pc.noConfusion hack, fun _ hpoll => Pc.noConfusion hpoll,
      fun _ hlt => absurd heq hlt.ne⟩
  · obtain ⟨e, flight, rfl⟩ := hinv.exists_cons hlt
    obtain ⟨availRing, -, hget⟩ := hinv.get_of_lt hlt
    rw [hget]
    refine ⟨fun _ hack => ?_, fun _ hpoll => ?_, fun _ _ => .inr ?_⟩
    · cases hpc.symm.trans hack
    · cases hpc.symm.trans hpoll
    · change s.pc.taking
      rw [hpc]
      trivial

theorem Signaled.enable (h : Signaled s) (hpc : s.pc = .enable) : Signaled s.enable := by
  refine ⟨fun _ hack => Pc.noConfusion hack, fun _ hpoll => (Pc.poll.inj hpoll).symm,
    fun heq hlt => .inl ?_⟩
  exact (h.irq heq hlt).resolve_right (hpc ▸ id)

theorem Signaled.polled (h : Signaled s) (hinv : Inv s flight free) {lastUsedIdx : BitVec 16}
    (hpc : s.pc = .poll lastUsedIdx) : Signaled s.poll := by
  rw [hinv.poll_eq (h.poll lastUsedIdx hpc ▸ hpc)]
  exact signaled_ite (.inr rfl) fun _ hlt => .inr hlt

/-! ## Every event -/

/-- Neither side waits for the other one in vain. -/
structure Live (s : State c τ δ) : Prop where
  numAdded_lt : s.vq.numAdded < 2 ^ 16 - 1
  kicked : Kicked s
  signaled : Signaled s

theorem Live.kick (hinv : Inv s flight free) (hlt : s.vq.numAdded < 2 ^ 16) (hk : Kicked s)
    (hs : Signaled s) : Live s.kick :=
  ⟨show 0 < 2 ^ 16 - 1 by decide, hk.kick hinv hlt, ⟨hs.ack, hs.poll, hs.irq⟩⟩

theorem Live.add (h : Live s) (hinv : Inv s flight free) (req : Request c τ) :
    Live (s.add req) := by
  rw [hinv.add_eq req]
  have hlt := h.numAdded_lt
  have hk := h.kicked.added hinv req
  have hs := h.signaled.added hinv req
  split_ifs with hfree hadded
  · exact .kick (hinv.added hfree) (show s.vq.numAdded + 1 < 2 ^ 16 by omega) hk hs
  · exact ⟨show s.vq.numAdded + 1 < 2 ^ 16 - 1 by omega, hk, hs⟩
  · obtain ⟨hle, harmed, hidle⟩ := h.kicked
    exact ⟨hlt, ⟨hle, harmed, fun hn => hidle (Nat.add_eq_zero_iff.1 hn).1⟩,
      ⟨h.signaled.ack, h.signaled.poll, h.signaled.irq⟩⟩

/-- The interrupt handler does not change what notifications depend on. -/
structure Handles (s s' : State c τ δ) : Prop where
  numAdded : s'.vq.numAdded = s.vq.numAdded
  availEvent : s'.ring.availEvent = s.ring.availEvent
  notifies : s'.notifies = s.notifies
  looping : s'.looping = s.looping
  armed : s'.armed = s.armed
  submitted : s'.submitted = s.submitted
  enqueued : s'.enqueued = s.enqueued

theorem Live.of_handles {s' : State c τ δ} (h : Live s) (hh : Handles s s') (hs : Signaled s') :
    Live s' := by
  obtain ⟨hlt, ⟨hle, harmed, hidle⟩, -⟩ := h
  refine ⟨hh.numAdded ▸ hlt, ⟨?_, ?_, ?_⟩, hs⟩
  · rwa [hh.numAdded, hh.submitted]
  · rwa [hh.armed, hh.submitted, hh.enqueued, hh.availEvent]
  · rwa [hh.notifies, hh.looping, hh.armed, hh.submitted, hh.enqueued, hh.availEvent, hh.numAdded]

theorem handles_disable : Handles s s.disable := by
  simp only [State.disable, virtqueueDisableCb]
  split <;> exact ⟨rfl, rfl, rfl, rfl, rfl, rfl, rfl⟩

theorem handles_get (hinv : Inv s flight free) : Handles s s.get := by
  rcases hinv.gotten_le.eq_or_lt with heq | hlt
  · rw [hinv.get_of_eq heq]
    exact ⟨rfl, rfl, rfl, rfl, rfl, rfl, rfl⟩
  · obtain ⟨e, flight, rfl⟩ := hinv.exists_cons hlt
    obtain ⟨availRing, -, hget⟩ := hinv.get_of_lt hlt
    rw [hget]
    exact ⟨rfl, rfl, rfl, rfl, rfl, rfl, rfl⟩

theorem Live.iterate (h : Live s) (hinv : Inv s flight free)
    (hex : ∀ status, s.pc ≠ .ack status) : Live (s.iterate serve) := by
  refine ⟨?_, h.kicked.iterate hinv, h.signaled.iterate hinv hex⟩
  rcases hinv.enqueued_le.eq_or_lt with heq | hlt
  · rw [hinv.iterate_of_eq serve heq]
    exact h.numAdded_lt
  · obtain ⟨e, he⟩ := hinv.exists_next hlt
    obtain ⟨irq, -, hiterate⟩ := hinv.iterate_of_lt serve hlt he
    rw [hiterate]
    exact h.numAdded_lt

/-- What happens next keeps the driver and the device going. -/
theorem Live.next (h : Live s) (hinv : Inv s flight free) {l : Event c τ}
    (hl : (system serve).Enabled s l) (hex : Exclusive s l) :
    Live ((system serve).next s l) := by
  have hs := h.signaled
  cases l with
  | add req => exact h.add hinv req
  | kick => exact .kick hinv (h.numAdded_lt.trans (by decide)) h.kicked hs
  | notify =>
    have hk := h.kicked.notify hinv
    change Live s.notify
    rw [hinv.notify_eq] at hk ⊢
    exact ⟨h.numAdded_lt, hk, ⟨hs.ack, hs.poll, hs.irq⟩⟩
  | iterate => exact h.iterate hinv hex
  | arm =>
    have hk := h.kicked.arm hinv
    change Live s.arm
    rw [hinv.arm_eq] at hk ⊢
    exact ⟨h.numAdded_lt, hk, ⟨hs.ack, hs.poll, hs.irq⟩⟩
  | interrupt => exact h.of_handles ⟨rfl, rfl, rfl, rfl, rfl, rfl, rfl⟩ (hs.interrupt hl.2.2)
  | ack =>
    obtain ⟨status, hpc⟩ := hl.2
    have hacked := hs.acked hpc
    change Live s.ack
    rw [ack_eq hpc] at hacked ⊢
    exact h.of_handles ⟨rfl, rfl, rfl, rfl, rfl, rfl, rfl⟩ hacked
  | check => exact h.of_handles ⟨rfl, rfl, rfl, rfl, rfl, rfl, rfl⟩ (.check hinv)
  | disable => exact h.of_handles handles_disable .disable
  | get => exact h.of_handles (handles_get hinv) (.get hinv hl.2)
  | enable => exact h.of_handles ⟨rfl, rfl, rfl, rfl, rfl, rfl, rfl⟩ (hs.enable hl.2)
  | poll =>
    obtain ⟨lastUsedIdx, hpc⟩ := hl.2
    have hpolled := hs.polled hinv hpc
    change Live s.poll
    rw [hinv.poll_eq (hs.poll lastUsedIdx hpc ▸ hpc)] at hpolled ⊢
    exact h.of_handles ⟨rfl, rfl, rfl, rfl, rfl, rfl, rfl⟩ hpolled

/-! ## Rest -/

/-- How many steps the interrupt handler takes at most until it returns or takes a request,
    if there are `more` to take. -/
def Pc.rank (more : ℕ) : Pc → ℕ
  | .idle => 0
  | .ack _ => 7
  | .check => 6
  | .disable => 5
  | .get => 4
  | .enable => 3 + 5 * min more 1
  | .poll _ => 2 + 5 * min more 1

/-- A bound on how many events may happen, apart from those of the interrupt handler. -/
def State.work (s : State c τ δ) : ℕ :=
  3 * min s.vq.numAdded 1 + 2 * s.notifies + s.looping + 2 * s.armed +
    16 * (s.submitted.length - s.enqueued.length) + (s.enqueued.length - s.gotten.length)

/-- A bound on how many events may happen, unless the driver adds requests. -/
def State.rank (s : State c τ δ) : ℕ :=
  s.work + (8 * s.irq.toNat + s.pc.rank (s.enqueued.length - s.gotten.length))

/-- The driver does not add a request. -/
def Quiet (s : State c τ δ) (l : Event c τ) : Prop := Exclusive s l ∧ ∀ req, l ≠ .add req

theorem Pc.rank_bounds (pc : Pc) (more : ℕ) :
    pc.rank 0 ≤ pc.rank more ∧ pc.rank more ≤ pc.rank 0 + 5 := by
  cases pc <;> simp only [Pc.rank] <;> omega

theorem Pc.rank_ite_le (p : Prop) [Decidable p] (pc : Pc) (more : ℕ) :
    (if p then pc else .idle).rank more ≤ pc.rank more := by
  split
  · exact Nat.le_refl _
  · exact Nat.zero_le _

/-- The rank decreases with the steps of the interrupt handler. -/
theorem rank_lt_of_pc {s' : State c τ δ} (hh : Handles s s') (hgotten : s'.gotten = s.gotten)
    (hirq : s'.irq = s.irq) (hpc : s'.pc.rank (s.enqueued.length - s.gotten.length) <
      s.pc.rank (s.enqueued.length - s.gotten.length)) : s'.rank < s.rank := by
  simp only [State.rank, State.work, hh.numAdded, hh.notifies, hh.looping, hh.armed,
    hh.submitted, hh.enqueued, hgotten, hirq]
  omega

theorem rank_iterate (hinv : Inv s flight free) (hlooping : 0 < s.looping) :
    (s.iterate serve).rank < s.rank := by
  rcases hinv.enqueued_le.eq_or_lt with heq | hlt
  · rw [hinv.iterate_of_eq serve heq]
    simp only [State.rank, State.work]
    omega
  · obtain ⟨e, he⟩ := hinv.exists_next hlt
    obtain ⟨irq, -, hiterate⟩ := hinv.iterate_of_lt serve hlt he
    have hgotten := hinv.gotten_le
    have hirq := Bool.toNat_le (s.irq || irq)
    -- the handler may have to start again for the request that was served
    have hpc := (s.pc.rank_bounds (s.enqueued.length + 1 - s.gotten.length)).2
    have hpc' := (s.pc.rank_bounds (s.enqueued.length - s.gotten.length)).1
    rw [hiterate]
    simp only [State.rank, State.work, State.served, List.length_append, List.length_singleton]
    omega

theorem rank_get (hinv : Inv s flight free) (hpc : s.pc = .get) : s.get.rank < s.rank := by
  rcases hinv.gotten_le.eq_or_lt with heq | hlt
  · rw [hinv.get_of_eq heq]
    refine rank_lt_of_pc ⟨rfl, rfl, rfl, rfl, rfl, rfl, rfl⟩ rfl rfl ?_
    simp [hpc, heq, Pc.rank]
  · obtain ⟨e, flight, rfl⟩ := hinv.exists_cons hlt
    obtain ⟨availRing, -, hget⟩ := hinv.get_of_lt hlt
    rw [hget]
    simp only [State.rank, State.work, State.taken, hpc, Pc.rank, List.length_append,
      List.length_singleton]
    omega

theorem rank_next (h : Live s) (hinv : Inv s flight free) {l : Event c τ}
    (hl : (system serve).Enabled s l) (hadd : ∀ req, l ≠ .add req) :
    ((system serve).next s l).rank < s.rank := by
  cases l with
  | add req => exact absurd rfl (hadd req)
  | kick =>
    have hpos : 0 < s.vq.numAdded := hl.2
    have hkick := Bool.toNat_le (virtqueueKickPrepare s.vq s.ring).1
    have hnumAdded : (virtqueueKickPrepare s.vq s.ring).2.numAdded = 0 := rfl
    simp only [system, State.kick, State.rank, State.work, hnumAdded]
    omega
  | notify =>
    have hpos : 0 < s.notifies := hl.2
    simp only [system, hinv.notify_eq, State.rank, State.work]
    omega
  | iterate => exact rank_iterate hinv hl.2
  | arm =>
    have hpos : 0 < s.armed := hl.2
    simp only [system, hinv.arm_eq, State.rank, State.work]
    omega
  | interrupt =>
    obtain ⟨hirq, hpc⟩ := hl.2
    simp only [system, State.interrupt, State.rank, State.work, hirq, hpc, Pc.rank,
      Bool.toNat_false, Bool.toNat_true]
    omega
  | ack =>
    obtain ⟨status, hpc⟩ := hl.2
    change s.ack.rank < s.rank
    rw [ack_eq hpc, ← ite_not]
    refine rank_lt_of_pc ⟨rfl, rfl, rfl, rfl, rfl, rfl, rfl⟩ rfl rfl ?_
    rw [hpc]
    exact (Pc.rank_ite_le _ _ _).trans_lt (show 6 < 7 by decide)
  | check =>
    have hpc : s.pc = .check := hl.2
    refine rank_lt_of_pc ⟨rfl, rfl, rfl, rfl, rfl, rfl, rfl⟩ rfl rfl ?_
    rw [hpc]
    exact (Pc.rank_ite_le _ _ _).trans_lt (show 5 < 6 by decide)
  | disable =>
    have hpc : s.pc = .disable := hl.2
    refine rank_lt_of_pc handles_disable rfl rfl ?_
    rw [hpc]
    exact show 4 < 5 by decide
  | get => exact rank_get hinv hl.2
  | enable =>
    have hpc : s.pc = .enable := hl.2
    refine rank_lt_of_pc ⟨rfl, rfl, rfl, rfl, rfl, rfl, rfl⟩ rfl rfl ?_
    simp only [system, State.enable, hpc, Pc.rank]
    omega
  | poll =>
    obtain ⟨lastUsedIdx, hpc⟩ := hl.2
    simp only [system, hinv.poll_eq (h.signaled.poll lastUsedIdx hpc ▸ hpc)]
    refine rank_lt_of_pc ⟨rfl, rfl, rfl, rfl, rfl, rfl, rfl⟩ rfl rfl ?_
    rw [hpc]
    split
    all_goals
      simp only [Pc.rank]
      omega

/-- When nothing may happen any more, everything was served and taken. -/
theorem Live.gotten_length (h : Live s) (hinv : Inv s flight free)
    (hhalted : ((system serve).restrict Quiet).Halted s) :
    s.gotten.length = s.submitted.length := by
  have hquiet : ∀ l, Quiet s l → ¬(system serve).Enabled s l := fun l hq hl => hhalted l ⟨hl, hq⟩
  have hnumAdded : s.vq.numAdded = 0 := Nat.eq_zero_of_not_pos fun hpos =>
    hquiet .kick ⟨trivial, nofun⟩ ⟨hinv.crashed, hpos⟩
  have hnotifies : s.notifies = 0 := Nat.eq_zero_of_not_pos fun hpos =>
    hquiet .notify ⟨trivial, nofun⟩ ⟨hinv.crashed, hpos⟩
  have harmed : s.armed = 0 := Nat.eq_zero_of_not_pos fun hpos =>
    hquiet .arm ⟨trivial, nofun⟩ ⟨hinv.crashed, hpos⟩
  -- the interrupt handler has returned
  have hpc : s.pc = .idle := by
    cases hpc : s.pc with
    | idle => rfl
    | ack status => exact absurd ⟨hinv.crashed, status, hpc⟩ (hquiet .ack ⟨trivial, nofun⟩)
    | check => exact absurd ⟨hinv.crashed, hpc⟩ (hquiet .check ⟨trivial, nofun⟩)
    | disable => exact absurd ⟨hinv.crashed, hpc⟩ (hquiet .disable ⟨trivial, nofun⟩)
    | get => exact absurd ⟨hinv.crashed, hpc⟩ (hquiet .get ⟨trivial, nofun⟩)
    | enable => exact absurd ⟨hinv.crashed, hpc⟩ (hquiet .enable ⟨trivial, nofun⟩)
    | poll i => exact absurd ⟨hinv.crashed, i, hpc⟩ (hquiet .poll ⟨trivial, nofun⟩)
  have hlooping : s.looping = 0 := Nat.eq_zero_of_not_pos fun hpos =>
    hquiet .iterate ⟨fun status hack => Pc.noConfusion (hpc.symm.trans hack), nofun⟩
      ⟨hinv.crashed, hpos⟩
  have hirq : s.irq ≠ true := fun hirq =>
    hquiet .interrupt ⟨trivial, nofun⟩ ⟨hinv.crashed, hirq, hpc⟩
  obtain ⟨-, hle⟩ := h.kicked.idle hnotifies hlooping harmed
  have henqueued : s.enqueued.length = s.submitted.length := by
    have := hinv.enqueued_le
    omega
  refine Nat.le_antisymm (hinv.gotten_le.trans hinv.enqueued_le) (Nat.not_lt.1 fun hlt => ?_)
  obtain ⟨hirq', -⟩ | htaking := h.signaled.irq henqueued (henqueued ▸ hlt)
  · exact hirq hirq'
  · rw [hpc] at htaking
    exact htaking

section Reachable

variable {numMax : BitVec 32} {desc avail used : BitVec 64} {dev : δ}

theorem exists_inv_live (hs : ((system serve).restrict Exclusive).Reachable
    (init c τ (.setUp c numMax desc avail used) dev) s) :
    (∃ flight free, Inv s flight free) ∧ Live s := by
  refine hs.invariant (P := fun s => (∃ flight free, Inv s flight free) ∧ Live s)
    ⟨⟨[], _, inv_init c τ numMax desc avail used dev⟩, ?_⟩ ?_
  · exact ⟨show 0 < 2 ^ 16 - 1 by decide, ⟨Nat.le_refl _, fun _ _ => rfl,
      fun _ _ _ => ⟨rfl, Nat.le_refl _⟩⟩, ⟨fun _ hack => Pc.noConfusion hack,
      fun _ hpoll => Pc.noConfusion hpoll, fun _ hlt => absurd hlt (Nat.lt_irrefl 0)⟩⟩
  · intro s l ⟨⟨flight, free, hinv⟩, hlive⟩ hl
    exact ⟨hinv.exists_of_step (hinv.step l), hlive.next hinv hl.1 hl.2⟩

/-- Unless the driver adds requests, the two sides come to rest after a number of events,
    whatever the order they happen in. By then, all the requests were served and taken. -/
theorem gotten_of_halted (hs : ((system serve).restrict Exclusive).Reachable
      (init c τ (.setUp c numMax desc avail used) dev) s) {ls : List (Event c τ)}
    (hls : ((system serve).restrict Quiet).IsRun s ls) :
    ls.length ≤ s.rank ∧
      (((system serve).restrict Quiet).Halted ((system serve).run s ls) →
        ((system serve).run s ls).gotten = s.submitted.map Request.data) := by
  let P (s' : State c τ δ) :=
    (∃ flight free, Inv s' flight free) ∧ Live s' ∧ s'.submitted = s.submitted
  have hP : P s := ⟨(exists_inv_live hs).1, (exists_inv_live hs).2, rfl⟩
  have hstep : ∀ s l, P s → ((system serve).restrict Quiet).Enabled s l →
      P ((system serve).next s l) ∧ ((system serve).next s l).rank < s.rank := by
    intro s l ⟨⟨flight, free, hinv⟩, hlive, hsubmitted⟩ ⟨hl, hex, hadd⟩
    exact ⟨⟨hinv.exists_of_step (hinv.step l), hlive.next hinv hl hex,
      ((hinv.step l).submitted_eq hadd).trans hsubmitted⟩, rank_next hlive hinv hl hadd⟩
  refine ⟨hls.length_le State.rank hstep hP, fun hhalted => ?_⟩
  obtain ⟨⟨flight, free, hinv⟩, hlive, hsubmitted⟩ : P ((system serve).run s ls) :=
    (System.reachable_run hls).invariant hP fun s l hs hl => (hstep s l hs hl).1
  have hlen := hlive.gotten_length hinv hhalted
  have hspec := reachable_spec
    (hs.of_restrict.trans (System.reachable_run (System.isRun_restrict.1 hls).1))
  have hgotten := (Service.inOrder_of_reachable hspec).taken
  change State.gotten _ = ((State.submitted _).map _).take (State.gotten _).length at hgotten
  rw [hgotten, hlen, List.take_of_length_le (List.length_map _).le, hsubmitted]

end Reachable

/-- Nothing happens unless one of the two sides has something to do. -/
theorem halted_of_atRest (hnumAdded : s.vq.numAdded = 0) (hnotifies : s.notifies = 0)
    (hlooping : s.looping = 0) (harmed : s.armed = 0) (hirq : s.irq = false)
    (hpc : s.pc = .idle) {l : Event c τ} (hadd : ∀ req, l ≠ .add req) :
    ¬(system serve).Enabled s l := by
  rintro ⟨-, hl⟩
  cases l with
  | add req => exact hadd req rfl
  | kick => exact hl.ne' hnumAdded
  | notify => exact hl.ne' hnotifies
  | iterate => exact hl.ne' hlooping
  | arm => exact hl.ne' harmed
  | interrupt => exact absurd hl.1 (hirq ▸ Bool.false_ne_true)
  | ack =>
    obtain ⟨status, hl⟩ := hl
    cases hpc.symm.trans hl
  | check | disable | get | enable => cases hpc.symm.trans hl
  | poll =>
    obtain ⟨lastUsedIdx, hl⟩ := hl
    cases hpc.symm.trans hl

/-- The events by which the two sides come to rest, after a request is added. -/
def restingEvents : List (Event sampleSize ℕ) :=
  [.kick, .notify, .iterate, .interrupt, .ack, .check, .disable, .get, .get, .enable, .poll, .arm,
    .iterate]

theorem isRun_resting : ((system fun n _ => (n + 1, 1)).restrict Quiet).IsRun
    (sampleInit.add sampleRequest) restingEvents :=
  ⟨⟨⟨rfl, by decide⟩, trivial, nofun⟩, ⟨⟨rfl, by decide⟩, trivial, nofun⟩,
    ⟨⟨rfl, by decide⟩, nofun, nofun⟩, ⟨⟨rfl, rfl, rfl⟩, trivial, nofun⟩,
    ⟨⟨rfl, _, rfl⟩, trivial, nofun⟩, ⟨⟨rfl, rfl⟩, trivial, nofun⟩, ⟨⟨rfl, rfl⟩, trivial, nofun⟩,
    ⟨⟨rfl, rfl⟩, trivial, nofun⟩, ⟨⟨rfl, rfl⟩, trivial, nofun⟩, ⟨⟨rfl, rfl⟩, trivial, nofun⟩,
    ⟨⟨rfl, _, rfl⟩, trivial, nofun⟩, ⟨⟨rfl, by decide⟩, trivial, nofun⟩,
    ⟨⟨rfl, by decide⟩, nofun, nofun⟩, trivial⟩

theorem reachable_add : ((system fun n _ => (n + 1, 1)).restrict Exclusive).Reachable sampleInit
    (sampleInit.add sampleRequest) :=
  have hrun : ((system fun n _ => (n + 1, 1)).restrict Exclusive).IsRun sampleInit
      [.add sampleRequest] := ⟨⟨⟨rfl, trivial⟩, trivial⟩, trivial⟩
  System.reachable_run hrun

theorem gotten_of_halted_sample :
    (sampleInit.add sampleRequest).rank = 19 ∧
      ((system fun n _ => (n + 1, 1)).run (sampleInit.add sampleRequest) restingEvents).gotten =
        [7] :=
  ⟨rfl, (gotten_of_halted reachable_add isRun_resting).2 fun _ hl =>
    halted_of_atRest rfl rfl rfl rfl rfl rfl hl.2.2 hl.1⟩

/-- The events by which an interrupt is lost: a second request is served before the status is
    acknowledged for the first one, which leaves an interrupt without a status; and a third
    one before that status is. -/
def stallingEvents : List (Event sampleSize ℕ) :=
  [.add sampleRequest, .kick, .notify, .iterate, .interrupt, .add sampleRequest, .arm, .iterate,
    .ack, .check, .disable, .get, .get, .get, .enable, .poll, .arm, .iterate, .interrupt,
    .add sampleRequest, .kick, .notify, .iterate, .ack, .interrupt, .ack, .arm, .iterate]

theorem isRun_stalling : (system fun n _ => (n + 1, 1)).IsRun sampleInit stallingEvents :=
  ⟨⟨rfl, trivial⟩, ⟨rfl, by decide⟩, ⟨rfl, by decide⟩, ⟨rfl, by decide⟩, ⟨rfl, rfl, rfl⟩,
    ⟨rfl, trivial⟩, ⟨rfl, by decide⟩, ⟨rfl, by decide⟩, ⟨rfl, _, rfl⟩, ⟨rfl, rfl⟩, ⟨rfl, rfl⟩,
    ⟨rfl, rfl⟩, ⟨rfl, rfl⟩, ⟨rfl, rfl⟩, ⟨rfl, rfl⟩, ⟨rfl, _, rfl⟩, ⟨rfl, by decide⟩,
    ⟨rfl, by decide⟩, ⟨rfl, rfl, rfl⟩, ⟨rfl, trivial⟩, ⟨rfl, by decide⟩, ⟨rfl, by decide⟩,
    ⟨rfl, by decide⟩, ⟨rfl, _, rfl⟩, ⟨rfl, rfl, rfl⟩, ⟨rfl, _, rfl⟩, ⟨rfl, by decide⟩,
    ⟨rfl, by decide⟩, trivial⟩

/-- If the device may serve a request at any time, the queue may come to rest with a request
    that was served but not taken. -/
theorem exists_stalled : ∃ s : State sampleSize ℕ ℕ,
    (system fun n _ => (n + 1, 1)).Reachable sampleInit s ∧
      (∀ l, (∀ req, l ≠ .add req) → ¬(system fun n _ => (n + 1, 1)).Enabled s l) ∧
      s.gotten.length < s.enqueued.length :=
  ⟨_, System.reachable_run isRun_stalling,
    fun _ => halted_of_atRest rfl rfl rfl rfl rfl rfl, show 2 < 3 by decide⟩

end Virtio

end NodeLkl
