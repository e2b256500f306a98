import NodeLkl.Base.Bits
import NodeLkl.Base.System

/-!
# Pending interrupts

The interrupts that cannot be handled at once are marked in the words of
`irq_status`, and the words that have marks, in `irq_index_status`. Threads set the
two one after the other (`set_irq_pending`), at any time. The owner of the CPU takes
the marks (`run_irqs`), word by word, and handles the interrupts (`run_irq`); their
handlers may mark interrupts themselves, and run those pending, in turn.

* `pending_of_owed`: no interrupt is lost between the two bitmaps.
* `pending_handled`: `run_irqs` handles the interrupts that are pending when it is
  called. It makes one pass: those that become pending meanwhile may be left.
* `handled_le_raised`: no interrupt is handled without having been raised.
-/

namespace NodeLkl

namespace Irq

open Bits

/-- The bits of a `long`, on 64 bit machines. -/
def irqStatusBits : ℕ := 64

def nrIrqs : ℕ := irqStatusBits * irqStatusBits

/-- The functions `for_each_bit` is called with, with the second argument they are given. -/
inductive Callee
  | checkIrqStatus
  | deliverIrq (index : ℕ)

/-- The calls the owner of the CPU is in: of `for_each_bit`, with what is left of the word and
    the number of bits it has seen, and of `run_irq`. -/
inductive Frame
  | forEachBit (word : BitVec irqStatusBits) (f : Callee) (i : ℕ)
  | runIrq (irq : ℕ)

/-- The state of the interrupts, with those half set pending: marked in `irq_status` only.
    How many times an interrupt has been raised, and handled, and whether it has been raised
    since it was last handled, is recorded. -/
structure State where
  irqStatus : ℕ → BitVec irqStatusBits
  irqIndexStatus : BitVec irqStatusBits
  half : List ℕ
  stack : List Frame
  raised : ℕ → ℕ
  handled : ℕ → ℕ
  owed : ℕ → Bool

/-! ## Setting interrupts pending -/

/-- The first half of `set_irq_pending`. -/
def State.mark (s : State) (irq : ℕ) : State :=
  let index := irq / irqStatusBits
  let bit := irq % irqStatusBits
  { s with
    irqStatus := Function.update s.irqStatus index (s.irqStatus index ||| .twoPow _ bit)
    half := irq :: s.half
    raised := Function.update s.raised irq (s.raised irq + 1)
    owed := Function.update s.owed irq true }

/-- The second half of `set_irq_pending`. -/
def State.index (s : State) (irq : ℕ) : State :=
  { s with
    irqIndexStatus := s.irqIndexStatus ||| .twoPow _ (irq / irqStatusBits)
    half := s.half.erase irq }

/-! ## Running them -/

def State.testAndClearIrqIndexStatus (s : State) : BitVec irqStatusBits × State :=
  (s.irqIndexStatus, { s with irqIndexStatus := 0#_ })

def State.testAndClearIrqStatus (s : State) (index : ℕ) : BitVec irqStatusBits × State :=
  (s.irqStatus index, { s with irqStatus := Function.update s.irqStatus index 0#_ })

/-- `run_irq` is called. -/
def State.runIrq (s : State) (irq : ℕ) : State :=
  { s with
    stack := .runIrq irq :: s.stack
    handled := Function.update s.handled irq (s.handled irq + 1)
    owed := Function.update s.owed irq false }

/-- `for_each_bit` calls its function. -/
def State.call (s : State) (i : ℕ) : Callee → State
  | .checkIrqStatus =>
    let (word, s) := s.testAndClearIrqStatus i
    { s with stack := .forEachBit word (.deliverIrq i) 0 :: s.stack }
  | .deliverIrq index => s.runIrq (index * irqStatusBits + i)

/-- An iteration of the innermost `for_each_bit`, called from `stack`. -/
def State.loop (s : State) (word : BitVec irqStatusBits) (f : Callee) (i : ℕ)
    (stack : List Frame) : State :=
  if word = 0#_ then { s with stack := stack }
  else
    let s := { s with stack := .forEachBit (word >>> 1) f (i + 1) :: stack }
    if word.getLsbD 0 then s.call i f else s

/-- `run_irqs` is called. -/
def State.runIrqs (s : State) : State :=
  let (word, s) := s.testAndClearIrqIndexStatus
  { s with stack := .forEachBit word .checkIrqStatus 0 :: s.stack }

/-- What may happen: an interrupt is set pending, in two halves; the owner of the CPU calls
    `run_irqs`, goes on in `for_each_bit`, triggers an interrupt that is handled at once,
    returns from `run_irq`. -/
inductive Event
  | mark (irq : ℕ)
  | index (irq : ℕ)
  | runIrqs
  | loop (word : BitVec irqStatusBits) (f : Callee) (i : ℕ) (stack : List Frame)
  | trigger (irq : ℕ)
  | handled (irq : ℕ) (stack : List Frame)

/-- The owner is in code of the kernel, or of the handler of an interrupt. -/
def State.InCode (s : State) : Prop := ∀ word f i stack, s.stack ≠ .forEachBit word f i :: stack

def State.CanDo (s : State) : Event → Prop
  | .mark irq => irq < nrIrqs
  | .index irq => irq ∈ s.half
  | .runIrqs => s.InCode
  | .loop word f i stack => s.stack = .forEachBit word f i :: stack
  | .trigger irq => s.InCode ∧ irq < nrIrqs
  | .handled irq stack => s.stack = .runIrq irq :: stack

def State.next (s : State) : Event → State
  | .mark irq => s.mark irq
  | .index irq => s.index irq
  | .runIrqs => s.runIrqs
  | .loop word f i stack => s.loop word f i stack
  | .trigger irq => { s with raised := Function.update s.raised irq (s.raised irq + 1) }.runIrq irq
  | .handled _ stack => { s with stack := stack }

def system : System State Event where
  Enabled := State.CanDo
  next := State.next

def init : State where
  irqStatus _ := 0#_
  irqIndexStatus := 0#_
  half := []
  stack := []
  raised _ := 0
  handled _ := 0
  owed _ := false

/-! ## Where an interrupt is -/

/-- The interrupt is marked in `irq_status`. -/
def State.marked (s : State) (irq : ℕ) : Bool :=
  (s.irqStatus (irq / irqStatusBits)).getLsbD (irq % irqStatusBits)

/-- The call will look for marks in a word. -/
def Frame.checks (index : ℕ) : Frame → Bool
  | .forEachBit word .checkIrqStatus i => ahead word i index
  | _ => false

/-- The call will handle an interrupt. -/
def Frame.delivers (irq : ℕ) : Frame → Bool
  | .forEachBit word (.deliverIrq index) i =>
    decide (index * irqStatusBits ≤ irq) && ahead word i (irq - index * irqStatusBits)
  | _ => false

/-- The interrupts that are owed are marked, or taken by a call; and a word with marks is in the
    index, or will be, or has a call that is to look at it. -/
structure Inv (s : State) : Prop where
  half : ∀ irq ∈ s.half, irq < nrIrqs
  owed : ∀ irq, s.owed irq = true →
    s.marked irq = true ∨ s.stack.any (Frame.delivers irq) = true
  marked : ∀ irq, s.marked irq = true →
    s.irqIndexStatus.getLsbD (irq / irqStatusBits) = true ∨
      (∃ other ∈ s.half, other / irqStatusBits = irq / irqStatusBits) ∨
      s.stack.any (Frame.checks (irq / irqStatusBits)) = true
  handled : ∀ irq, s.handled irq + (s.marked irq).toNat + s.stack.countP (Frame.delivers irq) ≤
    s.raised irq

theorem inv_init : Inv init := by
  refine ⟨fun irq h => by simp [init] at h, fun irq h => Bool.noConfusion h, fun irq h => ?_,
    fun irq => ?_⟩
  · simp [State.marked, init] at h
  · simp [State.marked, init]

variable {s s' : State}

/-- What an iteration of `for_each_bit`, the call `top`, does; it leaves the calls `fs`. -/
structure Turned (s s' : State) (top : Frame) (fs : List Frame) : Prop where
  index : s'.irqIndexStatus = s.irqIndexStatus
  half : s'.half = s.half
  raised : s'.raised = s.raised
  /-- Marks are not lost, but taken. -/
  taken : ∀ irq, s.marked irq = true →
    s'.marked irq = true ∨ fs.any (Frame.delivers irq) = true
  marked : ∀ irq, s'.marked irq = true → s.marked irq = true ∧
    (top.checks (irq / irqStatusBits) = true →
      fs.any (Frame.checks (irq / irqStatusBits)) = true)
  /-- What was going to be handled still is, or is being handled now. -/
  delivered : ∀ irq, top.delivers irq = true →
    fs.any (Frame.delivers irq) = true ∨ s.handled irq < s'.handled irq ∧ s'.owed irq = false
  handled : ∀ irq, s.handled irq ≤ s'.handled irq
  owed : ∀ irq, s'.owed irq = true → s.owed irq = true
  balance : ∀ irq, s'.handled irq + (s'.marked irq).toNat + fs.countP (Frame.delivers irq) ≤
    s.handled irq + (s.marked irq).toNat + (top.delivers irq).toNat

variable {word : BitVec irqStatusBits} {f : Callee} {i : ℕ} {stack : List Frame}

theorem checks_shift (hbit : word.getLsbD 0 = false) (n : ℕ) :
    (Frame.forEachBit (word >>> 1) f (i + 1)).checks n = (Frame.forEachBit word f i).checks n := by
  cases f with
  | checkIrqStatus => simp [Frame.checks, ahead_step word i n, hbit]
  | deliverIrq index => rfl

theorem delivers_shift (hbit : word.getLsbD 0 = false) (irq : ℕ) :
    (Frame.forEachBit (word >>> 1) f (i + 1)).delivers irq =
      (Frame.forEachBit word f i).delivers irq := by
  cases f with
  | checkIrqStatus => rfl
  | deliverIrq index =>
    simp [Frame.delivers, ahead_step word i (irq - index * irqStatusBits), hbit]

/-- An iteration that calls nothing. -/
theorem turned_of_same {top : Frame} {fs : List Frame} (hs : s' = { s with stack := s'.stack })
    (hchecks : ∀ n, fs.any (Frame.checks n) = top.checks n)
    (hdelivers : ∀ irq, fs.any (Frame.delivers irq) = top.delivers irq)
    (hcount : ∀ irq, fs.countP (Frame.delivers irq) = (top.delivers irq).toNat) :
    Turned s s' top fs := by
  have hmarked : ∀ irq, s'.marked irq = s.marked irq := fun irq => by rw [hs]; rfl
  refine ⟨by rw [hs], by rw [hs], by rw [hs], fun irq h => .inl ?_, fun irq h => ?_,
    fun irq h => .inl ?_, fun irq => by rw [hs], fun irq h => ?_, fun irq => ?_⟩
  · rw [hmarked, h]
  · rw [hmarked] at h
    exact ⟨h, fun hc => by rw [hchecks, hc]⟩
  · rw [hdelivers, h]
  · rw [hs] at h
    exact h
  · rw [hmarked, hcount, hs]

/-- The marks of a word are the interrupts handled by the call that takes them. -/
theorem delivers_word (s : State) (i irq : ℕ) :
    (Frame.forEachBit (s.irqStatus i) (.deliverIrq i) 0).delivers irq =
      (decide (irq / irqStatusBits = i) && s.marked irq) := by
  simp only [Frame.delivers, ahead_start, State.marked]
  by_cases hi : irq / irqStatusBits = i
  · subst hi
    have hle : irq / irqStatusBits * irqStatusBits ≤ irq := Nat.div_mul_le_self _ _
    have hsub : irq - irq / irqStatusBits * irqStatusBits = irq % irqStatusBits := by
      rw [Nat.mod_eq_sub_div_mul]
    simp [hle, hsub]
  · -- The bit would be past the end of the word.
    have hlt : irqStatusBits * i ≤ irq → irqStatusBits ≤ irq - irqStatusBits * i := by
      simp only [irqStatusBits] at hi ⊢
      omega
    rw [decide_eq_false hi, Bool.false_and, Bool.and_eq_false_imp, decide_eq_true_eq, Nat.mul_comm]
    exact fun hle => BitVec.getLsbD_of_ge _ _ (hlt hle)

/-- The call of `check_irq_status` takes the marks of a word. -/
theorem turned_check :
    Turned s ({ s with stack := .forEachBit (word >>> 1) .checkIrqStatus (i + 1) :: stack }.call i
        .checkIrqStatus) (.forEachBit word .checkIrqStatus i)
      [.forEachBit (s.irqStatus i) (.deliverIrq i) 0,
        .forEachBit (word >>> 1) .checkIrqStatus (i + 1)] := by
  set s' := { s with stack := .forEachBit (word >>> 1) .checkIrqStatus (i + 1) :: stack }.call i
    .checkIrqStatus
  have hmarked : ∀ irq, s'.marked irq = (!decide (irq / irqStatusBits = i) && s.marked irq) := by
    intro irq
    change (Function.update s.irqStatus i 0#_ (irq / irqStatusBits)).getLsbD _ = _
    rw [Function.update_apply]
    split_ifs with hi
    · simp [hi]
    · simp [hi, State.marked]
  have hdelivers : ∀ irq, Frame.delivers irq (.forEachBit (s.irqStatus i) (.deliverIrq i) 0) =
      (decide (irq / irqStatusBits = i) && s.marked irq) := delivers_word s i
  refine ⟨rfl, rfl, rfl, fun irq h => ?_, fun irq h => ?_, fun irq h => Bool.noConfusion h,
    fun irq => le_rfl, fun irq h => h, fun irq => ?_⟩
  · by_cases hi : irq / irqStatusBits = i
    · exact .inr (by simp [hdelivers, hi, h])
    · exact .inl (by simp [hmarked, hi, h])
  · obtain ⟨hi, h⟩ : irq / irqStatusBits ≠ i ∧ s.marked irq = true := by simpa [hmarked] using h
    refine ⟨h, fun hchecks => ?_⟩
    simp only [Frame.checks, ahead_step word i, decide_eq_false hi, Bool.false_and,
      Bool.false_or] at hchecks
    simp [Frame.checks, hchecks]
  · have hrest : Frame.delivers irq (.forEachBit (word >>> 1) .checkIrqStatus (i + 1)) = false :=
      rfl
    rw [hmarked, List.countP_cons, List.countP_cons, hdelivers, hrest]
    change s.handled irq + _ + _ ≤ _
    by_cases hi : irq / irqStatusBits = i <;> cases h : s.marked irq <;> simp [hi]

/-- The call of `deliver_irq` handles an interrupt. -/
theorem turned_deliver {index : ℕ} (hbit : word.getLsbD 0 = true) :
    Turned s ({ s with
        stack := .forEachBit (word >>> 1) (.deliverIrq index) (i + 1) :: stack }.call i
        (.deliverIrq index)) (.forEachBit word (.deliverIrq index) i)
      [.runIrq (index * irqStatusBits + i),
        .forEachBit (word >>> 1) (.deliverIrq index) (i + 1)] := by
  have htop : ∀ irq, (Frame.forEachBit word (.deliverIrq index) i).delivers irq =
      (decide (irq = index * irqStatusBits + i) ||
        (Frame.forEachBit (word >>> 1) (.deliverIrq index) (i + 1)).delivers irq) := by
    intro irq
    simp only [Frame.delivers, ahead_step word i, hbit, Bool.and_true, Bool.and_or_distrib_left]
    congr 1
    rw [← Bool.decide_and]
    exact decide_eq_decide.2 (by omega)
  have hself : (Frame.forEachBit (word >>> 1) (.deliverIrq index) (i + 1)).delivers
      (index * irqStatusBits + i) = false := by
    simp [Frame.delivers, ahead]
  set s' := { s with stack := .forEachBit (word >>> 1) (.deliverIrq index) (i + 1) :: stack }.call i
    (.deliverIrq index)
  have hhandled : ∀ irq, s'.handled irq =
      s.handled irq + (decide (irq = index * irqStatusBits + i)).toNat := by
    intro irq
    change Function.update s.handled (index * irqStatusBits + i)
      (s.handled (index * irqStatusBits + i) + 1) irq = _
    rw [Function.update_apply]
    split_ifs with hirq <;> simp [hirq]
  have howed : ∀ irq, s'.owed irq =
      (!decide (irq = index * irqStatusBits + i) && s.owed irq) := by
    intro irq
    change Function.update s.owed (index * irqStatusBits + i) false irq = _
    rw [Function.update_apply]
    split_ifs with hirq <;> simp [hirq]
  refine ⟨rfl, rfl, rfl, fun irq h => .inl h, fun irq h => ⟨h, fun hc => Bool.noConfusion hc⟩,
    fun irq h => ?_, fun irq => ?_, fun irq h => ?_, fun irq => ?_⟩
  · rw [htop] at h
    by_cases hirq : irq = index * irqStatusBits + i
    · exact .inr (by simp [hhandled, howed, hirq])
    · simp only [decide_eq_false hirq, Bool.false_or] at h
      exact .inl (by simp [h])
  · rw [hhandled]
    exact Nat.le_add_right _ _
  · rw [howed] at h
    exact (Bool.and_eq_true_iff.1 h).2
  · have hrun : Frame.delivers irq (.runIrq (index * irqStatusBits + i)) = false := rfl
    rw [htop, hhandled, List.countP_cons, List.countP_cons, hrun]
    change _ + (s.marked irq).toNat + _ ≤ _
    by_cases hirq : irq = index * irqStatusBits + i
    · subst hirq
      simp [hself]
      omega
    · cases h : Frame.delivers irq (.forEachBit (word >>> 1) (.deliverIrq index) (i + 1)) <;>
        simp [hirq]

theorem exists_turned (s : State) (word : BitVec irqStatusBits) (f : Callee) (i : ℕ)
    (stack : List Frame) : ∃ fs, (s.loop word f i stack).stack = fs ++ stack ∧
      Turned s (s.loop word f i stack) (.forEachBit word f i) fs := by
  by_cases hzero : word = 0#_
  · subst hzero
    refine ⟨[], by simp [State.loop], turned_of_same (by simp [State.loop]) (fun n => ?_)
      (fun irq => ?_) fun irq => ?_⟩ <;>
    cases f <;> simp [Frame.checks, Frame.delivers, ahead_zero]
  · cases hbit : word.getLsbD 0 with
    | false =>
      refine ⟨[.forEachBit (word >>> 1) f (i + 1)], by simp [State.loop, hzero, hbit],
        turned_of_same (by simp [State.loop, hzero, hbit]) (fun n => ?_) (fun irq => ?_)
        fun irq => ?_⟩
      · simp [checks_shift hbit]
      · simp [delivers_shift hbit]
      · simp [List.countP_cons, delivers_shift hbit, Bool.toNat]
    | true =>
      have hloop : s.loop word f i stack =
          { s with stack := .forEachBit (word >>> 1) f (i + 1) :: stack }.call i f := by
        simp [State.loop, hzero, hbit]
      rw [hloop]
      cases f with
      | checkIrqStatus => exact ⟨_, rfl, turned_check⟩
      | deliverIrq index => exact ⟨_, rfl, turned_deliver hbit⟩

/-! ## The events -/

theorem marked_mark (s : State) {irq : ℕ} (other : ℕ) :
    (s.mark irq).marked other = (s.marked other || decide (other = irq)) := by
  have hlt : irq % irqStatusBits < irqStatusBits := Nat.mod_lt _ (by decide)
  have hiff : other = irq ↔ other / irqStatusBits = irq / irqStatusBits ∧
      other % irqStatusBits = irq % irqStatusBits := by
    simp only [irqStatusBits]
    omega
  change (Function.update s.irqStatus (irq / irqStatusBits) _ (other / irqStatusBits)).getLsbD _ = _
  rw [Function.update_apply]
  split_ifs with hindex
  · rw [getLsbD_or_twoPow _ _ _ hlt, ← hindex]
    simp [State.marked, hiff, hindex]
  · simp [State.marked, hiff, hindex]

theorem Inv.mark (h : Inv s) {irq : ℕ} (hlt : irq < nrIrqs) : Inv (s.mark irq) := by
  refine ⟨List.forall_mem_cons.2 ⟨hlt, h.half⟩, fun other ho => ?_, fun other ho => ?_,
    fun other => ?_⟩
  · rw [marked_mark]
    change Function.update s.owed irq true other = true at ho
    rw [Function.update_apply] at ho
    split_ifs at ho with heq
    · exact .inl (by simp [heq])
    · exact (h.owed other ho).imp_left fun hm => by simp [hm]
  · rw [marked_mark, Bool.or_eq_true, decide_eq_true_eq] at ho
    rcases ho with ho | rfl
    · exact (h.marked other ho).imp_right (.imp_left fun ⟨y, hy, heq⟩ =>
        ⟨y, List.mem_cons_of_mem _ hy, heq⟩)
    · exact .inr (.inl ⟨other, List.mem_cons_self, rfl⟩)
  · have hold := h.handled other
    rw [marked_mark]
    change s.handled other + _ + s.stack.countP _ ≤ Function.update s.raised irq _ other
    rw [Function.update_apply]
    split_ifs with heq
    · subst heq
      cases hm : s.marked other <;> simp_all <;> omega
    · simpa [heq] using hold

theorem Inv.index (h : Inv s) {irq : ℕ} (hirq : irq ∈ s.half) : Inv (s.index irq) := by
  have hindex : irq / irqStatusBits < irqStatusBits := by
    have hlt := h.half irq hirq
    simp only [nrIrqs, irqStatusBits] at hlt ⊢
    omega
  refine ⟨fun other ho => h.half other (List.mem_of_mem_erase ho), h.owed, fun other ho => ?_,
    h.handled⟩
  have hbits : (s.index irq).irqIndexStatus.getLsbD (other / irqStatusBits) =
      (s.irqIndexStatus.getLsbD (other / irqStatusBits) ||
        decide (other / irqStatusBits = irq / irqStatusBits)) :=
    getLsbD_or_twoPow _ _ _ hindex
  rw [hbits, Bool.or_eq_true, decide_eq_true_eq]
  rcases h.marked other ho with hi | ⟨y, hy, heq⟩ | hc
  · exact .inl (.inl hi)
  · by_cases hyirq : y = irq
    · exact .inl (.inr (hyirq ▸ heq.symm))
    · exact .inr (.inl ⟨y, (List.mem_erase_of_ne hyirq).2 hy, heq⟩)
  · exact .inr (.inr hc)

theorem Inv.runIrqs (h : Inv s) : Inv s.runIrqs := by
  refine ⟨h.half, fun irq ho => ?_, fun irq ho => ?_, fun irq => ?_⟩
  · refine (h.owed irq ho).imp_right fun hd => ?_
    simp [State.runIrqs, State.testAndClearIrqIndexStatus, hd]
  · refine .inr ((h.marked irq ho).elim (fun hi => .inr ?_) (.imp_right fun hc => ?_))
    · simp [State.runIrqs, State.testAndClearIrqIndexStatus, Frame.checks, ahead_start, hi]
    · simp [State.runIrqs, State.testAndClearIrqIndexStatus, hc]
  · exact h.handled irq

theorem Inv.turned {top : Frame} {fs : List Frame} (h : Inv s) (hstack : s.stack = top :: stack)
    (hstack' : s'.stack = fs ++ stack) (ht : Turned s s' top fs) : Inv s' := by
  refine ⟨ht.half ▸ h.half, fun irq ho => ?_, fun irq hm => ?_, fun irq => ?_⟩
  · rw [hstack', List.any_append, Bool.or_eq_true]
    rcases h.owed irq (ht.owed irq ho) with hm | hd
    · exact (ht.taken irq hm).imp_right .inl
    · rw [hstack, List.any_cons, Bool.or_eq_true] at hd
      rcases hd with hd | hd
      · rcases ht.delivered irq hd with hd | ⟨-, hnot⟩
        · exact .inr (.inl hd)
        · exact Bool.noConfusion (hnot.symm.trans ho)
      · exact .inr (.inr hd)
  · obtain ⟨hold, hc⟩ := ht.marked irq hm
    rw [ht.index, ht.half, hstack', List.any_append, Bool.or_eq_true]
    refine (h.marked irq hold).imp_right (.imp_right fun hchecks => ?_)
    rw [hstack, List.any_cons, Bool.or_eq_true] at hchecks
    exact hchecks.imp_left hc
  · have hold := h.handled irq
    have hbalance := ht.balance irq
    rw [hstack, List.countP_cons] at hold
    rw [hstack', List.countP_append, ht.raised]
    have htop : (if Frame.delivers irq top = true then 1 else 0) = (top.delivers irq).toNat := by
      cases top.delivers irq <;> rfl
    omega

theorem Inv.runIrq (h : Inv s) (irq : ℕ) :
    Inv ({ s with raised := Function.update s.raised irq (s.raised irq + 1) }.runIrq irq) := by
  refine ⟨h.half, fun other ho => ?_, fun other hm => h.marked other hm, fun other => ?_⟩
  · change Function.update s.owed irq false other = true at ho
    rw [Function.update_apply] at ho
    split_ifs at ho
    exact h.owed other ho
  · have hold := h.handled other
    change Function.update s.handled irq (s.handled irq + 1) other + (s.marked other).toNat +
      s.stack.countP _ ≤ Function.update s.raised irq (s.raised irq + 1) other
    rw [Function.update_apply, Function.update_apply]
    split_ifs with heq
    · subst heq
      omega
    · exact hold

theorem turned_handled (s : State) (irq : ℕ) (stack : List Frame) :
    Turned s { s with stack := stack } (.runIrq irq) [] :=
  turned_of_same rfl (fun _ => rfl) (fun _ => rfl) fun _ => rfl

theorem Inv.next (h : Inv s) {l : Event} (hl : s.CanDo l) : Inv (s.next l) := by
  cases l with
  | mark irq => exact h.mark hl
  | index irq => exact h.index hl
  | runIrqs => exact h.runIrqs
  | loop word f i stack =>
    obtain ⟨fs, hstack, ht⟩ := exists_turned s word f i stack
    exact h.turned hl hstack ht
  | trigger irq => exact h.runIrq irq
  | handled irq stack => exact h.turned hl rfl (turned_handled s irq stack)

theorem inv_of_reachable (hs : system.Reachable init s) : Inv s :=
  hs.invariant inv_init fun _ _ h hl => h.next hl

/-- The interrupt is pending: it has been marked in both places. -/
def State.Pending (s : State) (irq : ℕ) : Prop :=
  s.marked irq = true ∧ s.irqIndexStatus.getLsbD (irq / irqStatusBits) = true

/-- No interrupt is lost: one that has been raised, and not been handled since, is pending,
    unless an interrupt is being set pending, or those pending are being run. Handlers of
    interrupts that were triggered may be running. -/
theorem pending_of_owed (hs : system.Reachable init s) (hhalf : s.half = [])
    (hstack : ∀ frame ∈ s.stack, ∃ irq, frame = .runIrq irq) {irq : ℕ}
    (howed : s.owed irq = true) : s.Pending irq := by
  have h := inv_of_reachable hs
  have hnone : ∀ p : Frame → Bool, (∀ irq, p (.runIrq irq) = false) → s.stack.any p = false := by
    intro p hp
    refine List.any_eq_false.2 fun frame hframe => ?_
    obtain ⟨other, rfl⟩ := hstack frame hframe
    simp [hp]
  have hmarked : s.marked irq = true := by
    simpa [hnone (Frame.delivers irq) fun _ => rfl] using h.owed irq howed
  have hindex := h.marked irq hmarked
  rw [hnone (Frame.checks _) fun _ => rfl, hhalf] at hindex
  exact ⟨hmarked, by simpa using hindex⟩

/-- A state with a pending interrupt. -/
def sample : State := (init.mark 1).index 1

theorem reachable_sample : system.Reachable init sample := by
  have hrun : system.IsRun init [.mark 1, .index 1] :=
    ⟨show 1 < nrIrqs by decide, List.mem_cons_self, trivial⟩
  exact System.reachable_run hrun

/-- An interrupt is pending while the handler of another one is running. -/
theorem pending_of_owed_sample : (sample.next (.trigger 2)).Pending 1 := by
  have henabled : system.Enabled sample (.trigger 2) :=
    ⟨fun _ _ _ _ h => (List.cons_ne_nil _ _ h.symm).elim, show 2 < nrIrqs by decide⟩
  refine pending_of_owed (reachable_sample.step henabled) rfl (fun frame hframe => ⟨2, ?_⟩) rfl
  exact List.mem_singleton.1 hframe

/-- No interrupt is handled more often than it is raised. -/
theorem handled_le_raised (hs : system.Reachable init s) (irq : ℕ) :
    s.handled irq ≤ s.raised irq := by
  have h := (inv_of_reachable hs).handled irq
  omega

/-- The calls `fs` will handle an interrupt: they look for its mark, or have taken it. -/
def State.Waits (s : State) (fs : List Frame) (irq : ℕ) : Prop :=
  s.marked irq = true ∧ fs.any (Frame.checks (irq / irqStatusBits)) = true ∨
    fs.any (Frame.delivers irq) = true

/-- An iteration handles the interrupt, or leaves calls that will. -/
theorem Turned.waits {top : Frame} {fs fs' : List Frame} (ht : Turned s s' top fs') {irq : ℕ}
    (h : s.Waits (top :: fs) irq) :
    s'.Waits (fs' ++ fs) irq ∨ s.handled irq < s'.handled irq := by
  simp only [State.Waits, List.any_cons, List.any_append, Bool.or_eq_true] at h ⊢
  rcases h with ⟨hm, hc⟩ | hd | hd
  · rcases ht.taken irq hm with hm' | hd
    · exact .inl (.inl ⟨hm', hc.imp_left (ht.marked irq hm').2⟩)
    · exact .inl (.inr (.inl hd))
  · exact (ht.delivered irq hd).imp (fun hd => .inr (.inl hd)) And.left
  · exact .inl (.inr (.inr hd))

/-- The interrupt has been handled since it had been handled `n` times, or it will be, by calls
    made from `stack`. -/
def State.Served (s : State) (irq n : ℕ) (stack : List Frame) : Prop :=
  n < s.handled irq ∨ ∃ fs, s.stack = fs ++ stack ∧ s.Waits fs irq

theorem not_waits_nil (s : State) (irq : ℕ) : ¬s.Waits [] irq := by simp [State.Waits]

theorem State.Served.turned {irq n : ℕ} {top : Frame} {st fs' : List Frame}
    (h : s.Served irq n stack) (hstack : s.stack = top :: st) (hstack' : s'.stack = fs' ++ st)
    (hle : n ≤ s.handled irq) (ht : Turned s s' top fs') : s'.Served irq n stack := by
  rcases h with hlt | ⟨fs, heq, hw⟩
  · exact .inl (hlt.trans_le (ht.handled irq))
  · cases fs with
    | nil => exact absurd hw (not_waits_nil s irq)
    | cons top' fs =>
      obtain ⟨rfl, rfl⟩ : top = top' ∧ st = fs ++ stack := by
        simpa using hstack.symm.trans heq
      rcases ht.waits hw with hw | hlt
      · exact .inr ⟨fs' ++ fs, by rw [hstack', List.append_assoc], hw⟩
      · exact .inl (hle.trans_lt hlt)

/-- What is called meanwhile does not matter. -/
theorem State.Served.push {irq n : ℕ} {fs : List Frame} (h : s.Served irq n stack)
    (hstack : s'.stack = fs ++ s.stack) (hmarked : s.marked irq = true → s'.marked irq = true)
    (hle : s.handled irq ≤ s'.handled irq) : s'.Served irq n stack := by
  rcases h with hlt | ⟨gs, heq, hw⟩
  · exact .inl (hlt.trans_le hle)
  · refine .inr ⟨fs ++ gs, by rw [hstack, heq, List.append_assoc], ?_⟩
    simp only [State.Waits, List.any_append, Bool.or_eq_true]
    exact hw.imp (fun ⟨hm, hc⟩ => ⟨hmarked hm, .inr hc⟩) .inr

theorem handled_runIrq_ge (s : State) (irq other : ℕ) :
    s.handled other ≤ (s.runIrq irq).handled other := by
  change _ ≤ Function.update s.handled irq (s.handled irq + 1) other
  rw [Function.update_apply]
  split_ifs with heq
  · exact heq ▸ Nat.le_succ _
  · exact le_rfl

theorem State.Served.next {irq n : ℕ} (h : s.Served irq n stack ∧ n ≤ s.handled irq) {l : Event}
    (hl : s.CanDo l) : (s.next l).Served irq n stack ∧ n ≤ (s.next l).handled irq := by
  obtain ⟨h, hle⟩ := h
  cases l with
  | mark other =>
    exact ⟨h.push (List.nil_append _).symm (fun hm => by simp [State.next, marked_mark, hm]) le_rfl,
      hle⟩
  | index other => exact ⟨h.push (List.nil_append _).symm id le_rfl, hle⟩
  | runIrqs => exact ⟨h.push (List.singleton_append).symm id le_rfl, hle⟩
  | loop word f i st =>
    obtain ⟨fs, hstack, ht⟩ := exists_turned s word f i st
    exact ⟨h.turned hl hstack hle ht, hle.trans (ht.handled irq)⟩
  | trigger other =>
    have hge : s.handled irq ≤ (s.next (.trigger other)).handled irq :=
      handled_runIrq_ge { s with raised := _ } other irq
    exact ⟨h.push (List.singleton_append).symm id hge, hle.trans hge⟩
  | handled other st =>
    have ht := turned_handled s other st
    exact ⟨h.turned hl (List.nil_append st).symm hle ht, hle.trans (ht.handled irq)⟩

/-- When `run_irqs` returns, every interrupt that was pending when it was called has been handled,
    whatever is set pending, triggered and run meanwhile, by its handlers or by other threads. -/
theorem pending_handled {irq : ℕ} (hpending : s.Pending irq)
    (hs' : system.Reachable s.runIrqs s') (hret : s'.stack.length ≤ s.stack.length) :
    s.handled irq < s'.handled irq := by
  have hstart : s.runIrqs.Served irq (s.handled irq) s.stack := by
    refine .inr ⟨[.forEachBit s.irqIndexStatus .checkIrqStatus 0], rfl, .inl ⟨hpending.1, ?_⟩⟩
    simp [Frame.checks, ahead_start, hpending.2]
  have hserved := hs'.invariant
    (P := fun t => t.Served irq (s.handled irq) s.stack ∧ s.handled irq ≤ t.handled irq)
    ⟨hstart, le_rfl⟩ fun _ _ h hl => State.Served.next h hl
  refine hserved.1.resolve_right ?_
  rintro ⟨fs, heq, hw⟩
  -- The calls that wait are still there: `run_irqs` has not returned.
  rw [heq, List.length_append] at hret
  have hnil : fs = [] := List.eq_nil_of_length_eq_zero (by omega)
  exact not_waits_nil s' irq (hnil ▸ hw)

theorem sample_inCode : system.Enabled sample .runIrqs := by
  intro word f i stack h
  simp [sample, State.index, State.mark, init] at h

/-- What happens when the interrupts pending in `sample` are run. -/
def samplePass : List Event :=
  let outer := Frame.forEachBit 0#_ .checkIrqStatus 1
  [.loop 1#_ .checkIrqStatus 0 [], .loop 2#_ (.deliverIrq 0) 0 [outer],
    .loop 1#_ (.deliverIrq 0) 1 [outer],
    .handled 1 [.forEachBit 0#_ (.deliverIrq 0) 2, outer],
    .loop 0#_ (.deliverIrq 0) 2 [outer], .loop 0#_ .checkIrqStatus 1 []]

theorem isRun_samplePass : system.IsRun sample.runIrqs samplePass :=
  ⟨rfl, rfl, rfl, rfl, rfl, rfl, trivial⟩

theorem handled_le_raised_sample :
    (system.run sample.runIrqs samplePass).handled 1 ≤
      (system.run sample.runIrqs samplePass).raised 1 :=
  handled_le_raised ((reachable_sample.step sample_inCode).trans
    (System.reachable_run isRun_samplePass)) 1

theorem pending_handled_sample :
    sample.handled 1 < (system.run sample.runIrqs samplePass).handled 1 :=
  pending_handled (s := sample) ⟨rfl, rfl⟩ (System.reachable_run isRun_samplePass) (by decide)

end Irq

end NodeLkl
