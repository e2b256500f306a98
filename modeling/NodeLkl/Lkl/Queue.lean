import NodeLkl.Lkl.Operations

/-!
# What the queue guarantees

* `Ordered`: operations are run once, in order, each by its own native function,
  and answered once, with its own result; the slot of the worker is not
  overwritten while it is being read. This is so in every run in which neither a
  method nor a callback throws (`ordered_of_noThrow`).
* `Unwedged`: the operation having the slot of the queue is in flight, and will
  release it. This is so all along a run exactly if neither a method nor a
  callback throws in it (`unwedged_iff_calm`).

Unmounting what is not mounted throws, and the queue is wedged
(`not_ordered_umountUnknown`, `not_unwedged_umountUnknown`).
-/

namespace NodeLkl

namespace Worker

variable {Op J Fn Args Res : Type*} {c : Client Op J Fn Args Res} {j : J}
  {s : State Op J Fn Args Res}

/-! ## Order -/

/-- The main thread is in `run_on_worker_loop`. -/
def Pc.Hands : Pc Op Fn Args Res → Prop
  | .writeFn _ | .writeArgs _ | .send => True
  | _ => False

variable (c s) in
/-- No operation is lost, duplicated, reordered, or answered with the result of
    another. -/
structure Ordered : Prop where
  /-- Native functions are run in the order of the operations, once each, -/
  natives : s.natives.map (fun p => p.1.task) <+: numbered s.added
  /-- as the methods of the operations have called them, -/
  own : s.natives.map Prod.fst <+: s.passed
  /-- and callbacks are called with their results. -/
  answers : s.answers <+: s.results
  /-- The slot is written when every other job has been read from it, and run. -/
  hands : s.pc.Hands → s.pending = false ∧ (s.worker = .wait ∨ s.worker = .deliver) ∧
    s.passed.length = s.natives.length + 1
  worker_ne_fault : s.worker ≠ .fault
  main_ne_fault : s.box.main ≠ .fault
  /-- When nothing is left to happen, every operation has been run and answered. -/
  complete : (∀ e, (system c).Enabled s e → ¬e.Inner) →
    s.natives.map (fun p => p.1.task) = numbered s.added ∧ s.answers = s.results

/-- The worker does not call a function that is not there. -/
theorem Phase.worker_ne_fault (h : Phase s) : s.worker ≠ .fault := by
  intro hfault
  obtain ⟨job, -, -, -, -, -, -, hcases⟩ := h.reading (by simp [hfault]) (by simp [hfault])
  simp [hfault] at hcases

theorem Inv.natives_prefix (h : Inv c j s) :
    s.natives.map (fun p => p.1.task) <+: numbered s.added := by
  have hnatives := h.phase.natives_prefix.map Job.task
  rw [List.map_map] at hnatives
  exact hnatives.trans (h.phase.tasks_prefix.trans (h.order ▸ List.prefix_append _ _))

theorem Inv.ordered [Nonempty Res] (h : Inv c j s) (hstuck : ¬Stuck s) : Ordered c s where
  natives := h.natives_prefix
  own := h.phase.natives_prefix
  answers := h.phase.answers_prefix
  hands hpc := by
    have hne : s.pc ≠ .rest ∧ s.pc ≠ .released ∧ ∀ t r, s.pc ≠ .callback t r := by
      cases hs : s.pc <;> rw [hs] at hpc <;> first | exact hpc.elim | simp
    obtain ⟨job, -, hpending, -, hpassed, -, hworker, -⟩ := h.phase.handing hne.1 hne.2.1 hne.2.2
    exact ⟨hpending, hworker, by simp [hpassed]⟩
  worker_ne_fault := h.phase.worker_ne_fault
  main_ne_fault := h.box.main_ne_fault
  complete hnone := by
    -- otherwise, something may happen
    have hdone : s.slot = none ∧ s.tasks = [] := by
      by_contra hleft
      rw [not_and_or] at hleft
      obtain ⟨e, he, hinner, -⟩ := h.exists_enabled hstuck hleft
      exact hnone e he hinner
    obtain ⟨-, -, -, htaken, hpassed, hanswered, -⟩ := h.phase.free hdone.1
    have horder := h.order
    rw [hdone.2, List.append_nil, ← htaken, hpassed, List.map_map] at horder
    exact ⟨horder, hanswered.1⟩

/-- In a run in which neither a method nor a callback throws, no operation is
    lost, duplicated, reordered, or answered with the result of another; and the
    run ends, unless operations are added. -/
theorem ordered_of_noThrow [Nonempty Res] {es : List (Event Op Res)}
    (hrun : (system c).IsRun (init j) es) (hthrow : (system c).Along (NoThrow c) (init j) es) :
    Ordered c ((system c).run (init j) es) ∧
      es.length ≤ 41 * ((system c).run (init j) es).added.length := by
  obtain ⟨hinv, hstuck⟩ := inv_of_noThrow (inv_init j) not_stuck_init hrun hthrow
  refine ⟨hinv.ordered hstuck, ?_⟩
  have hlength := length_le (inv_init j) hrun
  simp only [init, work, Pc.work, WorkerPc.work, Mailbox.rank, Mailbox.init] at hlength ⊢
  simp at hlength
  omega

/-- A run of two system calls. The second one is added in the callback of the
    first one, and started as soon as that returns, while the worker waits. -/
def twoCalls : List (Lkl.Event Unit ℕ) :=
  [.addOperation (.syscall 0), .process, .writeFn, .writeArgs, .send, .wake, .readFn, .readArgs,
    .native ⟨0, 0⟩, .box (.lock ()), .box (.store ()), .box (.send ()), .box .wake,
    .addOperation (.syscall 1), .callbackReturn, .process, .writeFn, .writeArgs, .send, .box .ret,
    .box .post, .box (.acquire ()), .box (.unlock ()), .loop, .wake]

theorem isRun_twoCalls : (Lkl.system Unit ℕ).IsRun (Lkl.init Unit ℕ) twoCalls := by
  refine ⟨.inl rfl, ⟨rfl, nofun, .inl ⟨rfl, rfl⟩⟩, ⟨_, rfl⟩, ⟨_, rfl⟩, rfl, ⟨rfl, rfl⟩, rfl,
    ⟨_, rfl⟩, ⟨_, rfl⟩, ⟨trivial, ⟨rfl, _, rfl⟩, nofun⟩, ⟨trivial, ⟨_, rfl⟩, nofun⟩,
    ⟨trivial, ⟨_, rfl⟩, nofun⟩, ⟨trivial, ⟨rfl, rfl⟩, fun _ => rfl⟩, .inr ⟨_, _, rfl⟩, ?_⟩
  refine ⟨⟨_, _, rfl⟩, ⟨rfl, nofun, .inr rfl⟩, ⟨_, rfl⟩, ⟨_, rfl⟩, rfl,
    ⟨trivial, ⟨_, _, rfl⟩, fun _ => rfl⟩, ⟨trivial, ⟨_, rfl⟩, fun _ => rfl⟩,
    ⟨trivial, ⟨Nat.one_pos, _, rfl⟩, nofun⟩, ⟨trivial, ⟨_, rfl⟩, nofun⟩, ⟨rfl, rfl⟩, ⟨rfl, rfl⟩,
    trivial⟩

theorem ordered_twoCalls :
    (Lkl.system Unit ℕ).IsRun (Lkl.init Unit ℕ) twoCalls ∧
      (Lkl.system Unit ℕ).Along (NoThrow (Lkl.client Unit ℕ)) (Lkl.init Unit ℕ) twoCalls ∧
      Ordered (Lkl.client Unit ℕ)
        ((Lkl.system Unit ℕ).run (Lkl.init Unit ℕ) twoCalls) := by
  have hthrow : (Lkl.system Unit ℕ).Along (NoThrow (Lkl.client Unit ℕ))
      (Lkl.init Unit ℕ) twoCalls := by
    refine ⟨trivial, fun _ h => ?_, trivial, trivial, trivial, trivial, trivial, trivial, trivial,
      trivial, trivial, trivial, trivial, trivial, trivial, fun _ h => ?_, trivial, trivial,
      trivial,
      trivial, trivial, trivial, trivial, trivial, trivial, trivial⟩
    all_goals
      cases h
      exact nofun
  have : Nonempty Lkl.Res := ⟨0, 0⟩
  exact ⟨isRun_twoCalls, hthrow, (ordered_of_noThrow isRun_twoCalls hthrow).1⟩

/-- Unmounting what is not mounted. -/
def umountUnknown : List (Lkl.Event Unit ℕ) :=
  [.addOperation (.umount "/nope".toList), .process]

theorem isRun_umountUnknown :
    (Lkl.system Unit ℕ).IsRun (Lkl.init Unit ℕ) umountUnknown :=
  ⟨.inl rfl, ⟨rfl, nofun, .inl ⟨rfl, rfl⟩⟩, trivial⟩

theorem stuck_umountUnknown :
    Stuck ((Lkl.system Unit ℕ).run (Lkl.init Unit ℕ) umountUnknown) :=
  ⟨nofun, rfl, rfl, List.nil_prefix, rfl, ⟨rfl, rfl⟩, .inl rfl⟩

/-- Its method throws, so that neither a native function is run, nor its callback
    called, and nothing is left to happen. -/
theorem not_ordered_umountUnknown :
    (Lkl.system Unit ℕ).IsRun (Lkl.init Unit ℕ) umountUnknown ∧
      ¬Ordered (Lkl.client Unit ℕ)
        ((Lkl.system Unit ℕ).run (Lkl.init Unit ℕ) umountUnknown) := by
  refine ⟨isRun_umountUnknown, fun h => ?_⟩
  have hcomplete := (h.complete fun e he hinner => ?_).1
  · cases hcomplete
  · have hinv := (System.reachable_run isRun_umountUnknown).invariant (inv_init Lkl.noMounts)
      fun _ _ h he => h.next he
    exact hinv.not_inner_of_stuck stuck_umountUnknown rfl he hinner

/-! ## The slot of the queue -/

/-- The operation `t` is in flight: its job is being handed to the worker, or in
    the slot, or read or run by it, or its result is being handed back, or its
    callback is being called. -/
def InFlight (s : State Op J Fn Args Res) (t : Task Op) : Prop :=
  (∃ job, job.task = t ∧ (s.pc = .writeFn job ∨ s.pc = .writeArgs job ∨ s.worker = .run job)) ∨
    ((s.pc = .send ∨ s.pending = true ∨ s.worker = .woken ∨ ∃ fn, s.worker = .gotFn fn) ∧
      ∃ args, s.args = some (t, args)) ∨
    ∃ r, (s.worker = .deliver ∧ s.box.passed () = s.box.ran () ++ [(t, r)]) ∨ s.pc = .callback t r

/-- The slot will be released: as long as it is not, something may happen, and
    only so much can, besides adding operations and throwing. -/
def WillRelease (c : Client Op J Fn Args Res) (s : State Op J Fn Args Res) : Prop :=
  ∃ n, ∀ es, (∀ e ∈ es, e.Inner) → (system c).IsRun s es → (system c).Along (NoThrow c) s es →
    ((system c).run s es).slot = s.slot →
    es.length ≤ n ∧ ∃ e, e.Inner ∧ (system c).Enabled ((system c).run s es) e ∧
      NoThrow c ((system c).run s es) e

/-- If the slot of the queue is not free, the operation having it is in flight,
    and will release it. -/
def Unwedged (c : Client Op J Fn Args Res) (s : State Op J Fn Args Res) : Prop :=
  ∀ t, s.slot = some t → InFlight s t ∧ WillRelease c s

theorem Phase.inFlight (h : Phase s) (hstuck : ¬Stuck s) {t : Task Op} (ht : s.slot = some t) :
    InFlight s t := by
  rcases h with h | ⟨job, hslot, -, -, -, -, -, hcases⟩ |
    ⟨job, hslot, -, hp, -, -, -, -, -, hargs⟩ |
    ⟨job, hslot, -, -, -, -, -, hcases⟩ | ⟨t', r, hslot, -, -, -, -, -, hbox, hworker⟩ |
    ⟨t', r, hslot, hpc, -⟩ | h
  · rw [h.1] at ht
    cases ht
  · obtain rfl := Option.some.inj (hslot.symm.trans ht)
    rcases hcases with hpc | ⟨hpc, -⟩ | ⟨hpc, -, hargs⟩
    · exact .inl ⟨job, rfl, .inl hpc⟩
    · exact .inl ⟨job, rfl, .inr (.inl hpc)⟩
    · exact .inr (.inl ⟨.inl hpc, job.args, hargs⟩)
  · obtain rfl := Option.some.inj (hslot.symm.trans ht)
    exact .inr (.inl ⟨.inr (.inl hp), job.args, hargs⟩)
  · obtain rfl := Option.some.inj (hslot.symm.trans ht)
    rcases hcases with ⟨hw, -, hargs⟩ | ⟨hw, hargs⟩ | hw
    · exact .inr (.inl ⟨.inr (.inr (.inl hw)), job.args, hargs⟩)
    · exact .inr (.inl ⟨.inr (.inr (.inr ⟨_, hw⟩)), job.args, hargs⟩)
    · exact .inl ⟨job, rfl, .inr (.inr hw)⟩
  · obtain rfl := Option.some.inj (hslot.symm.trans ht)
    exact .inr (.inr ⟨r, .inl ⟨hworker, hbox⟩⟩)
  · obtain rfl := Option.some.inj (hslot.symm.trans ht)
    exact .inr (.inr ⟨r, .inr hpc⟩)
  · exact absurd h hstuck

/-- An operation that is stuck is not in flight. -/
theorem Stuck.not_inFlight (h : Stuck s) (t : Task Op) : ¬InFlight s t := by
  obtain ⟨-, hpc, hpending, -, -, ⟨-, hran⟩, hworker⟩ := h
  rintro (⟨job, -, h | h | h⟩ | ⟨h | h | h | ⟨fn, h⟩, -⟩ | ⟨r, ⟨-, h⟩ | h⟩)
  · simp [hpc] at h
  · simp [hpc] at h
  · simp [h] at hworker
  · simp [hpc] at h
  · simp [hpending] at h
  · simp [h] at hworker
  · simp [h] at hworker
  · simp [hran] at h
  · simp [hpc] at h

/-- The slot is not free while an operation that is not stuck has it, and will be
    released. -/
theorem Inv.willRelease [Nonempty Res] (h : Inv c j s) (hstuck : ¬Stuck s) (hslot : s.slot ≠ none) :
    WillRelease c s := by
  -- Events other than adding operations do some of the work, of which there is no more.
  refine ⟨work s, fun es hinner hrun hthrow hsame => ⟨?_, ?_⟩⟩
  · have hlength := length_le h hrun
    rw [added_run hinner] at hlength
    omega
  · obtain ⟨hinv, hstuck'⟩ := inv_of_noThrow h hstuck hrun hthrow
    obtain ⟨e, he, hinner, hne⟩ := hinv.exists_enabled hstuck' (.inl (hsame ▸ hslot))
    refine ⟨e, hinner, he, ?_⟩
    -- no operation is started, as the slot is not free
    cases e with
    | process => exact absurd (he.1.symm.trans hsame).symm hslot
    | callbackThrow => exact absurd rfl hne
    | _ => trivial

theorem Inv.unwedged [Nonempty Res] (h : Inv c j s) (hstuck : ¬Stuck s) : Unwedged c s :=
  fun _ ht => ⟨h.phase.inFlight hstuck ht, h.willRelease hstuck (by simp [ht])⟩

theorem Stuck.not_unwedged (h : Stuck s) : ¬Unwedged c s := by
  obtain ⟨t, ht⟩ := Option.ne_none_iff_exists'.1 h.1
  exact fun hu => h.not_inFlight t (hu t ht).1

/-- All along a run, the operation having the slot of the queue is in flight, and
    will release it, exactly if neither a method nor a callback throws. -/
theorem unwedged_iff_noThrow [Nonempty Res] (h : Inv c j s) (hstuck : ¬Stuck s)
    {es : List (Event Op Res)} (hrun : (system c).IsRun s es) :
    (∀ ls, ls <+: es → Unwedged c ((system c).run s ls)) ↔
      (system c).Along (NoThrow c) s es := by
  induction es generalizing s with
  | nil =>
    refine ⟨fun _ => trivial, fun _ ls hls => ?_⟩
    rw [List.prefix_nil] at hls
    exact hls ▸ h.unwedged hstuck
  | cons e es ih =>
    have hnext : NoThrow c s e → ¬Stuck ((system c).next s e) := fun hthrow hstuck' =>
      hstuck (h.stuck_of_next hrun.1 hthrow hstuck')
    constructor
    · -- a throw leaves an operation stuck, which is not in flight
      intro hall
      have hthrow : NoThrow c s e := by
        by_contra hthrow
        refine (h.stuck_of_throw hrun.1 hthrow).not_unwedged (hall [e] ?_)
        exact List.prefix_append [e] es
      refine ⟨hthrow, (ih (h.next hrun.1) (hnext hthrow) hrun.2).1 fun ls hls => ?_⟩
      exact hall (e :: ls) (List.cons_prefix_cons.2 ⟨rfl, hls⟩)
    · rintro ⟨hthrow, hthrows⟩ ls hls
      cases ls with
      | nil => exact h.unwedged hstuck
      | cons e' ls =>
        obtain ⟨rfl, hprefix⟩ := List.cons_prefix_cons.1 hls
        exact (ih (h.next hrun.1) (hnext hthrow) hrun.2).2 hthrows ls hprefix

end Worker

namespace Lkl

variable {D S : Type*}

/-- Neither a method nor a callback throws: a mount has options, and what is
    unmounted is mounted, or inherited. -/
def Calm (s : State D S) : Event D S → Prop
  | .process => ∀ t ∈ s.tasks.head?, (∀ diskId, t.op ≠ .mount diskId none) ∧
      ∀ m, t.op = .umount m → s.js m ≠ none ∨ m ∈ inherited
  | .callbackThrow => False
  | _ => True

theorem start_eq_none_iff {mounts : Mounts} {op : Op D S} : start mounts op = none ↔
    (∃ diskId, op = .mount diskId none) ∨
      ∃ m, op = .umount m ∧ mounts m = none ∧ m ∉ inherited := by
  cases op with
  | mount diskId opts => cases opts <;> simp [start]
  | umount m =>
    cases hm : mounts m with
    | none => by_cases hi : m ∈ inherited <;> simp [start, lookup, hm, hi]
    | some info => simp [start, lookup, hm]
  | _ => simp [start]

theorem noThrow_iff_calm (s : State D S) (e : Event D S) :
    Worker.NoThrow (client D S) s e ↔ Calm s e := by
  cases e with
  | process =>
    refine forall_congr' fun t => imp_congr_right fun _ => ?_
    rw [show (client D S).start s.js t.op = start s.js t.op from rfl, Ne, start_eq_none_iff]
    push Not
    simp only [imp_iff_not_or]
  | _ => rfl

/-- All along a run of the operations of the library, the operation having the
    slot of the queue is in flight, and will release it, exactly if neither a
    method nor a callback throws. -/
theorem unwedged_iff_calm {es : List (Event D S)}
    (hrun : (system D S).IsRun (init D S) es) :
    (∀ ls, ls <+: es → Worker.Unwedged (client D S) ((system D S).run (init D S) ls)) ↔
      (system D S).Along Calm (init D S) es := by
  have : Nonempty Res := ⟨0, 0⟩
  rw [Worker.unwedged_iff_noThrow (Worker.inv_init noMounts) Worker.not_stuck_init hrun]
  exact System.along_congr noThrow_iff_calm

theorem unwedged_twoCalls :
    (system Unit ℕ).IsRun (init Unit ℕ) Worker.twoCalls ∧
      ((∀ ls, ls <+: Worker.twoCalls →
          Worker.Unwedged (client Unit ℕ) ((system Unit ℕ).run (init Unit ℕ) ls)) ↔
        (system Unit ℕ).Along Calm (init Unit ℕ) Worker.twoCalls) :=
  ⟨Worker.isRun_twoCalls, unwedged_iff_calm Worker.isRun_twoCalls⟩

/-- Unmounting what is not mounted wedges the queue. -/
theorem not_unwedged_umountUnknown :
    (system Unit ℕ).IsRun (init Unit ℕ) Worker.umountUnknown ∧
      ¬Worker.Unwedged (client Unit ℕ)
        ((system Unit ℕ).run (init Unit ℕ) Worker.umountUnknown) :=
  ⟨Worker.isRun_umountUnknown, Worker.stuck_umountUnknown.not_unwedged⟩

end Lkl

end NodeLkl
