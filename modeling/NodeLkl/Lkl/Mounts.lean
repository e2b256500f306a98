import NodeLkl.Lkl.Operations

/-!
# The mount table

What LKL has mounted is determined by what the worker has run (`live`): a mount
that succeeds adds a mount, an unmount that succeeds removes what is mounted from
its device. LKL does not mount a device twice, nor at a mountpoint in use
(`Contract`).

* `Correct`: the mount table is what is mounted, and unmounting is what it should
  be (`Handled`), in particular of what is not mounted: nothing is unmounted, and
  an error is reported.
* `along_correct_iff_along_umountsLive`: this is so all along a run exactly if
  only what is mounted is ever unmounted.
-/

namespace NodeLkl

namespace Lkl

variable {D S : Type*}

/-- The device of a mount: the disk and the partition, as given to LKL. -/
def MountInfo.device (i : MountInfo) : BitVec 32 × BitVec 32 :=
  (i.diskId.uint32Value, i.partition.uint32Value)

/-- What is mounted, after a job with its result. -/
def liveNext (live : Mounts) (p : Job D S × Res) : Mounts :=
  if p.2.ret < 0 then live
  else match p.1.task.op, p.1.args with
    | .mount diskId (some opts), .mount _ _ _ _ =>
      Function.update live (mountpoint p.2.dev) (some ⟨diskId, opts.part⟩)
    | _, .umount diskId partition => fun m =>
      if (live m).map MountInfo.device = some (diskId, partition) then none else live m
    | _, _ => live

/-- What is mounted, after the jobs `natives`. -/
def live (natives : List (Job D S × Res)) : Mounts :=
  natives.foldl liveNext noMounts

/-- A mount succeeds if its mountpoint is not in use, and its device not
    mounted. -/
def MountsFresh (live : Mounts) (args : Args D S) (r : Res) : Prop :=
  ∀ diskId readonly fsType part, args = .mount diskId readonly fsType part → 0 ≤ r.ret →
    live (mountpoint r.dev) = none ∧ ∀ m i, live m = some i → i.device ≠ (diskId, part)

/-- What LKL does. -/
def Contract (s : State D S) : Event D S → Prop
  | .native r => ∀ job, s.worker = .run job → MountsFresh (live s.natives) job.args r
  | _ => True

/-- The mount table is what is mounted, as far as callbacks have been called. -/
def Faithful (s : State D S) : Prop :=
  s.js = live (s.natives.take s.answers.length)

/-- The callback of `t` may be called with an error. -/
def Reported (s : State D S) (t : Worker.Task (Op D S)) : Prop :=
  ∃ es r, (system D S).IsRun s es ∧ r.ret < 0 ∧
    (t, r) ∈ ((system D S).run s es).answers

/-- Unmounting `m`: what is mounted there is unmounted; if nothing is, nothing is
    done, and an error is reported. -/
def Handled (s : State D S) (t : Worker.Task (Op D S)) (m : Key) : Prop :=
  match live s.natives m with
  | some info => start s.js t.op = some (.doUmount, .umount info.device.1 info.device.2)
  | none =>
    let s' := (system D S).next s .process
    s'.passed = s.passed ∧ s'.js = s.js ∧ Reported s' t

/-- The mount table is, and remains, what is mounted; unmounting is handled, and
    drops the mount if it succeeds. -/
structure Correct (s : State D S) (e : Event D S) :
    Prop where
  before : Faithful s
  after : Faithful ((system D S).next s e)
  handled : e = .process → ∀ t ∈ s.tasks.head?, ∀ m, t.op = .umount m → Handled s t m
  dropped : e = .box .wake → ∀ t r m, s.box.read = .running () (t, r) → t.op = .umount m →
    ((system D S).next s e).js = if r.ret < 0 then s.js else Function.update s.js m none

/-- Only what is mounted is unmounted. -/
def UmountsLive (s : State D S) : Event D S → Prop
  | .process => ∀ t ∈ s.tasks.head?, ∀ m, t.op = .umount m → live s.natives m ≠ none
  | _ => True

/-! ## The invariant -/

/-- Mounts have different devices. -/
def Distinct (mounts : Mounts) : Prop :=
  ∀ m m' i i', mounts m = some i → mounts m' = some i' → i.device = i'.device → m = m'

/-- What an operation does to the table is what its job does to what is mounted. -/
theorem done_eq_liveNext {mounts : Mounts} {job : Job D S} {r : Res}
    (hstart : start mounts job.task.op = some (job.fn, job.args)) (hdistinct : Distinct mounts)
    (hlive : ∀ m, job.task.op = .umount m → mounts m ≠ none) :
    done mounts job.task.op r = liveNext mounts (job, r) := by
  obtain ⟨t, fn, args⟩ := job
  obtain ⟨n, op⟩ := t
  cases op with
  | mount diskId opts =>
    cases opts with
    | none => simp [start] at hstart
    | some opts =>
      obtain ⟨rfl, rfl⟩ : _ ∧ _ := by simpa [start] using hstart
      simp [done, liveNext]
  | umount m =>
    obtain ⟨info, hinfo⟩ := Option.ne_none_iff_exists'.1 (hlive m rfl)
    obtain ⟨rfl, rfl⟩ : _ ∧ _ := by simpa [start, lookup, hinfo] using hstart
    by_cases hret : r.ret < 0
    · simp [done, liveNext, hret]
    · simp only [done, liveNext, hret, if_false]
      funext m'
      by_cases hm : m' = m
      · subst hm
        simp [hinfo, MountInfo.device]
      · rw [Function.update_of_ne hm]
        cases hinfo' : mounts m' with
        | none => simp
        | some info' =>
          have hne : info'.device ≠ info.device := fun heq =>
            hm (hdistinct m' m info' info hinfo' hinfo heq)
          simpa [MountInfo.device] using hne
  | _ =>
    obtain ⟨rfl, rfl⟩ : _ ∧ _ := by simpa [start] using hstart
    simp [done, liveNext]

/-- Mounts keep having different devices. -/
theorem distinct_done {mounts : Mounts} {job : Job D S} {r : Res}
    (hstart : start mounts job.task.op = some (job.fn, job.args)) (hdistinct : Distinct mounts)
    (hfresh : MountsFresh mounts job.args r) : Distinct (done mounts job.task.op r) := by
  obtain ⟨⟨n, op⟩, fn, args⟩ := job
  cases op with
  | mount diskId opts =>
    cases opts with
    | none => simp [start] at hstart
    | some opts =>
      obtain ⟨rfl, rfl⟩ : _ ∧ _ := by simpa [start] using hstart
      by_cases hret : r.ret < 0
      · simpa [done, hret] using hdistinct
      · -- the new mount has a device that is not mounted
        obtain ⟨-, hne⟩ := hfresh _ _ _ _ rfl (not_lt.1 hret)
        simp only [done, hret, if_false]
        intro m m' i i' hi hi' heq
        by_cases hm : m = mountpoint r.dev <;> by_cases hm' : m' = mountpoint r.dev
        · rw [hm, hm']
        · rw [hm, Function.update_self, Option.some.injEq] at hi
          rw [Function.update_of_ne hm'] at hi'
          exact absurd (heq.symm.trans (by rw [← hi]; rfl)) (hne m' i' hi')
        · rw [hm', Function.update_self, Option.some.injEq] at hi'
          rw [Function.update_of_ne hm] at hi
          exact absurd (heq.trans (by rw [← hi']; rfl)) (hne m i hi)
        · rw [Function.update_of_ne hm] at hi
          rw [Function.update_of_ne hm'] at hi'
          exact hdistinct m m' i i' hi hi' heq
  | umount m =>
    by_cases hret : r.ret < 0
    · simpa [done, hret] using hdistinct
    · simp only [done, hret, if_false]
      intro m₁ m₂ i₁ i₂ h₁ h₂ heq
      have hold : ∀ {m' i'}, Function.update mounts m none m' = some i' → mounts m' = some i' := by
        intro m' i' h'
        by_cases hm : m' = m
        · simp [hm] at h'
        · rwa [Function.update_of_ne hm] at h'
      exact hdistinct m₁ m₂ i₁ i₂ (hold h₁) (hold h₂) heq
  | _ => exact hdistinct

/-- What is known of the mount table, if only what is mounted is unmounted. -/
structure MountInv (s : State D S) : Prop where
  faithful : Faithful s
  distinct : Distinct s.js
  umounts : ∀ job ∈ s.passed.drop s.answers.length, ∀ m, job.task.op = .umount m → s.js m ≠ none
  mounts : ∀ p, s.natives[s.answers.length]? = some p → MountsFresh s.js p.1.args p.2

theorem mountInv_init : MountInv (init D S) where
  faithful := rfl
  distinct _ _ _ _ h := by cases h
  umounts _ h := by cases h
  mounts _ h := by cases h

namespace MountInv

variable {s : State D S}

/-- While the slot of the queue is free, the mount table is what is mounted. -/
theorem js_eq (hm : MountInv s) (h : s.answers = s.results) : s.js = live s.natives := by
  have hlength : s.natives.length = s.answers.length := by simp [h, Worker.State.results]
  have := hm.faithful
  rwa [Faithful, ← hlength, List.take_length] at this

/-- An operation is started. -/
theorem process (hm : MountInv s) (h : Worker.Inv (client D S) noMounts s)
    (he : (system D S).Enabled s .process) (hlive : UmountsLive s .process) :
    MountInv ((system D S).next s .process) := by
  obtain ⟨-, -, -, -, hpassed, ⟨hanswers, -⟩, -⟩ := h.phase.free he.1
  obtain ⟨t, rest, ht⟩ := List.exists_cons_of_ne_nil he.2.1
  have hlength : s.passed.length = s.answers.length := by
    simp [hpassed, hanswers, Worker.State.results]
  cases hstart : (client D S).start s.js t.op with
  | none =>
    rw [Worker.next_process_none ht hstart]
    exact ⟨hm.faithful, hm.distinct, hm.umounts, hm.mounts⟩
  | some job =>
    obtain ⟨fn, args⟩ := job
    rw [Worker.next_process_some ht hstart]
    refine ⟨hm.faithful, hm.distinct, fun job hjob m hop => ?_, hm.mounts⟩
    obtain rfl : job = ⟨t, fn, args⟩ := by
      simpa [List.drop_append_of_le_length hlength.ge, ← hlength] using hjob
    have hmounted := hlive t (by simp [ht]) m hop
    rwa [← hm.js_eq hanswers] at hmounted

/-- A job is run. -/
theorem native (hm : MountInv s) (h : Worker.Inv (client D S) noMounts s) {r : Res}
    (he : (system D S).Enabled s (.native r)) (hcontract : Contract s (.native r)) :
    MountInv ((system D S).next s (.native r)) := by
  obtain ⟨job, hworker⟩ := he
  obtain ⟨-, -, -, -, -, -, ⟨hanswers, -⟩, -⟩ := h.phase.reading (by simp [hworker])
    (by simp [hworker])
  have hlength : s.natives.length = s.answers.length := by simp [hanswers, Worker.State.results]
  have hfresh := hcontract job hworker
  rw [← hm.js_eq hanswers] at hfresh
  rw [Worker.next_native hworker]
  refine ⟨?_, hm.distinct, hm.umounts, fun p hp => ?_⟩
  · have := hm.faithful
    simpa [Faithful, List.take_append_of_le_length hlength.ge] using this
  · obtain rfl : p = (job, r) := by simpa [← hlength, eq_comm] using hp
    exact hfresh

/-- A callback is called. -/
theorem wake (hm : MountInv s) (h : Worker.Inv (client D S) noMounts s)
    (he : (system D S).Enabled s (.box .wake)) : MountInv ((system D S).next s (.box .wake)) := by
  obtain ⟨t, r, hread, -, -, -, -, hpassed, hresults, -⟩ := h.delivering_of_wake he
  -- the last job run is the one whose callback is called
  obtain ⟨natives, last, hnatives, hanswers, hlast⟩ := List.map_eq_append_iff.1 hresults
  obtain ⟨⟨job, r'⟩, rfl, hjob⟩ := List.map_eq_singleton_iff.1 hlast
  obtain ⟨rfl, rfl⟩ : job.task = t ∧ r' = r := by simpa using hjob
  have hlength : natives.length = s.answers.length := by simp [← hanswers]
  have hjs : s.js = live natives := by
    have := hm.faithful
    rwa [Faithful, hnatives, ← hlength, List.take_left] at this
  have hget : s.passed[s.answers.length]? = some job := by
    simp [hpassed, hnatives, ← hlength]
  have hstart : start s.js job.task.op = some (job.fn, job.args) := by
    have := h.jobs s.answers.length job hget
    rwa [List.take_length, ← h.js] at this
  have hlive : ∀ m, job.task.op = .umount m → s.js m ≠ none := by
    refine hm.umounts job ?_
    simp [hpassed, hnatives, ← hlength]
  have hfresh := hm.mounts (job, r') (by simp [hnatives, ← hlength])
  rw [Worker.next_wake hread]
  refine ⟨?_, distinct_done hstart hm.distinct hfresh, fun job' hjob' => ?_, fun p hp => ?_⟩
  · calc done s.js job.task.op r' = liveNext (live natives) (job, r') := by
          rw [done_eq_liveNext hstart hm.distinct hlive, hjs]
      _ = live s.natives := by simp [live, hnatives]
      _ = live (s.natives.take (s.answers ++ [(job.task, r')]).length) := by
          rw [List.take_of_length_le (by simp [hnatives, hlength])]
  · rw [List.drop_of_length_le (by simp [hpassed, hnatives, hlength])] at hjob'
    cases hjob'
  · rw [List.getElem?_eq_none (by simp [hnatives, hlength])] at hp
    cases hp

theorem next (hm : MountInv s) (h : Worker.Inv (client D S) noMounts s) {e : Event D S}
    (he : (system D S).Enabled s e) (hcontract : Contract s e) (hlive : UmountsLive s e) :
    MountInv ((system D S).next s e) := by
  by_cases hsilent : e.Silent
  · obtain ⟨hjs, hpassed, hnatives, hanswers⟩ :=
      Worker.log_next (c := client D S) (s := s) hsilent
    refine ⟨?_, ?_, ?_, ?_⟩
    · simpa only [Faithful, hjs, hnatives, hanswers] using hm.faithful
    · simpa only [hjs] using hm.distinct
    · simpa only [hjs, hpassed, hanswers] using hm.umounts
    · simpa only [hjs, hnatives, hanswers] using hm.mounts
  · cases e with
    | process => exact hm.process h he hlive
    | native r => exact hm.native h he hcontract
    | box e =>
      cases e with
      | wake => exact hm.wake h he
      | _ => exact absurd trivial hsilent
    | _ => exact absurd trivial hsilent

end MountInv

/-! ## Unmounting -/

variable {s : State D S}

/-- An operation to be started has not been answered. -/
theorem not_answered (h : Worker.Inv (client D S) noMounts s) {t : Worker.Task (Op D S)}
    (ht : t ∈ s.tasks) (r : Res) : (t, r) ∉ s.answers := by
  intro hanswer
  obtain ⟨⟨job, r'⟩, hjob, heq⟩ := List.mem_map.1 (h.phase.answers_prefix.subset hanswer)
  obtain ⟨rfl, rfl⟩ : job.task = t ∧ r' = r := by simpa using heq
  have hpassed : job ∈ s.passed :=
    h.phase.natives_prefix.subset (List.mem_map_of_mem (f := Prod.fst) hjob)
  have htaken : job.task ∈ s.taken := h.phase.tasks_prefix.subset (List.mem_map_of_mem hpassed)
  have hnodup := Worker.nodup_numbered s.added
  rw [← h.order, List.nodup_append] at hnodup
  exact hnodup.2.2 _ htaken _ ht rfl

/-- Unmounting what is not mounted is not handled: it throws, or unmounts
    something else. -/
theorem not_handled (h : Worker.Inv (client D S) noMounts s) (hm : MountInv s)
    (he : (system D S).Enabled s .process) {t : Worker.Task (Op D S)} (ht : t ∈ s.tasks.head?)
    {m : Key} (hop : t.op = .umount m) (hlive : live s.natives m = none) : ¬Handled s t m := by
  obtain ⟨rest, hrest⟩ : ∃ rest, s.tasks = t :: rest := List.head?_eq_some_iff.1 ht
  obtain ⟨-, -, -, -, -, ⟨hanswers, -⟩, -⟩ := h.phase.free he.1
  have hjs : s.js m = none := by rw [hm.js_eq hanswers, hlive]
  rw [Handled, hlive]
  rintro ⟨hpassed, -, es, r, hrun, -, hanswer⟩
  by_cases hinherited : m ∈ inherited
  · -- an inherited property: something is unmounted
    obtain ⟨⟨fn, args⟩, hstart⟩ : ∃ job, (client D S).start s.js t.op = some job := by
      simp [client, start, hop, lookup, hjs, hinherited]
    rw [Worker.next_process_some hrest hstart] at hpassed
    simp at hpassed
  · -- nothing: the operation is stuck
    have hstart : (client D S).start s.js t.op = none := by
      simp [client, start, hop, lookup, hjs, hinherited]
    have hstuck := h.stuck_process he.1 hrest hstart
    have hsame := Worker.answers_run_of_stuck (h.next he) hstuck hrun
    rw [hsame] at hanswer
    refine not_answered h (t := t) (by simp [hrest]) r ?_
    rwa [Worker.next_process_none hrest hstart] at hanswer

/-- What is mounted is unmounted. -/
theorem handled (h : Worker.Inv (client D S) noMounts s) (hm : MountInv s)
    (he : (system D S).Enabled s .process) {t : Worker.Task (Op D S)} {m : Key}
    (hop : t.op = .umount m) (hlive : live s.natives m ≠ none) : Handled s t m := by
  obtain ⟨-, -, -, -, -, ⟨hanswers, -⟩, -⟩ := h.phase.free he.1
  obtain ⟨info, hinfo⟩ := Option.ne_none_iff_exists'.1 hlive
  have hjs := hinfo
  rw [← hm.js_eq hanswers] at hjs
  simp [Handled, hinfo, start, hop, lookup, hjs, MountInfo.device]

/-- A step is correct exactly if only what is mounted is unmounted. -/
theorem correct_iff_umountsLive (h : Worker.Inv (client D S) noMounts s) (hm : MountInv s)
    {e : Event D S} (he : (system D S).Enabled s e) (hcontract : Contract s e) :
    Correct s e ↔ UmountsLive s e := by
  constructor
  · intro hc
    cases e with
    | process =>
      intro t ht m hop hlive
      exact not_handled h hm he ht hop hlive (hc.handled rfl t ht m hop)
    | _ => trivial
  · intro hlive
    refine ⟨hm.faithful, (hm.next h he hcontract hlive).faithful, ?_, ?_⟩
    · rintro rfl t ht m hop
      exact handled h hm he hop (hlive t ht m hop)
    · rintro rfl t r m hread hop
      rw [Worker.next_wake hread]
      simp [client, done, hop]

theorem along_correct_of_inv {es : List (Event D S)} (h : Worker.Inv (client D S) noMounts s)
    (hm : MountInv s) (hrun : (system D S).IsRun s es)
    (hcontract : (system D S).Along Contract s es) :
    (system D S).Along Correct s es ↔ (system D S).Along UmountsLive s es := by
  induction es generalizing s with
  | nil => rfl
  | cons e es ih =>
    have hstep := correct_iff_umountsLive h hm hrun.1 hcontract.1
    refine ⟨fun ⟨hc, hcs⟩ => ⟨hstep.1 hc, ?_⟩, fun ⟨hl, hls⟩ => ⟨hstep.2 hl, ?_⟩⟩
    · have hnext := hm.next h hrun.1 hcontract.1 (hstep.1 hc)
      exact (ih (h.next hrun.1) hnext hrun.2 hcontract.2).1 hcs
    · have hnext := hm.next h hrun.1 hcontract.1 hl
      exact (ih (h.next hrun.1) hnext hrun.2 hcontract.2).2 hls

/-- All along a run, the mount table is what is mounted, and unmounting is handled
    as it should be, exactly if only what is mounted is unmounted. -/
theorem along_correct_iff_along_umountsLive {es : List (Event D S)}
    (hrun : (system D S).IsRun (init D S) es)
    (hcontract : (system D S).Along Contract (init D S) es) :
    (system D S).Along Correct (init D S) es ↔ (system D S).Along UmountsLive (init D S) es :=
  along_correct_of_inv (Worker.inv_init noMounts) mountInv_init hrun hcontract

/-- Mounting the first partition of a disk, and unmounting it. -/
def mountUmount : List (Event Unit Unit) :=
  [.addOperation (.mount (.prim (.number (.fin 0)))
      (some ⟨.undefined, "ext4".toList, .prim (.number (.fin 1))⟩)),
    .process, .writeFn, .writeArgs, .send, .wake, .readFn, .readArgs, .native ⟨0, 1⟩,
    .box (.lock ()), .box (.store ()), .box (.send ()), .box .wake, .callbackReturn, .leave,
    .box .ret, .box .post, .box (.acquire ()), .box (.unlock ()), .loop,
    .addOperation (.umount (mountpoint 1)), .process]

theorem along_correct_mountUmount :
    (system Unit Unit).IsRun (init Unit Unit) mountUmount ∧
      (system Unit Unit).Along Contract (init Unit Unit) mountUmount ∧
      (system Unit Unit).Along Correct (init Unit Unit) mountUmount := by
  have hrun : (system Unit Unit).IsRun (init Unit Unit) mountUmount := by
    refine ⟨.inl rfl, ⟨rfl, nofun, .inl ⟨rfl, rfl⟩⟩, ⟨_, rfl⟩, ⟨_, rfl⟩, rfl, ⟨rfl, rfl⟩, rfl,
      ⟨_, rfl⟩, ⟨_, rfl⟩, ⟨trivial, ⟨rfl, _, rfl⟩, nofun⟩, ⟨trivial, ⟨_, rfl⟩, nofun⟩,
      ⟨trivial, ⟨_, rfl⟩, nofun⟩, ⟨trivial, ⟨rfl, rfl⟩, fun _ => rfl⟩, ⟨_, _, rfl⟩, rfl, ?_⟩
    exact ⟨⟨trivial, ⟨_, _, rfl⟩, fun _ => rfl⟩, ⟨trivial, ⟨_, rfl⟩, fun _ => rfl⟩,
      ⟨trivial, ⟨Nat.one_pos, _, rfl⟩, nofun⟩, ⟨trivial, ⟨_, rfl⟩, nofun⟩, ⟨rfl, rfl⟩, .inl rfl,
      ⟨rfl, nofun, .inl ⟨rfl, rfl⟩⟩, trivial⟩
  have hcontract : (system Unit Unit).Along Contract (init Unit Unit) mountUmount :=
    ⟨trivial, trivial, trivial, trivial, trivial, trivial, trivial, trivial,
      fun _ _ _ _ _ _ _ _ => ⟨rfl, nofun⟩, trivial, trivial, trivial, trivial, trivial, trivial,
      trivial, trivial, trivial, trivial, trivial, trivial, trivial, trivial⟩
  refine ⟨hrun, hcontract, (along_correct_iff_along_umountsLive hrun hcontract).2 ?_⟩
  refine ⟨trivial, fun t ht m hop => ?_, trivial, trivial, trivial, trivial, trivial, trivial,
    trivial, trivial, trivial, trivial, trivial, trivial, trivial, trivial, trivial, trivial,
    trivial, trivial, trivial, fun t ht m hop => ?_, trivial⟩
  · cases ht
    cases hop
  · cases ht
    cases hop
    exact nofun

/-- Unmounting an inherited property. -/
def umountInherited : List (Event Unit Unit) :=
  [.addOperation (.umount "toString".toList), .process]

/-- It unmounts the first disk. -/
theorem not_along_correct_umountInherited :
    (system Unit Unit).IsRun (init Unit Unit) umountInherited ∧
      (system Unit Unit).Along Contract (init Unit Unit) umountInherited ∧
      ¬(system Unit Unit).Along Correct (init Unit Unit) umountInherited := by
  refine ⟨⟨.inl rfl, ⟨rfl, nofun, .inl ⟨rfl, rfl⟩⟩, trivial⟩, ⟨trivial, trivial, trivial⟩, ?_⟩
  rintro ⟨-, hc, -⟩
  obtain ⟨hpassed, -⟩ := hc.handled rfl _ rfl _ rfl
  cases hpassed

end Lkl

end NodeLkl
