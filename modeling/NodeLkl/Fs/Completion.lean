import NodeLkl.Fs.Spec

/-!
# Calls may always complete

A file may be read, a directory listed or a buffer written for as long as the kernel
pleases. But whatever a call has done, it completes if its system calls fail from then
on (`Call.exists_completes`): given an error, no callback goes round its loop again.
-/

namespace NodeLkl

namespace Fs

open EventLoop (issue defer answer Budget)

open EventLoop.Budget

variable {host : Host}

/-! ## How much callbacks make happen -/

/-- Bounds on what a callback makes happen: given an error, and given anything. -/
def Cb.costs : Cb → ℕ × ℕ
  | .fstat k _ => (k.costs.1 + k.costs.2, k.costs.1 + k.costs.2)
  | .readWrapper k _ | .writeWrapper k _ => k.costs
  | .readFileAfterOpen => (0, 4)
  | .readFileAfterStat | .readFileAfterRead | .writeAll _ _ _ _ _ _ | .listdir _ _ _ _ => (1, 2)
  | .writeFileAfterOpen _ _ _ | .readdirAfterOpen _ => (0, 2)
  | .truncateOncomplete _ => (1, 1)
  | _ => (0, 0)

def budget : Budget Cb := ⟨fun k => k.costs.1, fun k => k.costs.2⟩

section Parts

variable {n : ℕ}

theorem behaves_callback (a : Args) : budget.Behaves n (callback host a) := behaves_answer _ _

theorem behaves_alloc (c : Cell) : budget.Behaves n (alloc c) :=
  behaves_of_frame fun _ => ⟨rfl, rfl, rfl⟩

theorem behaves_getBuf (a : Addr) : budget.Behaves n (getBuf a) :=
  behaves_of_frame fun _ => ⟨rfl, rfl, rfl⟩

theorem behaves_getContext : budget.Behaves n getContext :=
  behaves_of_frame fun _ => ⟨rfl, rfl, rfl⟩

theorem behaves_modifyContext (f : ReadFileContext → ReadFileContext) :
    budget.Behaves n (modifyContext f) :=
  behaves_of_frame fun _ => ⟨rfl, rfl, rfl⟩

theorem behaves_slice (buffer : Addr) (start stop : ℤ) :
    budget.Behaves n (slice buffer start stop) :=
  behaves_of_frame fun _ => ⟨rfl, rfl, rfl⟩

theorem behaves_get : budget.Behaves n (get : Js Loop) := behaves_of_frame fun _ => ⟨rfl, rfl, rfl⟩

theorem behaves_ofExcept {α : Type} (x : Except Err α) : budget.Behaves n (ofExcept x : Js α) :=
  behaves_of_frame fun l => by simp

theorem behaves_transfer (atPosition : Slice → ℤ → Syscall) (sequential : Slice → Syscall)
    (buffer : Addr) (offset length : ℤ) (position : Option ℤ) {k : Cb} (h : k.costs.1 < n) :
    budget.Behaves n (Binding.transfer atPosition sequential buffer offset length position k) :=
  (behaves_slice _ _ _).after fun _ => behaves_issue _ h

end Parts

/-- The file is read once more. -/
theorem behaves_readFile_read : budget.Behaves 2 ReadFileContext.read := by
  refine behaves_getContext.after fun context => ?_
  split
  · refine (behaves_alloc _).after fun buffer => (behaves_modifyContext _).after fun _ => ?_
    exact behaves_transfer _ _ _ _ _ _ Nat.one_lt_two
  · exact behaves_transfer _ _ _ _ _ _ Nat.one_lt_two

theorem behaves_readFile_close (err : Option Err) :
    budget.Behaves 1 (ReadFileContext.close err) := by
  refine (behaves_modifyContext _).after fun _ => behaves_getContext.after fun context => ?_
  split
  · exact behaves_defer _ Nat.one_pos
  · exact behaves_issue _ Nat.one_pos

theorem behaves_readFileAfterStat (a : Args) : budget.Behaves 2 (readFileAfterStat host a) := by
  rw [readFileAfterStat]
  split
  · exact (behaves_readFile_close _).mono (Nat.le_succ 1)
  · refine (behaves_modifyContext _).after fun _ => ?_
    split
    · exact (behaves_modifyContext _).after fun _ => behaves_readFile_read
    · split
      · exact (behaves_readFile_close _).mono (Nat.le_succ 1)
      · exact (behaves_alloc _).after fun _ => (behaves_modifyContext _).after fun _ =>
          behaves_readFile_read
  · exact behaves_throw _

theorem behaves_readFileAfterRead (a : Args) : budget.Behaves 2 (readFileAfterRead a) := by
  rw [readFileAfterRead]
  split
  · exact (behaves_readFile_close _).mono (Nat.le_succ 1)
  · dsimp only
    split
    · exact (behaves_readFile_close _).mono (Nat.le_succ 1)
    · refine (behaves_modifyContext _).after fun _ => behaves_getContext.after fun context => ?_
      split
      · split
        · exact (behaves_readFile_close _).mono (Nat.le_succ 1)
        · exact behaves_readFile_read
      · exact (behaves_slice _ _ _).after fun _ => (behaves_modifyContext _).after fun _ =>
          behaves_readFile_read

theorem behaves_readFileAfterClose (a : Args) : budget.Behaves 0 (readFileAfterClose host a) := by
  refine behaves_getContext.after fun context => ?_
  split
  · exact behaves_callback _
  · refine behaves_get.after fun l => ?_
    split
    · exact behaves_callback _
    · split
      · rw [tryToString]
        split <;> exact behaves_callback _
      · exact behaves_callback _

theorem behaves_writeAll (fd : ℤ) (isUserFd : Bool) (buffer : Addr) (offset length : ℤ)
    (position : Option ℤ) : budget.Behaves 2 (writeAll fd isUserFd buffer offset length position) :=
  (behaves_getBuf _).after fun _ => behaves_transfer _ _ _ _ _ _ Nat.one_lt_two

theorem behaves_writeFd (data : Data) (encoding : Option Encoding) (flag : Flag) (fd : ℤ)
    (isUserFd : Bool) : budget.Behaves 2 (writeFd host data encoding flag fd isUserFd) :=
  (behaves_ofExcept _).after fun _ => (behaves_alloc _).after fun _ => behaves_writeAll _ _ _ _ _ _

/-! ## Callbacks -/

/-- A callback keeps to its bounds and takes nothing out of the queue: `.1` given an error,
    `.2` given anything. -/
theorem behaves_apply (k : Cb) :
    (∀ err vs, budget.Behaves k.costs.1 (apply host k ⟨some err, vs⟩)) ∧
      ∀ a, budget.Behaves k.costs.2 (apply host k a) := by
  -- A callback that wraps another one may call it, the one inside being bounded by induction.
  induction k with
  | user =>
    simp only [apply]
    exact ⟨fun _ _ => behaves_callback _, fun _ => behaves_callback _⟩
  | fstat k buf ih =>
    simp only [apply]
    constructor
    · intro err vs
      exact (ih.1 err []).bind fun _ => behaves_get.after fun _ => ih.2 _
    · intro a
      split
      · exact (ih.1 _ _).bind fun _ => behaves_get.after fun _ => ih.2 _
      · exact (behaves_get.after fun _ => ih.2 _).mono (Nat.le_add_left _ _)
  | fstatUnrequested buf =>
    simp only [apply]
    exact ⟨fun _ _ => behaves_throw _, fun _ => behaves_throw _⟩
  | readWrapper k buffer ih | writeWrapper k buffer ih =>
    simp only [apply]
    exact ⟨fun err vs => (behaves_getBuf _).after fun _ => ih.1 _ _,
      fun a => (behaves_getBuf _).after fun _ => ih.2 _⟩
  | readString encoding buffer =>
    simp only [apply]
    refine ⟨fun err vs => behaves_callback _, fun a => ?_⟩
    split
    · exact behaves_callback _
    · split
      · refine (behaves_getBuf _).after fun _ => ?_
        rw [tryToStringWithEnd]
        split <;> exact behaves_callback _
      · exact behaves_callback _
  | readFileAfterOpen =>
    simp only [apply]
    refine ⟨fun err vs => behaves_callback _, fun a => ?_⟩
    rw [readFileAfterOpen]
    split
    · exact behaves_callback _
    · refine (behaves_modifyContext _).after fun _ => (behaves_alloc _).after fun _ => ?_
      exact behaves_issue _ (Nat.lt_succ_self 3)
  | readFileAfterStat =>
    simp only [apply]
    exact ⟨fun err vs => behaves_readFile_close _, behaves_readFileAfterStat⟩
  | readFileAfterRead =>
    simp only [apply]
    exact ⟨fun err vs => behaves_readFile_close _, behaves_readFileAfterRead⟩
  | readFileAfterClose =>
    simp only [apply]
    exact ⟨fun err vs => behaves_readFileAfterClose _, behaves_readFileAfterClose⟩
  | writeFileAfterOpen data encoding flag =>
    simp only [apply]
    refine ⟨fun err vs => behaves_callback _, fun a => ?_⟩
    split
    · exact behaves_callback _
    · exact behaves_writeFd _ _ _ _ _
  | writeAll fd isUserFd buffer offset length position =>
    simp only [apply]
    constructor
    · intro err vs
      split
      · exact behaves_callback _
      · exact behaves_issue _ Nat.one_pos
    · intro a
      split
      · split
        · exact behaves_callback _
        · exact behaves_issue _ Nat.two_pos
      · split
        · split
          · exact behaves_callback _
          · exact behaves_issue _ Nat.two_pos
        · exact behaves_writeAll _ _ _ _ _ _
  | writeAllAfterClose writeErr | truncateAfterClose er =>
    simp only [apply]
    exact ⟨fun _ _ => behaves_callback _, fun _ => behaves_callback _⟩
  | truncateAfterOpen len =>
    simp only [apply]
    refine ⟨fun err vs => behaves_callback _, fun a => ?_⟩
    split
    · exact behaves_callback _
    · exact behaves_throw _
  | truncateOncomplete fd =>
    simp only [apply]
    exact ⟨fun err vs => behaves_issue _ Nat.one_pos, fun a => behaves_issue _ Nat.one_pos⟩
  | readdirAfterOpen encoding =>
    simp only [apply]
    refine ⟨fun err vs => behaves_callback _, fun a => ?_⟩
    split
    · exact behaves_callback _
    · exact (behaves_alloc _).after fun _ => behaves_issue _ Nat.one_lt_two
  | listdir fd buf encoding result =>
    simp only [apply]
    refine ⟨fun err vs => behaves_issue _ Nat.one_pos, fun a => ?_⟩
    split
    · exact behaves_issue _ Nat.two_pos
    · split
      · exact (behaves_getBuf _).after fun _ => behaves_issue _ Nat.one_lt_two
      · exact behaves_issue _ Nat.two_pos
  | readdirAfterClose encoding err result =>
    have hlast : ∀ a, budget.Behaves 0 (apply host (.readdirAfterClose encoding err result) a) := by
      intro a
      rw [apply]
      split
      · exact behaves_callback _
      · exact Behaves.tryCatch ((behaves_ofExcept _).after fun _ => behaves_callback _)
          fun _ => behaves_callback _
    exact ⟨fun _ _ => hlast _, hlast⟩

theorem bounds_budget : budget.Bounds (program host) (.error 0) where
  fits call := by cases call <;> trivial
  failed k := ((behaves_apply k).1 _ _).allows
  deferred k a := ((behaves_apply k).2 a).allows

/-- Whatever a call has done, it may complete. -/
theorem Call.exists_completes {c : Call} {l : Loop} (hc : c.Accepted host)
    (hl : (system host).Reachable (c.start host).2 l) :
    ∃ l', (system host).Reachable l l' ∧ c.Completes host l' := by
  obtain ⟨l', hreach, hover⟩ := bounds_budget.exists_halted (p := program host) l
  exact ⟨l', hreach, hc, hl.trans hreach, hover⟩

end Fs

end NodeLkl
