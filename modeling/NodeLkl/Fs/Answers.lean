import NodeLkl.Fs.Completion
import NodeLkl.Fs.ReadFile
import NodeLkl.Fs.Readdir
import NodeLkl.Fs.WriteFile

/-!
# Answers and file descriptors

When the calls of the functions of `fs` answer once (`answeredOnce_iff_answers`), and
when they take care of file descriptors (`kept_iff_keeps`), in terms of what the
system calls they issued gave. Both are as meant, but for the following.

* A call that asks for the status of a file, and fails to have it, goes on as if it had
  been had: `fstat` answers twice, and `readFile` closes the file, reads it, closes it
  again and answers twice.
* `readdir` answers twice if the callback throws when it is given the names.
* `writeFile` and `appendFile` never answer, and do not close the file they opened, if
  the data cannot be converted to a buffer; `truncate` neither, whenever the file could be
  opened.
-/

namespace NodeLkl

namespace Fs

variable {host : Host} {c : Call} {l : Loop}

/-- A host that converts nothing, with a callback that does not throw. -/
def plainHost : Host where
  kMaxLength := 0x3fffffff
  isEncoding _ := true
  bufferToString _ _ := .ok []
  bufferFrom _ _ := .ok []
  throws _ := none

theorem completes_of_run {es : List Event} (haccepted : (c.start host).1 = .ok ())
    (hrun : (system host).IsRun (c.start host).2 es)
    (hinert : ((system host).run (c.start host).2 es).Inert) :
    c.Completes host ((system host).run (c.start host).2 es) where
  accepted e he := by
    rw [haccepted] at he
    cases he
  reachable := System.reachable_run hrun
  halted := hinert.not_enabled

/-- Reading a file of one byte. -/
def readSmall : Call := .readFile (.string ['a']) .missing

/-- The file is opened, found to be a regular file of one byte, read, and closed. -/
def readSmallRun : List Event :=
  [.complete (.ok 3 [] .zero),
    .complete (.ok 0 [] { LklStat.zero with stMode := 0o100644, stSize := 1 }),
    .complete (.ok 1 [120] .zero), .complete (.ok 0 [] .zero)]

/-- The state it ends in. -/
def readSmallEnd : Loop := (system plainHost).run (readSmall.start plainHost).2 readSmallRun

theorem completes_readSmall : readSmall.Completes plainHost readSmallEnd := by
  refine completes_of_run rfl ?_ ⟨rfl, rfl⟩
  exact ⟨⟨rfl, rfl, _, _, _, rfl, trivial⟩, ⟨rfl, rfl, _, _, _, rfl, trivial⟩,
    ⟨rfl, rfl, _, _, _, rfl, rfl, Nat.le_refl _⟩, ⟨rfl, rfl, _, _, _, rfl, trivial⟩, trivial⟩

theorem not_fstatFailed_readSmall : ¬FstatFailed readSmallEnd.replies := by
  have hfail : failure plainHost readSmall readSmallEnd.replies = none := rfl
  exact not_fstatFailed hfail

/-! ## Answers -/

/-- Whatever a call has done, it may complete; and once it is over, it has answered once if,
    and only if, none of this happened. -/
theorem answeredOnce_iff_answers (hc : c.Accepted host)
    (hl : (system host).Reachable (c.start host).2 l) :
    (∃ l', (system host).Reachable l l' ∧ (system host).Halted l') ∧
      ((system host).Halted l → (AnsweredOnce host c l ↔ c.Answers host l.replies)) := by
  constructor
  · obtain ⟨l', hreach, hcompletes⟩ := Call.exists_completes hc hl
    exact ⟨l', hreach, hcompletes.halted⟩
  · intro hover
    have hl : c.Completes host l := ⟨hc, hl, hover⟩
    cases c with
    | fstat fd => exact answeredOnce_fstat_iff hl
    | readFile path options => exact (readFile_complete hl).1
    | readdir path options => exact (readdir_complete hl).1
    | writeFile path data options => exact (writeFile_complete hl).1
    | appendFile path data options => exact (appendFile_complete hl).1
    | truncate path len => exact (truncate_complete hl).1
    | _ => exact iff_of_true (answeredOnce_of_simple trivial hl) trivial

theorem answeredOnce_readSmall :
    readSmall.Completes plainHost readSmallEnd ∧
      AnsweredOnce plainHost readSmall readSmallEnd := by
  obtain ⟨hc, hl, hover⟩ := completes_readSmall
  refine ⟨completes_readSmall, ((answeredOnce_iff_answers hc hl).2 hover).2 ?_⟩
  exact fun h => absurd h not_fstatFailed_readSmall

/-- The state `fs.fstat` ends in, given a file descriptor that is not one (`EBADF`). -/
def fstatBadEnd : Loop :=
  (system plainHost).run ((Call.fstat 3).start plainHost).2 [.complete (.error 9)]

/-- The callback is called twice. -/
theorem not_answeredOnce_fstatBad :
    (Call.fstat 3).Completes plainHost fstatBadEnd ∧
      ¬AnsweredOnce plainHost (.fstat 3) fstatBadEnd := by
  constructor
  · exact completes_of_run rfl ⟨⟨rfl, rfl, _, _, _, rfl, trivial⟩, trivial⟩ ⟨rfl, rfl⟩
  · rintro ⟨a, ha, -⟩
    have hlength : fstatBadEnd.answers.length = 2 := rfl
    rw [ha] at hlength
    simp at hlength

/-! ## File descriptors -/

/-- Once it is over, a call has taken care of file descriptors if, and only if, none of this
    happened. -/
theorem kept_iff_keeps (hc : c.OpensAndCloses) (hl : c.Completes host l) :
    Kept c l.issued l.replies ↔ c.Keeps host l.replies := by
  cases c with
  | readFile path options => exact (readFile_complete hl).2
  | readdir path options => exact iff_of_true (readdir_complete hl).2 trivial
  | writeFile path data options => exact (writeFile_complete hl).2
  | appendFile path data options => exact (appendFile_complete hl).2
  | truncate path len => exact (truncate_complete hl).2
  | _ => exact hc.elim

theorem kept_readSmall :
    readSmall.Completes plainHost readSmallEnd ∧
      Kept readSmall readSmallEnd.issued readSmallEnd.replies := by
  have hc : readSmall.OpensAndCloses := trivial
  refine ⟨completes_readSmall, (kept_iff_keeps hc completes_readSmall).2 ?_⟩
  exact fun _ => not_fstatFailed_readSmall

/-- The state `fs.truncate` ends in, given the path of a file that can be opened. -/
def truncateEnd : Loop :=
  (system plainHost).run ((Call.truncate (.string ['a']) 0).start plainHost).2
    [.complete (.ok 3 [] .zero)]

/-- The file is not closed. -/
theorem not_kept_truncate :
    (Call.truncate (.string ['a']) 0).Completes plainHost truncateEnd ∧
      ¬Kept (.truncate (.string ['a']) 0) truncateEnd.issued truncateEnd.replies := by
  constructor
  · exact completes_of_run rfl ⟨⟨rfl, rfl, _, _, _, rfl, trivial⟩, trivial⟩ ⟨rfl, rfl⟩
  · intro hkept
    have hissued : truncateEnd.issued = [.openat (.string ['a']) oRdwr 0o666] := rfl
    have hnc : NoClose truncateEnd.issued := by
      rw [hissued]
      exact noClose_nil.concat (by simp)
    have hopened : opened truncateEnd.replies = [3] := rfl
    exact hnc.not_kept (by simp [hopened]) hkept

end Fs

end NodeLkl
