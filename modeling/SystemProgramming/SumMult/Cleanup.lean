import Mathlib.Logic.Function.Basic
import SystemProgramming.SumMult.Processes

set_option autoImplicit false

/-! # What the parent of HW2 leaves behind

`main` makes the two FIFOs, allocates the array, forks child 2 and child 1, feeds them and waits for
them, and it has some ten ways out. Each system call of the parent is one step of `mainMachine`, and
its label says whether the call succeeds. A child may end at any time; what the processes write and
read is in `Processes`, where every call succeeds (`mainCall_of_sumStep`).

The signals are `SIGCHLD`, `SIGINT` and `SIGTSTP`, which may come at any time, the last two also to
a child, which has inherited the handlers and removes the FIFOs as well, and `SIGPIPE`, which ends
the parent in a `write`. `unlink` succeeds, and descriptors and memory go with the process. -/

namespace SystemProgramming.SumMult

open Function

/-- The two children. -/
inductive Child
  | child1
  | child2
deriving DecidableEq

/-- What has become of a child. -/
inductive ChildState
  | notForked
  | running
  /-- in `sigint_handler` or `sigtstp_handler`, about to remove FIFO1 or FIFO2 -/
  | unlinking1
  | unlinking2
  /-- behind them -/
  | exiting
  /-- with a `SIGKILL` that it cannot catch -/
  | killed
  /-- ended, and not waited for -/
  | zombie
  | reaped
deriving DecidableEq

/-- What leads to an exit of the parent. -/
inductive WayOut
  | mkfifoFailed
  | mallocFailed
  | forkFailed (child : Child)
  /-- an `open` or a `write` -/
  | callFailed
  /-- by `SIGINT` or `SIGTSTP` -/
  | interrupted
  /-- the timeout; the `waitpid` of `sigkill_handler` has ended well, or has been interrupted -/
  | timedOut
  | waitInterrupted
  /-- both children have been counted -/
  | finished
deriving DecidableEq

/-- The call that the parent is about to make, with the loop counters. -/
inductive MainPC
  | mkfifo1
  | mkfifo2
  /-- `mkfifo` of FIFO2 has failed -/
  | unlinkOnlyFifo1
  | malloc
  | fork (child : Child)
  | openFifo2
  | writeFifo2 (i : ℕ)
  | openFifo1
  | writeFifo1 (i : ℕ)
  /-- the test of `child_counter` in the loop, and the `sleep` behind it -/
  | testing (timeout : ℕ)
  | sleeping (timeout : ℕ)
  | unlinkFifo1 (way : WayOut)
  | unlinkFifo2 (way : WayOut)
  /-- the two calls of `sigkill_handler` -/
  | sigkill (zombie : Child)
  | waitZombie (zombie : Child)
  | leaving (way : WayOut)
  | exited
deriving DecidableEq

/-- Where `main` is, the FIFOs, the children, and the counter of the handler. -/
structure MainState where
  pc : MainPC
  /-- `sigchld_handler` is running -/
  inHandler : Bool
  /-- the FIFO that `mkfifo` has made is there -/
  fifo1 : Bool
  fifo2 : Bool
  child : Child → ChildState
  childCounter : ℕ

/-- The effect of `kill(pid, SIGKILL)`; for a child that has ended it has none. -/
def ChildState.kill : ChildState → ChildState
  | running | unlinking1 | unlinking2 | exiting => killed
  | c => c

/-- The next call of the parent, with its outcome where it can fail. -/
def mainCall (size : ℕ) (succeeds : Bool) (s : MainState) : Option MainState :=
  match s.pc with
  | .mkfifo1 =>
      if succeeds then some { s with fifo1 := true, pc := .mkfifo2 }
      else some { s with pc := .leaving .mkfifoFailed }
  | .mkfifo2 =>
      if succeeds then some { s with fifo2 := true, pc := .malloc }
      else some { s with pc := .unlinkOnlyFifo1 }
  | .unlinkOnlyFifo1 => some { s with fifo1 := false, pc := .leaving .mkfifoFailed }
  | .malloc =>
      if succeeds then some { s with pc := .fork .child2 }
      else some { s with pc := .leaving .mallocFailed }
  | .fork .child2 =>
      if succeeds then some { s with child := update s.child .child2 .running, pc := .fork .child1 }
      else some { s with pc := .leaving (.forkFailed .child2) }
  | .fork .child1 =>
      if succeeds then some { s with child := update s.child .child1 .running, pc := .openFifo2 }
      else some { s with pc := .leaving (.forkFailed .child1) }
  | .openFifo2 =>
      if succeeds then some { s with pc := .writeFifo2 0 }
      else some { s with pc := .unlinkFifo1 .callFailed }
  | .writeFifo2 i =>
      -- behind the array the command is written
      if succeeds then some { s with pc := if i < size then .writeFifo2 (i + 1) else .openFifo1 }
      else some { s with pc := .unlinkFifo1 .callFailed }
  | .openFifo1 =>
      if succeeds then some { s with pc := .writeFifo1 0 }
      else some { s with pc := .unlinkFifo1 .callFailed }
  | .writeFifo1 i =>
      if i < size then
        if succeeds then some { s with pc := .writeFifo1 (i + 1) }
        else some { s with pc := .unlinkFifo1 .callFailed }
      else some { s with pc := .testing 0 }
  | .testing timeout =>
      if s.childCounter < 2 then some { s with pc := .sleeping timeout }
      else some { s with pc := .unlinkFifo1 .finished }
  | .sleeping timeout =>
      if timeout + 1 > 3 then some { s with pc := .unlinkFifo1 .timedOut }
      else some { s with pc := .testing (timeout + 1) }
  | .unlinkFifo1 way => some { s with fifo1 := false, pc := .unlinkFifo2 way }
  | .unlinkFifo2 way =>
      -- `child_pid1` is positive, and `sigkill_handler` does not return: the call of it for
      -- `child_pid2` is never reached
      if way = .timedOut then some { s with fifo2 := false, pc := .sigkill .child1 }
      else some { s with fifo2 := false, pc := .leaving way }
  | .sigkill zombie =>
      some { s with child := update s.child zombie (s.child zombie).kill, pc := .waitZombie zombie }
  | .waitZombie zombie =>
      if succeeds then
        match s.child zombie with
        | .zombie =>
            some { s with child := update s.child zombie .reaped, pc := .leaving .timedOut }
        | .reaped => some { s with pc := .leaving .timedOut }
        | _ => none
      else
        -- `SIGCHLD` interrupts the call, and its handler runs
        some { s with inHandler := true, pc := .leaving .waitInterrupted }
  | .leaving _ => some { s with pc := .exited }
  | .exited => none

/-- A step of the parent, a signal, or a step of a child. -/
inductive MainEvent
  | call (succeeds : Bool)
  /-- the parent writes where nobody reads -/
  | sigpipe
  /-- `SIGINT` or `SIGTSTP` for the parent -/
  | interrupt
  | sigchld
  /-- a turn of the loop in `sigchld_handler` -/
  | reap (child : Child)
  | endHandler
  /-- `SIGINT` or `SIGTSTP` for a child, and the calls of its handler -/
  | interruptChild (child : Child)
  | unlinkInChild (child : Child)
  | endChild (child : Child)
deriving DecidableEq

/-- The parent is about to write to a FIFO. -/
def MainPC.writes (size : ℕ) : MainPC → Bool
  | writeFifo2 _ => true
  | writeFifo1 i => i < size
  | _ => false

/-- The child process has not terminated. -/
def ChildState.isAlive : ChildState → Bool
  | running | unlinking1 | unlinking2 | exiting | killed => true
  | _ => false

/-- What an event does to the state. -/
def mainNext (size : ℕ) (s : MainState) : MainEvent → Option MainState
  | .call succeeds => if s.inHandler then none else mainCall size succeeds s
  | .sigpipe =>
      if s.inHandler = false ∧ s.pc.writes size = true then some { s with pc := .exited }
      else none
  | .interrupt =>
      if s.pc = .exited then none
      else some { s with pc := .unlinkFifo1 .interrupted, inHandler := false }
  | .sigchld =>
      if s.pc = .exited ∨ s.inHandler = true then none else some { s with inHandler := true }
  | .reap child =>
      if s.inHandler = true ∧ s.child child = .zombie then
        some { s with child := update s.child child .reaped, childCounter := s.childCounter + 1 }
      else none
  | .endHandler =>
      if s.inHandler = true ∧ s.child .child1 ≠ .zombie ∧ s.child .child2 ≠ .zombie then
        some { s with inHandler := false }
      else none
  | .interruptChild child =>
      if s.child child = .running then
        some { s with child := update s.child child .unlinking1 }
      else none
  | .unlinkInChild child =>
      match s.child child with
      | .unlinking1 => some { s with fifo1 := false, child := update s.child child .unlinking2 }
      | .unlinking2 => some { s with fifo2 := false, child := update s.child child .exiting }
      | _ => none
  | .endChild child =>
      if (s.child child).isAlive then some { s with child := update s.child child .zombie }
      else none

/-- The parent behind the check of the size. -/
def sizeAccepted : MainState :=
  { pc := .mkfifo1, inHandler := false, fifo1 := false, fifo2 := false,
    child := fun _ => .notForked, childCounter := 0 }

/-- The parent behind the test of the array size, with its children and its signals. -/
def mainMachine (size : ℕ) : Machine MainState MainEvent where
  init s := s = sizeAccepted
  next := mainNext size

/-- Where the parent of `Processes` is. -/
def ParentPC.toMain : ParentPC → MainPC
  | openFifo2 => .openFifo2
  | writeArray2 i => .writeFifo2 i
  | closeFifo2 | openFifo1 => .openFifo1
  | writeArray1 i => .writeFifo1 i
  | waiting => .testing 0

/-- A step of it is a call that succeeds, or no call of this model. -/
theorem mainCall_of_sumStep {array : List (BitVec 32)} {t t' : SumState}
    (h : SumStep array t .parent t') {s : MainState} (hpc : s.pc = t.parent.toMain) :
    t'.parent.toMain = t.parent.toMain ∨
      mainCall array.length true s = some { s with pc := t'.parent.toMain } := by
  cases h with
  | parentEnters2 | parentEnters1 => exact Or.inl rfl
  | parentCloses2 ht => exact Or.inl (by rw [ht]; rfl)
  | parentOpens2 ht | parentOpens1 ht =>
      rw [ht] at hpc
      exact Or.inr (by rw [mainCall, hpc]; rfl)
  | parentWrites2 i x fifo2 ht hx =>
      have hi : i < array.length := (List.getElem?_eq_some_iff.1 hx).1
      rw [ht] at hpc
      exact Or.inr (by rw [mainCall, hpc]; simp [ParentPC.toMain, hi])
  | parentCommands i fifo2 ht hi =>
      rw [ht] at hpc
      exact Or.inr (by rw [mainCall, hpc]; simp [ParentPC.toMain, Nat.not_lt.2 hi])
  | parentWrites1 i x fifo1 ht hx =>
      have hi : i < array.length := (List.getElem?_eq_some_iff.1 hx).1
      rw [ht] at hpc
      exact Or.inr (by rw [mainCall, hpc]; simp [ParentPC.toMain, hi])
  | parentCloses1 i ht hi =>
      rw [ht] at hpc
      exact Or.inr (by rw [mainCall, hpc]; simp [ParentPC.toMain, Nat.not_lt.2 hi])

/-! ## What is left -/

namespace MainState

/-- Both FIFOs have been removed. -/
def Removed (s : MainState) : Prop := s.fifo1 = false ∧ s.fifo2 = false

/-- If the child was forked, it has ended and has been waited for. -/
def Gone (s : MainState) (child : Child) : Prop :=
  s.child child = .notForked ∨ s.child child = .reaped

/-- Every child that was forked has terminated and been reaped. -/
def Reaped (s : MainState) : Prop := ∀ child, s.Gone child

/-- No child has been forked. -/
def NoneForked (s : MainState) : Prop := ∀ child, s.child child = .notForked

/-- The number of children that have been reaped. -/
def reapedCount (s : MainState) : ℕ :=
  (if s.child .child1 = .reaped then 1 else 0) + (if s.child .child2 = .reaped then 1 else 0)

theorem NoneForked.reaped {s : MainState} (h : s.NoneForked) : s.Reaped :=
  fun child => Or.inl (h child)

theorem reaped_of_children {s : MainState} (h1 : s.Gone .child1) (h2 : s.Gone .child2) :
    s.Reaped := by
  intro child
  cases child with
  | child1 => exact h1
  | child2 => exact h2

theorem reapedCount_mono {s s' : MainState}
    (h : ∀ child, s.child child = .reaped → s'.child child = .reaped) :
    s.reapedCount ≤ s'.reapedCount := by
  have hone : ∀ child, (if s.child child = .reaped then 1 else 0) ≤
      if s'.child child = .reaped then 1 else 0 := by
    intro child
    split
    · next hchild => exact Nat.le_of_eq (if_pos (h child hchild)).symm
    · exact Nat.zero_le _
  exact Nat.add_le_add (hone .child1) (hone .child2)

/-- A zombie that is waited for is counted. -/
theorem reapedCount_update {s s' : MainState} {child : Child} (h : s.child child = .zombie)
    (hs' : s'.child = update s.child child .reaped) : s'.reapedCount = s.reapedCount + 1 := by
  unfold reapedCount
  cases child <;> simp [hs', h]
  omega

theorem reaped_of_count {s : MainState} (h : 2 ≤ s.reapedCount) : s.Reaped := by
  unfold reapedCount at h
  split at h
  · next h1 =>
      split at h
      · next h2 => exact reaped_of_children (.inr h1) (.inr h2)
      · omega
  · split at h <;> omega

end MainState

/-- When the parent has exited, the FIFOs and the children are gone. -/
def NothingLeft (s : MainState) : Prop := s.pc = .exited → s.Removed ∧ s.Reaped

/-- What must have happened before the parent leaves this way, since the code does not do it: the
    children have ended by themselves, or a child has removed the FIFOs in its own handler. -/
def WayOut.Needs : WayOut → MainState → Prop
  | mkfifoFailed, _ | finished, _ => True
  | mallocFailed, _ | forkFailed .child2, _ => False
  | forkFailed .child1, s => s.Removed ∧ s.Reaped
  | callFailed, s | interrupted, s | waitInterrupted, s => s.Reaped
  | timedOut, s => s.Gone .child2

/-- Where the step ends the parent, what its way out needs has happened. -/
def CleanExit (s : MainState) : MainEvent → Prop
  | .call _ => ∀ way, s.pc = .leaving way → way.Needs s
  | .sigpipe => s.Removed ∧ s.Reaped
  | _ => True

/-! ## The outline

One assertion for each program counter. They are about what no child and no handler undoes. -/

/-- The ways out that pass the two calls of `unlink`. -/
def WayOut.unlinks : WayOut → Bool
  | callFailed | interrupted | timedOut | finished => true
  | _ => false

/-- What holds on this way out in front of its last call. -/
def WayOut.Assertion : WayOut → MainState → Prop
  | mkfifoFailed, s => s.NoneForked ∧ s.Removed
  | mallocFailed, s | forkFailed .child2, s => s.NoneForked ∧ s.fifo1 = true
  | forkFailed .child1, _ => True
  | callFailed, s | interrupted, s | waitInterrupted, s => s.Removed
  | timedOut, s => s.Removed ∧ s.child .child1 = .reaped
  | finished, s => s.Removed ∧ 2 ≤ s.childCounter

/-- What holds while `main` is here. -/
def MainPC.Assertion : MainPC → MainState → Prop
  | mkfifo1, s => s.NoneForked ∧ s.Removed
  | mkfifo2, s => s.NoneForked ∧ s.fifo1 = true ∧ s.fifo2 = false
  | unlinkOnlyFifo1, s => s.NoneForked ∧ s.fifo2 = false
  | malloc, s | fork .child2, s => s.NoneForked ∧ s.fifo1 = true
  | fork .child1, s => s.child .child1 = .notForked
  | unlinkFifo1 way, s => way.unlinks = true ∧ (way = .finished → 2 ≤ s.childCounter)
  | unlinkFifo2 way, s =>
      way.unlinks = true ∧ (way = .finished → 2 ≤ s.childCounter) ∧ s.fifo1 = false
  | sigkill zombie, s | waitZombie zombie, s => zombie = .child1 ∧ s.Removed
  | leaving way, s => way.Assertion s
  | _, _ => True

/-- A step that is not the parent's own leaves the parent where it is, makes no FIFO, forks and
    kills nobody and keeps what has been reaped. -/
structure Frame (s s' : MainState) : Prop where
  pc : s'.pc = s.pc
  fifo1 : s'.fifo1 = true → s.fifo1 = true
  fifo2 : s'.fifo2 = true → s.fifo2 = true
  fifo1_stays : s.NoneForked → s'.fifo1 = s.fifo1
  notForked : ∀ child, s.child child = .notForked ↔ s'.child child = .notForked
  reaped : ∀ child, s.child child = .reaped → s'.child child = .reaped
  killed : ∀ child, s'.child child = .killed → s.child child = .killed
  counter : s.childCounter ≤ s'.childCounter

namespace Frame

variable {s s' : MainState}

theorem noneForked (h : Frame s s') (hs : s.NoneForked) : s'.NoneForked :=
  fun child => (h.notForked child).1 (hs child)

theorem fifo1_eq_false (h : Frame s s') (hs : s.fifo1 = false) : s'.fifo1 = false := by
  cases h1 : s'.fifo1 with
  | false => rfl
  | true => rw [h.fifo1 h1] at hs; cases hs

theorem fifo2_eq_false (h : Frame s s') (hs : s.fifo2 = false) : s'.fifo2 = false := by
  cases h2 : s'.fifo2 with
  | false => rfl
  | true => rw [h.fifo2 h2] at hs; cases hs

theorem removed (h : Frame s s') (hs : s.Removed) : s'.Removed :=
  ⟨h.fifo1_eq_false hs.1, h.fifo2_eq_false hs.2⟩

/-- A signal handler begins or ends. -/
theorem of_handler (s : MainState) (inHandler : Bool) :
    Frame s { s with inHandler := inHandler } :=
  ⟨rfl, id, id, fun _ => rfl, fun _ => Iff.rfl, fun _ => id, fun _ => id, Nat.le_refl _⟩

/-- A child that has been forked and not been waited for moves on, and may remove a FIFO. -/
theorem of_move {moved : Child} {c : ChildState} {fifo1 fifo2 : Bool} {childCounter : ℕ}
    (hforked : s.child moved ≠ .notForked) (hunreaped : s.child moved ≠ .reaped)
    (hkilled : c ≠ .killed) (hstays : c ≠ .notForked) (hfifo1 : fifo1 = true → s.fifo1 = true)
    (hfifo2 : fifo2 = true → s.fifo2 = true) (hcounter : s.childCounter ≤ childCounter) :
    Frame s { s with fifo1 := fifo1, fifo2 := fifo2, child := update s.child moved c,
                     childCounter := childCounter } where
  pc := rfl
  fifo1 := hfifo1
  fifo2 := hfifo2
  fifo1_stays hnone := absurd (hnone moved) hforked
  notForked other := by
    by_cases hne : other = moved
    · subst hne
      simp [hforked, hstays]
    · simp [hne]
  reaped other hother := by
    have hne : other ≠ moved := by rintro rfl; exact hunreaped hother
    exact (update_of_ne hne _ _).trans hother
  killed other hother := by
    by_cases hne : other = moved
    · subst hne
      exact absurd ((update_self ..).symm.trans hother) hkilled
    · exact (update_of_ne hne _ _).symm.trans hother
  counter := hcounter

theorem assertion_way (h : Frame s s') {way : WayOut} (hs : way.Assertion s) :
    way.Assertion s' := by
  cases way with
  | mkfifoFailed => exact ⟨h.noneForked hs.1, h.removed hs.2⟩
  | mallocFailed => exact ⟨h.noneForked hs.1, (h.fifo1_stays hs.1).trans hs.2⟩
  | forkFailed child =>
      cases child with
      | child1 => exact trivial
      | child2 => exact ⟨h.noneForked hs.1, (h.fifo1_stays hs.1).trans hs.2⟩
  | callFailed | interrupted | waitInterrupted => exact h.removed hs
  | timedOut => exact ⟨h.removed hs.1, h.reaped _ hs.2⟩
  | finished => exact ⟨h.removed hs.1, Nat.le_trans hs.2 h.counter⟩

/-- The assertions are stable. -/
theorem assertion (h : Frame s s') {pc : MainPC} (hs : pc.Assertion s) : pc.Assertion s' := by
  cases pc with
  | mkfifo1 => exact ⟨h.noneForked hs.1, h.removed hs.2⟩
  | mkfifo2 =>
      exact ⟨h.noneForked hs.1, (h.fifo1_stays hs.1).trans hs.2.1, h.fifo2_eq_false hs.2.2⟩
  | unlinkOnlyFifo1 => exact ⟨h.noneForked hs.1, h.fifo2_eq_false hs.2⟩
  | malloc => exact ⟨h.noneForked hs.1, (h.fifo1_stays hs.1).trans hs.2⟩
  | fork child =>
      cases child with
      | child1 => exact (h.notForked _).1 hs
      | child2 => exact ⟨h.noneForked hs.1, (h.fifo1_stays hs.1).trans hs.2⟩
  | unlinkFifo1 way => exact ⟨hs.1, fun hway => Nat.le_trans (hs.2 hway) h.counter⟩
  | unlinkFifo2 way =>
      exact ⟨hs.1, fun hway => Nat.le_trans (hs.2.1 hway) h.counter, h.fifo1_eq_false hs.2.2⟩
  | sigkill | waitZombie => exact ⟨hs.1, h.removed hs.2⟩
  | leaving way => exact h.assertion_way hs
  | openFifo2 | writeFifo2 | openFifo1 | writeFifo1 | testing | sleeping | exited => exact trivial

theorem counted (h : Frame s s') (hcounter : s'.childCounter = s.childCounter)
    (hs : s.childCounter ≤ s.reapedCount) : s'.childCounter ≤ s'.reapedCount := by
  rw [hcounter]
  exact Nat.le_trans hs (MainState.reapedCount_mono h.reaped)

end Frame

/-- The assertion of the program counter holds, and no child is counted that is not reaped. -/
def MainInv (s : MainState) : Prop := s.pc.Assertion s ∧ s.childCounter ≤ s.reapedCount

/-- The parent's own calls: the assertion of one program counter leads to the next. -/
theorem mainCall_assertion {size : ℕ} {succeeds : Bool} {s s' : MainState}
    (h : mainCall size succeeds s = some s') (hs : s.pc.Assertion s) : s'.pc.Assertion s' := by
  unfold mainCall at h
  cases hpc : s.pc with
  | mkfifo1 =>
      simp only [hpc] at h hs
      split at h <;> cases h
      · exact ⟨hs.1, rfl, hs.2.2⟩
      · exact hs
  | mkfifo2 =>
      simp only [hpc] at h hs
      split at h <;> cases h
      · exact ⟨hs.1, hs.2.1⟩
      · exact ⟨hs.1, hs.2.2⟩
  | unlinkOnlyFifo1 =>
      simp only [hpc] at h hs
      cases h
      exact ⟨hs.1, rfl, hs.2⟩
  | malloc =>
      simp only [hpc] at h hs
      split at h <;> cases h <;> exact hs
  | fork child =>
      cases child with
      | child1 =>
          simp only [hpc] at h
          split at h <;> cases h <;> exact trivial
      | child2 =>
          simp only [hpc] at h hs
          split at h <;> cases h
          · exact hs.1 .child1
          · exact hs
  | openFifo2 | openFifo1 =>
      simp only [hpc] at h
      split at h <;> cases h
      · exact trivial
      · exact ⟨rfl, nofun⟩
  | writeFifo2 i =>
      simp only [hpc] at h
      split at h <;> cases h
      · show MainPC.Assertion (if i < size then _ else _) _
        split <;> exact trivial
      · exact ⟨rfl, nofun⟩
  | writeFifo1 i =>
      simp only [hpc] at h
      split at h
      · split at h <;> cases h
        · exact trivial
        · exact ⟨rfl, nofun⟩
      · cases h
        exact trivial
  | testing timeout =>
      simp only [hpc] at h
      split at h <;> cases h
      · exact trivial
      · next hcounter => exact ⟨rfl, fun _ => Nat.le_of_not_lt hcounter⟩
  | sleeping timeout =>
      simp only [hpc] at h
      split at h <;> cases h
      · exact ⟨rfl, nofun⟩
      · exact trivial
  | unlinkFifo1 way =>
      simp only [hpc] at h hs
      cases h
      exact ⟨hs.1, hs.2, rfl⟩
  | unlinkFifo2 way =>
      simp only [hpc] at h hs
      obtain ⟨hway, hcounter, hfifo1⟩ := hs
      split at h <;> cases h
      · exact ⟨rfl, hfifo1, rfl⟩
      · next hne =>
          cases way with
          | callFailed | interrupted => exact ⟨hfifo1, rfl⟩
          | finished => exact ⟨⟨hfifo1, rfl⟩, hcounter rfl⟩
          | timedOut => exact absurd rfl hne
          | mkfifoFailed | mallocFailed | forkFailed | waitInterrupted => cases hway
  | sigkill zombie =>
      simp only [hpc] at h hs
      cases h
      exact hs
  | waitZombie zombie =>
      simp only [hpc] at h hs
      obtain ⟨rfl, hremoved⟩ := hs
      split at h
      · split at h <;> cases h
        · exact ⟨hremoved, update_self Child.child1 ChildState.reaped s.child⟩
        · exact ⟨hremoved, ‹_›⟩
      · cases h
        exact hremoved
  | leaving way =>
      simp only [hpc] at h
      cases h
      exact trivial
  | exited =>
      simp only [hpc] at h
      cases h

/-- What a call of the parent does to the children. -/
inductive ChildrenStep (s : MainState) (succeeds : Bool) : (Child → ChildState) → Prop
  | same (hcall : ¬ (succeeds = true ∧ ∃ child, s.pc = .fork child ∨ s.pc = .waitZombie child)) :
      ChildrenStep s succeeds s.child
  | forks (child : Child) (hsucceeds : succeeds = true) (hpc : s.pc = .fork child) :
      ChildrenStep s succeeds (update s.child child .running)
  | kills (zombie : Child) (hpc : s.pc = .sigkill zombie) :
      ChildrenStep s succeeds (update s.child zombie (s.child zombie).kill)
  | waits (zombie : Child) (hsucceeds : succeeds = true) (hpc : s.pc = .waitZombie zombie)
      (hended : s.child zombie = .zombie ∨ s.child zombie = .reaped) :
      ChildrenStep s succeeds (update s.child zombie .reaped)

/-- It counts none of them. -/
theorem childrenStep_of_mainCall {size : ℕ} {succeeds : Bool} {s s' : MainState}
    (h : mainCall size succeeds s = some s') :
    ChildrenStep s succeeds s'.child ∧ s'.childCounter = s.childCounter := by
  unfold mainCall at h
  cases hpc : s.pc with
  | fork child =>
      cases succeeds with
      | true =>
          cases child <;> simp only [hpc] at h <;> cases h
          · exact ⟨.forks .child1 rfl hpc, rfl⟩
          · exact ⟨.forks .child2 rfl hpc, rfl⟩
      | false => cases child <;> simp only [hpc] at h <;> cases h <;> exact ⟨.same (by simp), rfl⟩
  | sigkill zombie =>
      simp only [hpc] at h
      cases h
      exact ⟨.kills zombie hpc, rfl⟩
  | waitZombie zombie =>
      simp only [hpc] at h
      split at h
      · next hsucceeds =>
          split at h
          · next hzombie =>
              cases h
              exact ⟨.waits zombie hsucceeds hpc (Or.inl hzombie), rfl⟩
          · next hreaped =>
              cases h
              have hwaits := ChildrenStep.waits zombie hsucceeds hpc (Or.inr hreaped)
              rw [← hreaped, update_eq_self] at hwaits
              exact ⟨hwaits, rfl⟩
          · cases h
      · next hfails =>
          cases h
          exact ⟨.same fun hcall => hfails hcall.1, rfl⟩
  | exited =>
      simp only [hpc] at h
      cases h
  | _ =>
      simp only [hpc] at h
      repeat' split at h
      all_goals
        cases h
        exact ⟨.same (by simp [hpc]), rfl⟩

theorem update_eq_iff {child : Child → ChildState} {moved : Child} {c c' : ChildState}
    (h : c = c' ↔ child moved = c') (other : Child) :
    update child moved c other = c' ↔ child other = c' := by
  by_cases hne : other = moved
  · subst hne
    rw [update_self, h]
  · rw [update_of_ne hne]

/-- The child comes to this state, or has been in it. -/
theorem update_self_iff {child : Child → ChildState} {moved : Child} (c : ChildState)
    (other : Child) : update child moved c other = c ↔ child other = c ∨ other = moved := by
  by_cases hne : other = moved
  · subst hne
    simp
  · simp [hne]

/-- A child is forked once. -/
theorem notForked_of_fork {s : MainState} {child : Child} (hpc : s.pc = .fork child)
    (hs : s.pc.Assertion s) : s.child child = .notForked := by
  rw [hpc] at hs
  cases child with
  | child1 => exact hs
  | child2 => exact hs.1 .child2

/-- A child that has been waited for is not forked again. -/
theorem ChildrenStep.reaped_iff {s : MainState} {succeeds : Bool} {children : Child → ChildState}
    (h : ChildrenStep s succeeds children) (hs : s.pc.Assertion s) (child : Child) :
    children child = .reaped ↔
      s.child child = .reaped ∨ succeeds = true ∧ s.pc = .waitZombie child := by
  cases h with
  | same hcall =>
      have hwaits : ¬ (succeeds = true ∧ s.pc = .waitZombie child) :=
        fun ⟨hsucceeds, hpc⟩ => hcall ⟨hsucceeds, child, Or.inr hpc⟩
      simp [hwaits]
  | forks forked hsucceeds hpc =>
      have hrunning : ChildState.running = .reaped ↔ s.child forked = .reaped := by
        simp [notForked_of_fork hpc hs]
      simp [update_eq_iff hrunning, hpc]
  | kills zombie hpc =>
      have hkill : (s.child zombie).kill = .reaped ↔ s.child zombie = .reaped := by
        cases s.child zombie <;> simp [ChildState.kill]
      simp [update_eq_iff hkill, hpc]
  | waits zombie hsucceeds hpc hended =>
      simp [update_self_iff, hsucceeds, hpc, eq_comm (a := zombie)]

theorem mainInv_mainCall {size : ℕ} {succeeds : Bool} {s s' : MainState}
    (h : mainCall size succeeds s = some s') (hs : MainInv s) : MainInv s' := by
  obtain ⟨hchildren, hcounter⟩ := childrenStep_of_mainCall h
  refine ⟨mainCall_assertion h hs.1, ?_⟩
  rw [hcounter]
  exact Nat.le_trans hs.2 (MainState.reapedCount_mono fun child hreaped =>
    (hchildren.reaped_iff hs.1 child).2 (Or.inl hreaped))

theorem ne_of_isAlive {c : ChildState} (h : c.isAlive = true) :
    c ≠ .notForked ∧ c ≠ .reaped := by
  constructor <;> rintro rfl <;> cases h

/-- The event is the parent's own. -/
def MainEvent.isParents : MainEvent → Bool
  | call _ | sigpipe | interrupt => true
  | _ => false

/-- What the children and `sigchld_handler` do. -/
theorem frame_of_next {size : ℕ} {event : MainEvent} {s s' : MainState}
    (h : mainNext size s event = some s') (hevent : event.isParents = false) :
    Frame s s' ∧ (s.childCounter ≤ s.reapedCount → s'.childCounter ≤ s'.reapedCount) := by
  cases event with
  | call | sigpipe | interrupt => cases hevent
  | sigchld =>
      obtain ⟨-, hnext⟩ := Option.ite_none_left_eq_some.1 h
      cases hnext
      have hframe := Frame.of_handler s true
      exact ⟨hframe, hframe.counted rfl⟩
  | reap child =>
      obtain ⟨⟨-, hzombie⟩, hnext⟩ := Option.ite_none_right_eq_some.1 h
      cases hnext
      refine ⟨.of_move (by rw [hzombie]; nofun) (by rw [hzombie]; nofun) nofun nofun
        id id (Nat.le_succ _), fun hcounted => ?_⟩
      exact Nat.le_trans (Nat.succ_le_succ hcounted)
        (Nat.le_of_eq (MainState.reapedCount_update hzombie rfl).symm)
  | endHandler =>
      obtain ⟨-, hnext⟩ := Option.ite_none_right_eq_some.1 h
      cases hnext
      have hframe := Frame.of_handler s false
      exact ⟨hframe, hframe.counted rfl⟩
  | interruptChild child =>
      obtain ⟨hrunning, hnext⟩ := Option.ite_none_right_eq_some.1 h
      cases hnext
      have hframe : Frame s { s with child := update s.child child .unlinking1 } :=
        .of_move (by rw [hrunning]; nofun) (by rw [hrunning]; nofun) nofun nofun id id
          (Nat.le_refl _)
      exact ⟨hframe, hframe.counted rfl⟩
  | unlinkInChild child =>
      simp only [mainNext] at h
      split at h
      · next hchild =>
          cases h
          have hframe : Frame s { s with
              fifo1 := false, child := update s.child child .unlinking2 } :=
            .of_move (by rw [hchild]; nofun) (by rw [hchild]; nofun) nofun nofun nofun id
              (Nat.le_refl _)
          exact ⟨hframe, hframe.counted rfl⟩
      · next hchild =>
          cases h
          have hframe : Frame s { s with
              fifo2 := false, child := update s.child child .exiting } :=
            .of_move (by rw [hchild]; nofun) (by rw [hchild]; nofun) nofun nofun id nofun
              (Nat.le_refl _)
          exact ⟨hframe, hframe.counted rfl⟩
      · cases h
  | endChild child =>
      obtain ⟨halive, hnext⟩ := Option.ite_none_right_eq_some.1 h
      cases hnext
      obtain ⟨hforked, hunreaped⟩ := ne_of_isAlive halive
      have hframe : Frame s { s with child := update s.child child .zombie } :=
        .of_move hforked hunreaped nofun nofun id id (Nat.le_refl _)
      exact ⟨hframe, hframe.counted rfl⟩

theorem mainInv_next {size : ℕ} {event : MainEvent} {s s' : MainState}
    (h : mainNext size s event = some s') (hs : MainInv s) : MainInv s' := by
  cases event with
  | call succeeds =>
      obtain ⟨-, hcall⟩ := Option.ite_none_left_eq_some.1 h
      exact mainInv_mainCall hcall hs
  | sigpipe =>
      obtain ⟨-, hnext⟩ := Option.ite_none_right_eq_some.1 h
      cases hnext
      exact ⟨trivial, hs.2⟩
  | interrupt =>
      obtain ⟨-, hnext⟩ := Option.ite_none_left_eq_some.1 h
      cases hnext
      exact ⟨⟨rfl, nofun⟩, hs.2⟩
  | _ =>
      obtain ⟨hframe, hcounted⟩ := frame_of_next h rfl
      refine ⟨?_, hcounted hs.2⟩
      rw [hframe.pc]
      exact hframe.assertion hs.1

/-! ## The exits -/

/-- A call of the parent exits from where it is leaving. -/
theorem leaving_of_mainCall {size : ℕ} {succeeds : Bool} {s s' : MainState}
    (h : mainCall size succeeds s = some s') (hexited : s'.pc = .exited) :
    (∃ way, s.pc = .leaving way) ∧ s' = { s with pc := .exited } := by
  unfold mainCall at h
  cases hpc : s.pc with
  | leaving way =>
      simp only [hpc] at h
      cases h
      exact ⟨⟨way, rfl⟩, rfl⟩
  | writeFifo2 i =>
      simp only [hpc] at h
      split at h <;> cases h
      · simp only at hexited
        split at hexited <;> cases hexited
      · cases hexited
  | fork child =>
      cases child <;> simp only [hpc] at h <;> split at h <;> cases h <;> cases hexited
  | waitZombie zombie =>
      simp only [hpc] at h
      split at h
      · split at h <;> cases h <;> cases hexited
      · cases h
        cases hexited
  | exited =>
      simp only [hpc] at h
      cases h
  | _ =>
      simp only [hpc] at h
      repeat' split at h
      all_goals
        cases h
        cases hexited

/-- What an exit of each way leaves is what the way needs. -/
theorem needs_iff {s : MainState} {way : WayOut} (hpc : s.pc = .leaving way) (hs : MainInv s) :
    s.Removed ∧ s.Reaped ↔ way.Needs s := by
  obtain ⟨hassertion, hcounter⟩ := hs
  rw [hpc] at hassertion
  cases way with
  | mkfifoFailed => exact iff_of_true ⟨hassertion.2, hassertion.1.reaped⟩ trivial
  | mallocFailed =>
      refine iff_of_false ?_ id
      rintro ⟨⟨hfifo1, -⟩, -⟩
      rw [hassertion.2] at hfifo1
      cases hfifo1
  | forkFailed child =>
      cases child with
      | child1 => exact Iff.rfl
      | child2 =>
          refine iff_of_false ?_ id
          rintro ⟨⟨hfifo1, -⟩, -⟩
          rw [hassertion.2] at hfifo1
          cases hfifo1
  | callFailed | interrupted | waitInterrupted => exact and_iff_right hassertion
  | timedOut =>
      constructor
      · rintro ⟨-, hreaped⟩
        exact hreaped .child2
      · intro h2
        exact ⟨hassertion.1, MainState.reaped_of_children (Or.inr hassertion.2) h2⟩
  | finished =>
      exact iff_of_true
        ⟨hassertion.1, MainState.reaped_of_count (Nat.le_trans hassertion.2 hcounter)⟩ trivial

/-- Behind the exit nothing happens any more when no child is left. -/
theorem nothingLeft_of_exited {size : ℕ} {event : MainEvent} {s s' : MainState}
    (h : mainNext size s event = some s') (hpc : s.pc = .exited) (hleft : s.Removed ∧ s.Reaped) :
    s'.Removed ∧ s'.Reaped := by
  have hevent : event.isParents = false := by
    cases event with
    | call succeeds => simp [mainNext, mainCall, hpc] at h
    | sigpipe | interrupt => simp [mainNext, hpc, MainPC.writes] at h
    | _ => rfl
  obtain ⟨hframe, -⟩ := frame_of_next h hevent
  exact ⟨hframe.removed hleft.1, fun child => (hleft.2 child).imp (hframe.notForked child).1
    (hframe.reaped child)⟩

/-- A step keeps `NothingLeft` exactly when it is clean. -/
theorem nothingLeft_iff {size : ℕ} {event : MainEvent} {s s' : MainState} (hs : MainInv s)
    (hleft : NothingLeft s) (h : mainNext size s event = some s') :
    NothingLeft s' ↔ CleanExit s event := by
  by_cases hexited : s.pc = .exited
  · refine iff_of_true (fun _ => nothingLeft_of_exited h hexited (hleft hexited)) ?_
    cases event with
    | call succeeds => exact fun way hway => by rw [hexited] at hway; cases hway
    | sigpipe => exact hleft hexited
    | _ => exact trivial
  · cases event with
    | call succeeds =>
        obtain ⟨-, hcall⟩ := Option.ite_none_left_eq_some.1 h
        constructor
        · intro hs' way hpc
          rw [← needs_iff hpc hs]
          have hnext : s' = { s with pc := .exited } := by
            simp only [mainCall, hpc, Option.some.injEq] at hcall
            exact hcall.symm
          rw [hnext] at hs'
          exact hs' rfl
        · intro hclean hexit
          obtain ⟨⟨way, hpc⟩, rfl⟩ := leaving_of_mainCall hcall hexit
          exact (needs_iff hpc hs).2 (hclean way hpc)
    | sigpipe =>
        obtain ⟨-, hnext⟩ := Option.ite_none_right_eq_some.1 h
        cases hnext
        exact ⟨fun hs' => hs' rfl, fun hclean _ => hclean⟩
    | interrupt =>
        obtain ⟨-, hnext⟩ := Option.ite_none_left_eq_some.1 h
        cases hnext
        exact iff_of_true nofun trivial
    | _ =>
        obtain ⟨hframe, -⟩ := frame_of_next h rfl
        refine iff_of_true (fun hexit => absurd ?_ hexited) trivial
        rw [← hframe.pc, hexit]

theorem mainInv_sizeAccepted : MainInv sizeAccepted :=
  ⟨⟨fun _ => rfl, rfl, rfl⟩, Nat.zero_le _⟩

theorem mainInv_reachable {size : ℕ} {s : MainState} (h : (mainMachine size).Reachable s) :
    MainInv s := by
  refine h.invariant (I := MainInv) ?_ ?_
  · rintro s rfl
    exact mainInv_sizeAccepted
  · rintro s event s' - hs hnext
    exact mainInv_next hnext hs

/-- **What the parent leaves.** Along a run nothing is left at the exit exactly if the step to the
    exit is clean. -/
theorem nothingLeft_run_iff (size : ℕ) (events : List MainEvent) :
    (mainMachine size).Always NothingLeft sizeAccepted events ↔
      (mainMachine size).EachStep CleanExit sizeAccepted events :=
  Machine.always_iff_eachStep (I := MainInv) (fun _ _ _ hs h => mainInv_next h hs)
    (fun _ _ _ hs hleft h => nothingLeft_iff hs hleft h) events mainInv_sizeAccepted nofun

/-- Child 1 ends, child 2 still waits for the sum at the timeout: the parent kills child 1, which is
    gone, and exits. -/
theorem not_always_nothingLeft :
    ¬ ∀ size s, (mainMachine size).Reachable s → NothingLeft s := by
  intro hall
  obtain ⟨s, hs, hexited, hchild2⟩ : ∃ s, (mainMachine 1).exec sizeAccepted
      (List.replicate 11 (.call true) ++
        [.endChild .child1, .sigchld, .reap .child1, .endHandler] ++
        List.replicate 13 (.call true)) = some s ∧ s.pc = .exited ∧
      s.child .child2 = .running := ⟨_, rfl, rfl, rfl⟩
  have hleft := hall 1 s (Machine.Reachable.exec _ (.init rfl) hs) hexited
  rcases hleft.2 .child2 with h | h <;> rw [hchild2] at h <;> cases h

/-- A call does not kill child 2. -/
theorem ChildrenStep.unkilled {s : MainState} {succeeds : Bool} {child : Child → ChildState}
    (h : ChildrenStep s succeeds child) (hs : s.pc.Assertion s) (hchild2 : s.child .child2 ≠ .killed) :
    child .child2 ≠ .killed := by
  cases h with
  | same => exact hchild2
  | forks forked =>
      cases forked with
      | child1 => exact hchild2
      | child2 => rw [update_self]; nofun
  | kills zombie hpc =>
      rw [hpc] at hs
      obtain ⟨rfl, -⟩ := hs
      exact hchild2
  | waits zombie =>
      cases zombie with
      | child1 => exact hchild2
      | child2 => rw [update_self]; nofun

theorem unkilled_of_next {size : ℕ} {event : MainEvent} {s s' : MainState}
    (h : mainNext size s event = some s') (hs : MainInv s) (hchild2 : s.child .child2 ≠ .killed) :
    s'.child .child2 ≠ .killed := by
  cases event with
  | call succeeds =>
      obtain ⟨-, hcall⟩ := Option.ite_none_left_eq_some.1 h
      exact (childrenStep_of_mainCall hcall).1.unkilled hs.1 hchild2
  | sigpipe =>
      obtain ⟨-, hnext⟩ := Option.ite_none_right_eq_some.1 h
      cases hnext
      exact hchild2
  | interrupt =>
      obtain ⟨-, hnext⟩ := Option.ite_none_left_eq_some.1 h
      cases hnext
      exact hchild2
  | _ => exact fun hkilled => hchild2 ((frame_of_next h rfl).1.killed _ hkilled)

/-- No run kills child 2. -/
theorem child2_not_killed {size : ℕ} {s : MainState} (h : (mainMachine size).Reachable s) :
    s.child .child2 ≠ .killed := by
  refine h.invariant (I := fun s => s.child .child2 ≠ .killed) ?_ ?_
  · rintro s rfl
    exact nofun
  · rintro s event s' hs hchild2 hnext
    exact unkilled_of_next hnext (mainInv_reachable hs) hchild2

end SystemProgramming.SumMult
