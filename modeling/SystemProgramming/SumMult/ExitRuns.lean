import SystemProgramming.SumMult.Cleanup

set_option autoImplicit false

/-! # What has happened before the parent of HW2 exits

`Cleanup` says what the code of a way out leaves to others, by the state in front of the last step.
Here the same is said by the steps of the run: which children the parent has forked, for which it
has waited, and what the handlers of interrupted children have removed. -/

namespace SystemProgramming.SumMult

/-! ## The steps that matter -/

/-- The parent forks the child. -/
def Forks (child : Child) (s : MainState) (event : MainEvent) : Prop :=
  event = .call true ∧ s.pc = .fork child

/-- The parent waits for the child, in a turn of `sigchld_handler` or in `sigkill_handler`. -/
def WaitsFor (child : Child) (s : MainState) (event : MainEvent) : Prop :=
  event = .reap child ∨ event = .call true ∧ s.pc = .waitZombie child

/-- The handler of an interrupted child makes the call of `unlink` that it has come to. -/
def UnlinksIn (c : ChildState) (s : MainState) (event : MainEvent) : Prop :=
  ∃ child, event = .unlinkInChild child ∧ s.child child = c

/-! ## The children -/

/-- What a call of the parent does to the children, by what has become of one of them. -/
theorem ChildrenStep.forked_iff {s : MainState} {succeeds : Bool} {children : Child → ChildState}
    (h : ChildrenStep s succeeds children) (child : Child) :
    children child ≠ .notForked ↔
      s.child child ≠ .notForked ∨ Forks child s (.call succeeds) := by
  cases h with
  | same hcall =>
      have hforks : ¬ Forks child s (.call succeeds) :=
        fun ⟨hevent, hpc⟩ => hcall ⟨by simpa using hevent, child, Or.inl hpc⟩
      simp [hforks]
  | forks forked hsucceeds hpc =>
      by_cases hne : child = forked
      · subst hne
        simp [Forks, hsucceeds, hpc]
      · simp [Forks, hpc, hne, Ne.symm hne]
  | kills zombie hpc =>
      have hkill : (s.child zombie).kill = .notForked ↔ s.child zombie = .notForked := by
        cases s.child zombie <;> simp [ChildState.kill]
      simp [update_eq_iff hkill, Forks, hpc]
  | waits zombie hsucceeds hpc hended =>
      have hreaped : ChildState.reaped = .notForked ↔ s.child zombie = .notForked := by
        rcases hended with hended | hended <;> simp [hended]
      simp [update_eq_iff hreaped, Forks, hpc]

/-- A child has been forked behind a step if it was before or the step forks it. -/
theorem forked_next {size : ℕ} {event : MainEvent} {s s' : MainState}
    (h : mainNext size s event = some s') (child : Child) :
    s'.child child ≠ .notForked ↔ s.child child ≠ .notForked ∨ Forks child s event := by
  cases event with
  | call succeeds =>
      obtain ⟨-, hcall⟩ := Option.ite_none_left_eq_some.1 h
      exact (childrenStep_of_mainCall hcall).1.forked_iff child
  | sigpipe =>
      obtain ⟨-, hnext⟩ := Option.ite_none_right_eq_some.1 h
      cases hnext
      simp [Forks]
  | interrupt =>
      obtain ⟨-, hnext⟩ := Option.ite_none_left_eq_some.1 h
      cases hnext
      simp [Forks]
  | _ => simp [((frame_of_next h rfl).1.notForked child).symm, Forks]

/-- A child has been reaped behind a step if it was before or the step waits for it. -/
theorem reaped_next {size : ℕ} {event : MainEvent} {s s' : MainState}
    (h : mainNext size s event = some s') (hs : MainInv s) (child : Child) :
    s'.child child = .reaped ↔ s.child child = .reaped ∨ WaitsFor child s event := by
  cases event with
  | call succeeds =>
      obtain ⟨-, hcall⟩ := Option.ite_none_left_eq_some.1 h
      simpa [WaitsFor] using (childrenStep_of_mainCall hcall).1.reaped_iff hs.1 child
  | sigpipe | endHandler =>
      obtain ⟨-, hnext⟩ := Option.ite_none_right_eq_some.1 h
      cases hnext
      simp [WaitsFor]
  | interrupt | sigchld =>
      obtain ⟨-, hnext⟩ := Option.ite_none_left_eq_some.1 h
      cases hnext
      simp [WaitsFor]
  | reap moved =>
      obtain ⟨-, hnext⟩ := Option.ite_none_right_eq_some.1 h
      cases hnext
      simp [update_self_iff, WaitsFor, eq_comm (a := moved)]
  | interruptChild moved =>
      obtain ⟨hrunning, hnext⟩ := Option.ite_none_right_eq_some.1 h
      cases hnext
      have hmoves : ChildState.unlinking1 = .reaped ↔ s.child moved = .reaped := by
        simp [hrunning]
      simp [update_eq_iff hmoves, WaitsFor]
  | unlinkInChild moved =>
      simp only [mainNext] at h
      split at h
      · next hchild =>
          cases h
          have hmoves : ChildState.unlinking2 = .reaped ↔ s.child moved = .reaped := by
            simp [hchild]
          simp [update_eq_iff hmoves, WaitsFor]
      · next hchild =>
          cases h
          have hmoves : ChildState.exiting = .reaped ↔ s.child moved = .reaped := by simp [hchild]
          simp [update_eq_iff hmoves, WaitsFor]
      · cases h
  | endChild moved =>
      obtain ⟨halive, hnext⟩ := Option.ite_none_right_eq_some.1 h
      cases hnext
      have hmoves : ChildState.zombie = .reaped ↔ s.child moved = .reaped := by
        simp [(ne_of_isAlive halive).2]
      simp [update_eq_iff hmoves, WaitsFor]

/-! ## The FIFOs -/

/-- The parent has not come to its own calls of `unlink`, and will not come to those of a failed
    `mkfifo`. -/
def MainPC.keepsFifos : MainPC → Bool
  | mkfifo1 | mkfifo2 | malloc | fork _ | openFifo2 | writeFifo2 _ | openFifo1 | writeFifo1 _
  | testing _ | sleeping _ | leaving (.forkFailed _) => true
  | _ => false

namespace MainState

/-- FIFO1 has been made and removed. -/
def Unlinked1 (s : MainState) : Prop := s.pc ≠ .mkfifo1 ∧ s.fifo1 = false

/-- FIFO2 has been made and removed. -/
def Unlinked2 (s : MainState) : Prop := s.pc ≠ .mkfifo1 ∧ s.pc ≠ .mkfifo2 ∧ s.fifo2 = false

end MainState

/-- Up to there a call of the parent removes nothing. -/
theorem unlinked_of_mainCall {size : ℕ} {succeeds : Bool} {s s' : MainState}
    (h : mainCall size succeeds s = some s') (hs : s.pc.Assertion s)
    (hkeeps : s'.pc.keepsFifos = true) :
    s.pc.keepsFifos = true ∧ (s'.Unlinked1 ↔ s.Unlinked1) ∧ (s'.Unlinked2 ↔ s.Unlinked2) := by
  cases hpc : s.pc with
  | unlinkFifo2 way =>
      simp only [mainCall, hpc] at h hs
      split at h <;> cases h
      · cases hkeeps
      · have hunlinks := hs.1
        cases way with
        | callFailed | interrupted | timedOut | finished => cases hkeeps
        | _ => cases hunlinks
  | unlinkOnlyFifo1 | unlinkFifo1 | sigkill | exited =>
      simp only [mainCall, hpc] at h
      cases h <;> cases hkeeps
  | leaving way =>
      simp only [mainCall, hpc] at h
      cases h
      cases hkeeps
  | waitZombie zombie =>
      simp only [mainCall, hpc] at h
      repeat' split at h
      all_goals
        cases h <;> cases hkeeps
  | fork child =>
      cases child <;> simp only [mainCall, hpc] at h <;> split at h <;> cases h <;>
        simp [MainPC.keepsFifos, MainState.Unlinked1, MainState.Unlinked2, hpc]
  | _ =>
      simp only [mainCall, hpc] at h
      repeat' split at h
      all_goals
        cases h
        simp_all [MainPC.keepsFifos, MainState.Unlinked1, MainState.Unlinked2]

/-- A step of the others removes a FIFO if it is a child's call of `unlink`. -/
theorem unlinked_of_others {size : ℕ} {event : MainEvent} {s s' : MainState}
    (h : mainNext size s event = some s') (hs : s.pc.Assertion s)
    (hevent : event.isParents = false) :
    (s'.Unlinked1 ↔ s.Unlinked1 ∨ UnlinksIn .unlinking1 s event) ∧
      (s'.Unlinked2 ↔ s.Unlinked2 ∨ UnlinksIn .unlinking2 s event) := by
  cases event with
  | call | sigpipe | interrupt => cases hevent
  | sigchld =>
      obtain ⟨-, hnext⟩ := Option.ite_none_left_eq_some.1 h
      cases hnext
      simp [MainState.Unlinked1, MainState.Unlinked2, UnlinksIn]
  | reap | endHandler | interruptChild | endChild =>
      obtain ⟨-, hnext⟩ := Option.ite_none_right_eq_some.1 h
      cases hnext
      simp [MainState.Unlinked1, MainState.Unlinked2, UnlinksIn]
  | unlinkInChild moved =>
      have hmade : s.child moved ≠ .notForked → s.pc ≠ .mkfifo1 ∧ s.pc ≠ .mkfifo2 := by
        intro hforked
        constructor <;> intro hpc <;> rw [hpc] at hs <;> exact hforked (hs.1 moved)
      simp only [mainNext] at h
      split at h
      · next hchild =>
          cases h
          obtain ⟨hpc1, -⟩ := hmade (by simp [hchild])
          simp [MainState.Unlinked1, MainState.Unlinked2, UnlinksIn, hchild, hpc1]
      · next hchild =>
          cases h
          obtain ⟨hpc1, hpc2⟩ := hmade (by simp [hchild])
          simp [MainState.Unlinked1, MainState.Unlinked2, UnlinksIn, hchild, hpc1, hpc2]
      · cases h

/-- As long as the parent keeps the FIFOs, the handlers of the children remove them. -/
theorem unlinked_next {size : ℕ} {event : MainEvent} {s s' : MainState}
    (h : mainNext size s event = some s') (hs : MainInv s) (hkeeps : s'.pc.keepsFifos = true) :
    s.pc.keepsFifos = true ∧ (s'.Unlinked1 ↔ s.Unlinked1 ∨ UnlinksIn .unlinking1 s event) ∧
      (s'.Unlinked2 ↔ s.Unlinked2 ∨ UnlinksIn .unlinking2 s event) := by
  cases event with
  | call succeeds =>
      obtain ⟨-, hcall⟩ := Option.ite_none_left_eq_some.1 h
      obtain ⟨hkept, h1, h2⟩ := unlinked_of_mainCall hcall hs.1 hkeeps
      exact ⟨hkept, by simp [h1, UnlinksIn], by simp [h2, UnlinksIn]⟩
  | sigpipe =>
      obtain ⟨-, hnext⟩ := Option.ite_none_right_eq_some.1 h
      cases hnext
      cases hkeeps
  | interrupt =>
      obtain ⟨-, hnext⟩ := Option.ite_none_left_eq_some.1 h
      cases hnext
      cases hkeeps
  | _ =>
      rw [(frame_of_next h rfl).1.pc] at hkeeps
      exact ⟨hkeeps, unlinked_of_others h hs.1 rfl⟩

/-! ## The runs -/

section Runs

variable {size : ℕ} {events : List MainEvent} {s : MainState}

/-- If the parent has forked the child, it has waited for it. -/
def Collected (size : ℕ) (events : List MainEvent) (child : Child) : Prop :=
  (mainMachine size).SomeStep (Forks child) sizeAccepted events →
    (mainMachine size).SomeStep (WaitsFor child) sizeAccepted events

/-- The handlers of interrupted children have removed both FIFOs. -/
def RemovedInChild (size : ℕ) (events : List MainEvent) : Prop :=
  (mainMachine size).SomeStep (UnlinksIn .unlinking1) sizeAccepted events ∧
    (mainMachine size).SomeStep (UnlinksIn .unlinking2) sizeAccepted events

/-- `WayOut.Needs`, said of the run. -/
def WayOut.NeedsBefore (size : ℕ) (events : List MainEvent) : WayOut → Prop
  | mkfifoFailed | finished => True
  | mallocFailed | forkFailed .child2 => False
  | forkFailed .child1 => RemovedInChild size events ∧ ∀ child, Collected size events child
  | callFailed | interrupted | waitInterrupted => ∀ child, Collected size events child
  | timedOut => Collected size events .child2

/-- `CleanExit`, said of the run: what must have happened before a last step from `pc`. -/
def CleanExitAfter (size : ℕ) (events : List MainEvent) (pc : MainPC) : MainEvent → Prop
  | .call _ => ∀ way, pc = .leaving way → way.NeedsBefore size events
  | .sigpipe => RemovedInChild size events ∧ ∀ child, Collected size events child
  | _ => True

theorem mainInv_exec (he : (mainMachine size).exec sizeAccepted events = some s) : MainInv s :=
  mainInv_reachable (Machine.Reachable.exec events (.init rfl) he)

theorem forked_iff (he : (mainMachine size).exec sizeAccepted events = some s) (child : Child) :
    s.child child ≠ .notForked ↔
      (mainMachine size).SomeStep (Forks child) sizeAccepted events := by
  have hlatch := Machine.exec_latch (m := mainMachine size) (I := MainInv) (K := fun _ => True)
    (P := fun s => s.child child ≠ .notForked) (C := Forks child)
    (fun _ _ _ hs hnext => mainInv_next hnext hs) (fun _ _ _ _ _ hK => hK)
    (fun _ _ _ _ _ hnext => forked_next hnext child) events mainInv_sizeAccepted he trivial
  simpa [sizeAccepted] using hlatch.2

theorem reaped_iff (he : (mainMachine size).exec sizeAccepted events = some s) (child : Child) :
    s.child child = .reaped ↔
      (mainMachine size).SomeStep (WaitsFor child) sizeAccepted events := by
  have hlatch := Machine.exec_latch (m := mainMachine size) (I := MainInv) (K := fun _ => True)
    (P := fun s => s.child child = .reaped) (C := WaitsFor child)
    (fun _ _ _ hs hnext => mainInv_next hnext hs) (fun _ _ _ _ _ hK => hK)
    (fun _ _ _ hs _ hnext => reaped_next hnext hs child) events mainInv_sizeAccepted he trivial
  simpa [sizeAccepted] using hlatch.2

theorem gone_iff (he : (mainMachine size).exec sizeAccepted events = some s) (child : Child) :
    s.Gone child ↔ Collected size events child := by
  rw [Collected, ← forked_iff he child, ← reaped_iff he child, MainState.Gone]
  exact or_iff_not_imp_left

theorem removed_iff (he : (mainMachine size).exec sizeAccepted events = some s)
    (hkeeps : s.pc.keepsFifos = true) (hmade : s.pc ≠ .mkfifo1 ∧ s.pc ≠ .mkfifo2) :
    s.Removed ↔ RemovedInChild size events := by
  have h1 := Machine.exec_latch (m := mainMachine size) (I := MainInv)
    (K := fun s => s.pc.keepsFifos = true) (P := MainState.Unlinked1) (C := UnlinksIn .unlinking1)
    (fun _ _ _ hs hnext => mainInv_next hnext hs)
    (fun _ _ _ hs hnext hK => (unlinked_next hnext hs hK).1)
    (fun _ _ _ hs hK hnext => (unlinked_next hnext hs hK).2.1) events mainInv_sizeAccepted he hkeeps
  have h2 := Machine.exec_latch (m := mainMachine size) (I := MainInv)
    (K := fun s => s.pc.keepsFifos = true) (P := MainState.Unlinked2) (C := UnlinksIn .unlinking2)
    (fun _ _ _ hs hnext => mainInv_next hnext hs)
    (fun _ _ _ hs hnext hK => (unlinked_next hnext hs hK).1)
    (fun _ _ _ hs hK hnext => (unlinked_next hnext hs hK).2.2) events mainInv_sizeAccepted he hkeeps
  have hremoved : s.Removed ↔ s.Unlinked1 ∧ s.Unlinked2 := by
    simp [MainState.Removed, MainState.Unlinked1, MainState.Unlinked2, hmade]
  rw [hremoved, h1.2, h2.2]
  simp [RemovedInChild, MainState.Unlinked1, MainState.Unlinked2, sizeAccepted]

/-- What the ways out need has happened exactly if these steps are in the run. -/
theorem needs_iff_needsBefore (he : (mainMachine size).exec sizeAccepted events = some s)
    {way : WayOut} (hpc : s.pc = .leaving way) : way.Needs s ↔ way.NeedsBefore size events := by
  cases way with
  | mkfifoFailed | finished | mallocFailed => exact Iff.rfl
  | forkFailed child =>
      cases child with
      | child2 => exact Iff.rfl
      | child1 =>
          exact and_congr (removed_iff he (by rw [hpc]; rfl) (by simp [hpc]))
            (forall_congr' (gone_iff he))
  | callFailed | interrupted | waitInterrupted => exact forall_congr' (gone_iff he)
  | timedOut => exact gone_iff he .child2

/-- A last step is clean exactly if these steps are in the run before it. -/
theorem cleanExit_iff_cleanExitAfter {event : MainEvent} {s' : MainState}
    (he : (mainMachine size).exec sizeAccepted events = some s)
    (h : mainNext size s event = some s') :
    CleanExit s event ↔ CleanExitAfter size events s.pc event := by
  cases event with
  | call succeeds => exact forall_congr' fun way => imp_congr_right (needs_iff_needsBefore he)
  | sigpipe =>
      obtain ⟨⟨-, hwrites⟩, -⟩ := Option.ite_none_right_eq_some.1 h
      have hkeeps : s.pc.keepsFifos = true ∧ s.pc ≠ .mkfifo1 ∧ s.pc ≠ .mkfifo2 := by
        cases hpc : s.pc with
        | writeFifo2 | writeFifo1 => exact ⟨rfl, nofun, nofun⟩
        | _ =>
            rw [hpc] at hwrites
            cases hwrites
      exact and_congr (removed_iff he hkeeps.1 hkeeps.2) (forall_congr' (gone_iff he))
  | _ => exact Iff.rfl

/-- **What must have happened.** A step that ends the parent leaves nothing exactly if in the run
    before it there are the steps that the code of this way out leaves to others. -/
theorem nothingLeft_iff_cleanExitAfter {event : MainEvent} {s' : MainState}
    (he : (mainMachine size).exec sizeAccepted events = some s) (hpc : s.pc ≠ .exited)
    (h : mainNext size s event = some s') :
    NothingLeft s' ↔ CleanExitAfter size events s.pc event :=
  (nothingLeft_iff (mainInv_exec he) (fun hexited => absurd hexited hpc) h).trans
    (cleanExit_iff_cleanExitAfter he h)

end Runs

end SystemProgramming.SumMult
