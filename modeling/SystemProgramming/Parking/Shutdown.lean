import SystemProgramming.Parking.Ending
import SystemProgramming.Parking.Signals

set_option autoImplicit false

/-! # The shutdown by a signal

Once `simulationEnd` is set, by the owner or by a handler, every step of the three threads and of
the handlers takes the program towards its end: `stepsLeft` counts these steps, and only another
signal adds to them. Each attendant finds a post that leads it to the flag (`Ready`), so that the
program stops nowhere but behind all its threads. Until then an attendant parks the car that it
holds, if it holds one, and the owner may let one last car in. -/

namespace SystemProgramming.Parking

open Function

/-! ## What is left to do -/

/-- The steps of an attendant to its return, once the flag is set. -/
def AttendantPC.stepsLeft : AttendantPC → ℕ
  | .unlockingTaken => 12
  | .postingCharge => 11
  | .lockingPark => 10
  | .freeingTemp => 9
  | .takingPlace => 8
  | .unlockingParked => 7
  | .waitingNew => 6
  | .waitingCharge => 5
  | .locking => 4
  | .checking => 3
  | .unlockingEnd => 2
  | .postingEnd => 1
  | .returned => 0

/-- The steps of the owner to its return, once the flag is set, at most. -/
def OwnerPC.stepsLeft : OwnerPC → ℕ
  | .arriving => 12
  | .locking _ => 11
  | .deciding _ => 10
  | .posting _ => 9
  | .unlocking => 8
  | .readingAuto => 7
  | .readingPickup => 6
  | .lockingEnd => 5
  | .settingEnd => 4
  | .unlockingEnd => 3
  | .postingAuto => 2
  | .postingPickup | .testing => 1
  | .returned => 0

/-- The statements that a running handler has left. -/
def HandlerPC.stepsLeft : HandlerPC → ℕ
  | .settingEnd => 5
  | .postingNew .auto => 4
  | .postingNew .pickup => 3
  | .postingCharge .auto => 2
  | .postingCharge .pickup => 1

/-- The steps of the handlers that run in one thread. -/
def handlerSteps : List HandlerPC → ℕ
  | [] => 0
  | pc :: rest => pc.stepsLeft + handlerSteps rest

/-- The statements that all running handlers have left. -/
def handlersLeft (handlers : Thread → List HandlerPC) : ℕ :=
  handlerSteps (handlers .main) + handlerSteps (handlers .owner)
    + handlerSteps (handlers (.attendant .auto)) + handlerSteps (handlers (.attendant .pickup))

theorem handlersLeft_update (handlers : Thread → List HandlerPC) (thread : Thread)
    (l : List HandlerPC) :
    handlersLeft (update handlers thread l) + handlerSteps (handlers thread)
      = handlersLeft handlers + handlerSteps l := by
  unfold handlersLeft
  rcases thread with _ | _ | (_ | _) <;> simp only [update_apply, reduceCtorEq, if_false, if_true,
    Thread.attendant.injEq] <;> omega

theorem handlerSteps_next (pc : HandlerPC) (rest : List HandlerPC) :
    handlerSteps (pc.next.toList ++ rest) + 1 = handlerSteps (pc :: rest) := by
  have hnext : handlerSteps (pc.next.toList ++ rest) + 1 = pc.stepsLeft + handlerSteps rest := by
    rcases pc with _ | (_ | _) | (_ | _) <;>
      simp only [HandlerPC.next, Option.toList_some, Option.toList_none, List.cons_append,
        List.nil_append, handlerSteps, HandlerPC.stepsLeft] <;> omega
  exact hnext

namespace SignalState

/-- The steps to the end, at most. -/
def stepsLeft (s : SignalState) : ℕ :=
  s.lot.owner.stepsLeft + (s.lot.area .auto).attendant.stepsLeft
    + (s.lot.area .pickup).attendant.stepsLeft + handlersLeft s.handlers

/-- The cars of the kind that are parked, and the one that the attendant is going to park. -/
def toPark (kind : Kind) (s : SignalState) : ℕ :=
  (s.lot.area kind).parked + (s.lot.area kind).attendant.hasCar.toNat

end SignalState

/-- The owner is on its way to the guard of an arrival. -/
def OwnerPC.mayLetIn : OwnerPC → ℕ
  | .arriving | .locking _ | .deciding _ => 1
  | _ => 0

/-- The cars that are let in, and the one that the owner may still let in. -/
def SignalState.toLetIn (s : SignalState) : ℕ :=
  (s.lot.area .auto).accepted + (s.lot.area .pickup).accepted + s.lot.owner.mayLetIn

/-! ## A step behind the flag -/

/-- What a step does behind the flag: every step but a signal is one towards the end. -/
structure Winds (s s' : SignalState) (signals : ℕ) : Prop where
  ended : s'.lot.simulationEnd = true
  steps : s'.stepsLeft + 1 ≤ s.stepsLeft + 6 * signals
  toPark : ∀ kind, s'.toPark kind = s.toPark kind
  toLetIn : s'.toLetIn ≤ s.toLetIn

theorem attendantTurn_winds {mutex mutex' : Bool} {a a' : Area}
    (hturn : attendantTurn true mutex a = some (a', mutex')) :
    a'.attendant.stepsLeft + 1 = a.attendant.stepsLeft ∧
      a'.parked + a'.attendant.hasCar.toNat = a.parked + a.attendant.hasCar.toNat ∧
      a'.accepted = a.accepted := by
  cases hpc : a.attendant
  all_goals
    simp only [attendantTurn, hpc, Option.ite_none_left_eq_some, Option.some.injEq,
      Prod.mk.injEq, if_true, reduceCtorEq] at hturn
  case waitingNew | waitingCharge | locking | lockingPark =>
    obtain ⟨-, rfl, -⟩ := hturn
    exact ⟨rfl, rfl, rfl⟩
  all_goals
    obtain ⟨rfl, -⟩ := hturn
    exact ⟨rfl, rfl, rfl⟩

theorem skipWait_winds {a : Area} (hwaits : a.attendant.isWaiting = true) :
    a.skipWait.attendant.stepsLeft + 1 = a.attendant.stepsLeft ∧
      a.skipWait.parked + a.skipWait.attendant.hasCar.toNat
        = a.parked + a.attendant.hasCar.toNat ∧
      a.skipWait.accepted = a.accepted := by
  unfold Area.skipWait
  cases hpc : a.attendant
  case waitingNew | waitingCharge => exact ⟨rfl, rfl, rfl⟩
  all_goals
    rw [hpc] at hwaits
    cases hwaits

theorem carOwner_winds {maxAmount : Kind → ℕ} {rand : Kind} {lot lot' : State}
    (hend : lot.simulationEnd = true) (hnext : carOwner maxAmount rand lot = some lot') :
    lot'.owner.stepsLeft + 1 ≤ lot.owner.stepsLeft ∧
      (∀ kind, (lot'.area kind).attendant = (lot.area kind).attendant ∧
        (lot'.area kind).parked = (lot.area kind).parked) ∧
      (lot'.area .auto).accepted + (lot'.area .pickup).accepted + lot'.owner.mayLetIn
        ≤ (lot.area .auto).accepted + (lot.area .pickup).accepted + lot.owner.mayLetIn := by
  cases hpc : lot.owner
  all_goals
    simp only [carOwner, hpc, hend, Option.ite_none_left_eq_some, Option.some.injEq, if_true,
      reduceCtorEq] at hnext
  case locking | lockingEnd =>
    obtain ⟨-, rfl⟩ := hnext
    exact ⟨Nat.le_refl _, fun _ => ⟨rfl, rfl⟩, Nat.le_refl _⟩
  case deciding k =>
    split at hnext
    · obtain rfl := Option.some.inj hnext
      refine ⟨Nat.le_refl _, fun kind => ?_, ?_⟩
      · cases k <;> cases kind <;> exact ⟨rfl, rfl⟩
      · cases k <;> simp [OwnerPC.mayLetIn] <;> omega
    · obtain rfl := Option.some.inj hnext
      exact ⟨by simp [OwnerPC.stepsLeft], fun _ => ⟨rfl, rfl⟩, by simp [OwnerPC.mayLetIn]⟩
  case posting k =>
    obtain rfl := hnext
    refine ⟨Nat.le_refl _, fun kind => ?_, ?_⟩
    · cases k <;> cases kind <;> exact ⟨rfl, rfl⟩
    · cases k <;> exact Nat.le_refl _
  case readingAuto | readingPickup =>
    obtain rfl := hnext
    refine ⟨?_, fun _ => ⟨rfl, rfl⟩, ?_⟩
    · dsimp only
      split <;> simp [OwnerPC.stepsLeft]
    · dsimp only
      split <;> exact Nat.le_refl _
  case postingAuto | postingPickup =>
    obtain rfl := hnext
    refine ⟨Nat.le_refl _, fun kind => ?_, Nat.le_refl _⟩
    cases kind <;> exact ⟨rfl, rfl⟩
  all_goals
    obtain rfl := hnext
    exact ⟨Nat.le_refl _, fun _ => ⟨rfl, rfl⟩, Nat.le_refl _⟩

/-- A step of one attendant that winds its area. -/
theorem winds_area {s : SignalState} {kind : Kind} {a : Area} {mutex : Bool}
    {interrupted : Kind → Bool} (hend : s.lot.simulationEnd = true)
    (hsteps : a.attendant.stepsLeft + 1 = (s.lot.area kind).attendant.stepsLeft)
    (hpark : a.parked + a.attendant.hasCar.toNat
      = (s.lot.area kind).parked + (s.lot.area kind).attendant.hasCar.toNat)
    (haccepted : a.accepted = (s.lot.area kind).accepted) :
    Winds s { s with
      lot := { s.lot with area := update s.lot.area kind a, parkingLotMutex := mutex }
      interrupted := interrupted } 0 := by
  refine ⟨hend, ?_, fun k => ?_, ?_⟩
  · cases kind <;> simp [SignalState.stepsLeft] <;> omega
  · unfold SignalState.toPark
    dsimp only
    by_cases hk : k = kind
    · rw [hk, update_self, hpark]
    · rw [update_of_ne hk]
  · cases kind <;> simp [SignalState.toLetIn, haccepted]

theorem winds_deliver {s : SignalState} (hend : s.lot.simulationEnd = true) (thread : Thread)
    (interrupted : Kind → Bool) :
    Winds s { s.deliver thread with interrupted := interrupted } 1 := by
  have hwork := handlersLeft_update s.handlers thread (.settingEnd :: s.handlers thread)
  rw [handlerSteps, HandlerPC.stepsLeft] at hwork
  refine ⟨hend, ?_, fun _ => rfl, Nat.le_refl _⟩
  show s.lot.owner.stepsLeft + (s.lot.area .auto).attendant.stepsLeft
      + (s.lot.area .pickup).attendant.stepsLeft
      + handlersLeft (update s.handlers thread (.settingEnd :: s.handlers thread)) + 1 ≤ _
  unfold SignalState.stepsLeft
  omega

theorem signalHandler_area (pc : HandlerPC) (lot : State) (kind : Kind) :
    ((signalHandler pc lot).area kind).attendant = (lot.area kind).attendant ∧
      ((signalHandler pc lot).area kind).parked = (lot.area kind).parked ∧
      ((signalHandler pc lot).area kind).accepted = (lot.area kind).accepted := by
  rcases pc with _ | (_ | _) | (_ | _) <;> cases kind <;> exact ⟨rfl, rfl, rfl⟩

theorem signalHandler_owner (pc : HandlerPC) (lot : State) :
    (signalHandler pc lot).owner = lot.owner := by
  cases pc <;> rfl

theorem winds_handler {s : SignalState} (hend : s.lot.simulationEnd = true) {thread : Thread}
    {pc : HandlerPC} {rest : List HandlerPC} (hpc : s.handlers thread = pc :: rest) :
    Winds s { s with lot := signalHandler pc s.lot
                     handlers := update s.handlers thread (pc.next.toList ++ rest) } 0 := by
  have hwork := handlersLeft_update s.handlers thread (pc.next.toList ++ rest)
  have hnext := handlerSteps_next pc rest
  rw [hpc] at hwork
  refine ⟨signalHandler_ended (.inl hend), ?_, fun kind => ?_, ?_⟩
  · unfold SignalState.stepsLeft
    dsimp only
    rw [signalHandler_owner, (signalHandler_area pc s.lot .auto).1,
      (signalHandler_area pc s.lot .pickup).1]
    omega
  · obtain ⟨hattendant, hparked, -⟩ := signalHandler_area pc s.lot kind
    unfold SignalState.toPark
    dsimp only
    rw [hattendant, hparked]
  · unfold SignalState.toLetIn
    dsimp only
    rw [signalHandler_owner, (signalHandler_area pc s.lot .auto).2.2,
      (signalHandler_area pc s.lot .pickup).2.2]

/-- The waits that a signal interrupts are over only when the attendant goes on. -/
def WaitsInterrupted (s : SignalState) : Prop :=
  ∀ kind, s.interrupted kind = true → (s.lot.area kind).attendant.isWaiting = true

theorem SignalStep.winds {maxAmount : Kind → ℕ} {s s' : SignalState} {a : SignalMove}
    (hstep : SignalStep maxAmount s a s') (hend : s.lot.simulationEnd = true)
    (hwaits : WaitsInterrupted s) : Winds s s' a.isSignal.toNat := by
  cases hstep with
  | signal thread => exact winds_deliver hend thread s.interrupted
  | interrupts kind hwaiting => exact winds_deliver hend (.attendant kind) _
  | handler thread pc rest hpc => exact winds_handler hend hpc
  | owner rand lot hidle hnext =>
      obtain ⟨hsteps, harea, hletIn⟩ := carOwner_winds hend hnext
      refine ⟨carOwner_flag hnext hend, ?_, fun kind => ?_, hletIn⟩
      · unfold SignalState.stepsLeft
        dsimp only
        rw [(harea .auto).1, (harea .pickup).1]
        simp only [SignalMove.isSignal, Bool.toNat_false]
        omega
      · unfold SignalState.toPark
        dsimp only
        rw [(harea kind).1, (harea kind).2]
  | skips kind hidle hinterrupted =>
      obtain ⟨hsteps, hpark, haccepted⟩ := skipWait_winds (hwaits kind hinterrupted)
      exact winds_area hend hsteps hpark haccepted
  | attendant kind lot hidle hinterrupted hnext =>
      obtain ⟨⟨a', mutex'⟩, hturn, rfl⟩ := Option.map_eq_some_iff.1 hnext
      rw [hend] at hturn
      obtain ⟨hsteps, hpark, haccepted⟩ := attendantTurn_winds hturn
      exact winds_area hend hsteps hpark haccepted

/-! ## A post for each attendant -/

/-- The attendant has taken the post that leads it to the flag, or has none to take any more. -/
def AttendantPC.isLast : AttendantPC → Bool
  | .waitingCharge | .locking | .checking | .unlockingEnd | .postingEnd | .returned => true
  | _ => false

/-- One of the final posts of the owner is still to come. -/
def OwnerPC.willPost : Kind → OwnerPC → Bool
  | _, .unlockingEnd | _, .postingAuto | .pickup, .postingPickup => true
  | _, _ => false

/-- The handler has still to post `newAutomobile` or `newPickup`. -/
def HandlerPC.willPost : Kind → HandlerPC → Bool
  | _, .settingEnd | _, .postingNew .auto | .pickup, .postingNew .pickup => true
  | _, _ => false

/-- Behind the flag there is a post for the attendant, or there will be one, or it needs none. -/
def Ready (s : SignalState) (kind : Kind) : Prop :=
  0 < (s.lot.area kind).newCar ∨ (s.lot.area kind).attendant.isLast = true ∨
    s.lot.owner.willPost kind = true ∨
    ∃ thread, ∃ pc ∈ s.handlers thread, pc.willPost kind = true

/-- What holds in every reachable state about the waits and the posts of a shutdown. -/
structure ShutdownInv (s : SignalState) : Prop where
  waits : WaitsInterrupted s
  ready : s.lot.simulationEnd = true → ∀ kind, Ready s kind

/-- The last `sem_wait` of an attendant is the one that takes the post. -/
theorem attendantTurn_ready {mutex mutex' : Bool} {a a' : Area}
    (hturn : attendantTurn true mutex a = some (a', mutex')) :
    (0 < a.newCar → 0 < a'.newCar ∨ a'.attendant.isLast = true) ∧
      (a.attendant.isLast = true → a'.attendant.isLast = true) := by
  cases hpc : a.attendant
  all_goals
    simp only [attendantTurn, hpc, Option.ite_none_left_eq_some, Option.some.injEq,
      Prod.mk.injEq, if_true, reduceCtorEq] at hturn
  case waitingNew =>
    obtain ⟨-, rfl, -⟩ := hturn
    exact ⟨fun _ => .inr rfl, fun _ => rfl⟩
  case waitingCharge | locking =>
    obtain ⟨-, rfl, -⟩ := hturn
    exact ⟨.inl, fun _ => rfl⟩
  case lockingPark =>
    obtain ⟨-, rfl, -⟩ := hturn
    exact ⟨.inl, (absurd · Bool.false_ne_true)⟩
  case checking | unlockingEnd | postingEnd =>
    obtain ⟨rfl, -⟩ := hturn
    exact ⟨.inl, fun _ => rfl⟩
  all_goals
    obtain ⟨rfl, -⟩ := hturn
    exact ⟨.inl, (absurd · Bool.false_ne_true)⟩

theorem carOwner_ready {maxAmount : Kind → ℕ} {rand : Kind} {lot lot' : State}
    (hnext : carOwner maxAmount rand lot = some lot') :
    (lot'.simulationEnd = true → lot.simulationEnd = true ∨
      ∀ kind, lot'.owner.willPost kind = true) ∧
    (∀ kind, (lot.area kind).newCar ≤ (lot'.area kind).newCar ∧
      (lot'.area kind).attendant = (lot.area kind).attendant ∧
      (lot.owner.willPost kind = true →
        0 < (lot'.area kind).newCar ∨ lot'.owner.willPost kind = true)) := by
  cases hpc : lot.owner
  all_goals
    simp only [carOwner, hpc, Option.ite_none_left_eq_some, Option.some.injEq, reduceCtorEq]
      at hnext
  case locking | lockingEnd =>
    obtain ⟨-, rfl⟩ := hnext
    exact ⟨.inl, fun kind => ⟨Nat.le_refl _, rfl, by cases kind <;> exact (absurd · Bool.false_ne_true)⟩⟩
  case deciding k =>
    split at hnext <;> obtain rfl := Option.some.inj hnext
    · refine ⟨.inl, fun kind => ?_⟩
      cases k <;> cases kind <;> exact ⟨Nat.le_refl _, rfl, (absurd · Bool.false_ne_true)⟩
    · exact ⟨.inl, fun kind => ⟨Nat.le_refl _, rfl, by cases kind <;> exact (absurd · Bool.false_ne_true)⟩⟩
  case posting k =>
    obtain rfl := hnext
    refine ⟨.inl, fun kind => ?_⟩
    cases k <;> cases kind <;>
      first
        | exact ⟨Nat.le_refl _, rfl, (absurd · Bool.false_ne_true)⟩
        | exact ⟨Nat.le_succ _, rfl, (absurd · Bool.false_ne_true)⟩
  case settingEnd =>
    obtain rfl := hnext
    exact ⟨fun _ => .inr fun kind => by cases kind <;> rfl,
      fun kind => ⟨Nat.le_refl _, rfl, by cases kind <;> exact (absurd · Bool.false_ne_true)⟩⟩
  case unlockingEnd =>
    obtain rfl := hnext
    exact ⟨.inl, fun kind => ⟨Nat.le_refl _, rfl, fun _ => .inr (by cases kind <;> rfl)⟩⟩
  case postingAuto =>
    obtain rfl := hnext
    refine ⟨.inl, fun kind => ?_⟩
    cases kind with
    | auto => exact ⟨Nat.le_succ _, rfl, fun _ => .inl (Nat.succ_pos _)⟩
    | pickup => exact ⟨Nat.le_refl _, rfl, fun _ => .inr rfl⟩
  case postingPickup =>
    obtain rfl := hnext
    refine ⟨.inl, fun kind => ?_⟩
    cases kind with
    | auto => exact ⟨Nat.le_refl _, rfl, (absurd · Bool.false_ne_true)⟩
    | pickup => exact ⟨Nat.le_succ _, rfl, fun _ => .inl (Nat.succ_pos _)⟩
  all_goals
    obtain rfl := hnext
    exact ⟨.inl, fun kind => ⟨Nat.le_refl _, rfl, by cases kind <;> exact (absurd · Bool.false_ne_true)⟩⟩

/-- A handler that is to post does so, or is to post still. -/
theorem signalHandler_ready (pc : HandlerPC) (lot : State) (kind : Kind) :
    (lot.area kind).newCar ≤ ((signalHandler pc lot).area kind).newCar ∧
      (pc.willPost kind = true → 0 < ((signalHandler pc lot).area kind).newCar ∨
        ∃ pc' ∈ pc.next.toList, pc'.willPost kind = true) := by
  rcases pc with _ | (_ | _) | (_ | _) <;> cases kind
  case settingEnd.auto | settingEnd.pickup =>
    exact ⟨Nat.le_refl _, fun _ => .inr ⟨.postingNew .auto, List.mem_singleton_self _, rfl⟩⟩
  case postingNew.auto.auto | postingNew.pickup.pickup =>
    exact ⟨Nat.le_succ _, fun _ => .inl (Nat.succ_pos _)⟩
  case postingNew.auto.pickup =>
    exact ⟨Nat.le_refl _, fun _ => .inr ⟨.postingNew .pickup, List.mem_singleton_self _, rfl⟩⟩
  all_goals exact ⟨Nat.le_refl _, nofun⟩

theorem WaitsInterrupted.step {maxAmount : Kind → ℕ} {s s' : SignalState} {a : SignalMove}
    (h : WaitsInterrupted s) (hstep : SignalStep maxAmount s a s') : WaitsInterrupted s' := by
  intro k hk
  cases hstep with
  | signal thread => exact h k hk
  | interrupts kind hwaiting =>
      by_cases heq : k = kind
      · rw [heq]
        exact hwaiting
      · dsimp only at hk
        rw [update_of_ne heq] at hk
        exact h k hk
  | handler thread pc rest hpc =>
      dsimp only
      rw [(signalHandler_area pc s.lot k).1]
      exact h k hk
  | owner rand lot hidle hnext =>
      dsimp only
      rw [((carOwner_ready hnext).2 k).2.1]
      exact h k hk
  | skips kind hidle hinterrupted =>
      dsimp only at hk ⊢
      by_cases heq : k = kind
      · rw [heq, update_self] at hk
        cases hk
      · rw [update_of_ne heq] at hk ⊢
        exact h k hk
  | attendant kind lot hidle hinterrupted hnext =>
      obtain ⟨r, -, rfl⟩ := Option.map_eq_some_iff.1 hnext
      dsimp only at hk ⊢
      by_cases heq : k = kind
      · rw [heq] at hk
        exact absurd (hinterrupted.symm.trans hk) nofun
      · rw [update_of_ne heq]
        exact h k hk

/-- Whatever makes an attendant ready still does after the step. -/
theorem Ready.mono {s s' : SignalState} {kind : Kind} (h : Ready s kind)
    (hnew : 0 < (s.lot.area kind).newCar → Ready s' kind)
    (hlast : (s.lot.area kind).attendant.isLast = true → Ready s' kind)
    (howner : s.lot.owner.willPost kind = true → Ready s' kind)
    (hhandlers : ∀ thread, ∀ pc ∈ s.handlers thread, pc.willPost kind = true → Ready s' kind) :
    Ready s' kind := by
  rcases h with h | h | h | ⟨thread, pc, hpc, h⟩
  · exact hnew h
  · exact hlast h
  · exact howner h
  · exact hhandlers thread pc hpc h

/-- The attendant of an area and its posts change, and nothing else. -/
theorem Ready.setArea {s : SignalState} {kind : Kind} {a : Area} {mutex : Bool}
    {interrupted : Kind → Bool} (h : ∀ k, Ready s k)
    (hnew : 0 < (s.lot.area kind).newCar → 0 < a.newCar ∨ a.attendant.isLast = true)
    (hlast : (s.lot.area kind).attendant.isLast = true → a.attendant.isLast = true) (k : Kind) :
    Ready { s with
      lot := { s.lot with area := update s.lot.area kind a, parkingLotMutex := mutex }
      interrupted := interrupted } k := by
  refine (h k).mono (fun hpos => ?_) (fun hl => ?_) (fun hp => .inr (.inr (.inl hp)))
    (fun thread pc hpc hp => .inr (.inr (.inr ⟨thread, pc, hpc, hp⟩)))
  all_goals
    unfold Ready
    dsimp only
    by_cases heq : k = kind
  · subst heq
    rw [update_self]
    rcases hnew hpos with hpos | hl
    · exact .inl hpos
    · exact .inr (.inl hl)
  · rw [update_of_ne heq]
    exact .inl hpos
  · subst heq
    rw [update_self]
    exact .inr (.inl (hlast hl))
  · rw [update_of_ne heq]
    exact .inr (.inl hl)

theorem Ready.deliver {s : SignalState} {kind : Kind} (h : Ready s kind) (thread : Thread)
    (interrupted : Kind → Bool) :
    Ready { s.deliver thread with interrupted := interrupted } kind := by
  refine h.mono .inl (fun hl => .inr (.inl hl)) (fun hp => .inr (.inr (.inl hp))) ?_
  intro t pc hpc hp
  refine .inr (.inr (.inr ⟨t, pc, ?_, hp⟩))
  show pc ∈ update s.handlers thread (.settingEnd :: s.handlers thread) t
  by_cases ht : t = thread
  · subst ht
    rw [update_self]
    exact List.mem_cons_of_mem _ hpc
  · rwa [update_of_ne ht]

theorem ShutdownInv.ready_step {maxAmount : Kind → ℕ} {s s' : SignalState} {a : SignalMove}
    (h : ShutdownInv s) (hinv : SignalInv maxAmount s) (hstep : SignalStep maxAmount s a s')
    (hend' : s'.lot.simulationEnd = true) (k : Kind) : Ready s' k := by
  cases hstep with
  | signal thread => exact (h.ready hend' k).deliver thread s.interrupted
  | interrupts kind hwaiting => exact (h.ready hend' k).deliver (.attendant kind) _
  | handler thread pc rest hpc =>
      -- what the handler is about to do is what it does, or what it does next
      have hhead : pc.willPost k = true →
          Ready { s with lot := signalHandler pc s.lot
                         handlers := update s.handlers thread (pc.next.toList ++ rest) } k := by
        intro hp
        rcases (signalHandler_ready pc s.lot k).2 hp with hpos | ⟨pc', hpc', hp'⟩
        · exact .inl hpos
        · refine .inr (.inr (.inr ⟨thread, pc', ?_, hp'⟩))
          show pc' ∈ update s.handlers thread (pc.next.toList ++ rest) thread
          rw [update_self]
          exact List.mem_append_left _ hpc'
      by_cases hset : pc = .settingEnd
      · exact hhead (by rw [hset]; cases k <;> rfl)
      · have hend := hinv.handlers thread pc (by rw [hpc]; exact List.mem_cons_self) hset
        refine (h.ready hend k).mono
          (fun hpos => .inl (hpos.trans_le (signalHandler_ready pc s.lot k).1))
          (fun hl => .inr (.inl (by rw [(signalHandler_area pc s.lot k).1]; exact hl)))
          (fun hp => .inr (.inr (.inl (by rw [signalHandler_owner]; exact hp)))) ?_
        intro t pc' hpc' hp'
        by_cases ht : t = thread
        · subst ht
          rw [hpc] at hpc'
          rcases List.mem_cons.1 hpc' with rfl | hrest
          · exact hhead hp'
          · refine .inr (.inr (.inr ⟨t, pc', ?_, hp'⟩))
            show pc' ∈ update s.handlers t (pc.next.toList ++ rest) t
            rw [update_self]
            exact List.mem_append_right _ hrest
        · refine .inr (.inr (.inr ⟨t, pc', ?_, hp'⟩))
          show pc' ∈ update s.handlers thread (pc.next.toList ++ rest) t
          rwa [update_of_ne ht]
  | owner rand lot hidle hnext =>
      obtain ⟨hends, harea⟩ := carOwner_ready hnext
      obtain ⟨hnew, hattendant, hpost⟩ := harea k
      rcases hends hend' with hend | hall
      · refine (h.ready hend k).mono (fun hpos => .inl (hpos.trans_le hnew))
          (fun hl => .inr (.inl (by rw [hattendant]; exact hl))) (fun hp => ?_)
          (fun t pc hpc hp => .inr (.inr (.inr ⟨t, pc, hpc, hp⟩)))
        rcases hpost hp with hpos | hp'
        · exact .inl hpos
        · exact .inr (.inr (.inl hp'))
      · exact .inr (.inr (.inl (hall k)))
  | skips kind hidle hinterrupted =>
      have hend : s.lot.simulationEnd = true := hend'
      refine Ready.setArea (h.ready hend) (fun hpos => ?_) (fun hl => ?_) k
      · left
        unfold Area.skipWait
        split <;> exact hpos
      · unfold Area.skipWait
        split
        · rfl
        · rfl
        · exact hl
  | attendant kind lot hidle hinterrupted hnext =>
      have hend := (carAttendant_flag hnext).symm.trans hend'
      obtain ⟨⟨a', mutex'⟩, hturn, rfl⟩ := Option.map_eq_some_iff.1 hnext
      rw [hend] at hturn
      obtain ⟨hnew, hlast⟩ := attendantTurn_ready hturn
      exact Ready.setArea (h.ready hend) hnew hlast k

theorem shutdownInv_reachable {maxAmount : Kind → ℕ} {s : SignalState}
    (h : (signalMachine maxAmount).Reachable s) : ShutdownInv s := by
  refine h.invariant ?_ fun s a s' hs hinv hnext => ?_
  · rintro s rfl
    exact ⟨nofun, nofun⟩
  · have hstep := signalStep_of_next hnext
    exact ⟨hinv.waits.step hstep, hinv.ready_step (signalInv_reachable hs) hstep⟩

/-! ## Where the program stops -/

/-- Neither a thread nor a handler can step. -/
def Halted (maxAmount : Kind → ℕ) (s : SignalState) : Prop :=
  ∀ a, a.isSignal = false → (signalMachine maxAmount).next s a = none

/-- All three threads have returned, and no handler is running. -/
structure AllReturned (s : SignalState) : Prop where
  owner : s.lot.owner = .returned
  attendants : ∀ kind, (s.lot.area kind).attendant = .returned
  handlers : ∀ thread, s.handlers thread = []

section Halted

variable {maxAmount : Kind → ℕ} {s : SignalState}

theorem Halted.handlers (h : Halted maxAmount s) (thread : Thread) : s.handlers thread = [] := by
  have hnone := h (.handler thread) rfl
  simp only [signalMachine] at hnone
  split at hnone
  · next hempty => exact hempty
  · cases hnone

theorem Halted.carOwner (h : Halted maxAmount s) (rand : Kind) :
    carOwner maxAmount rand s.lot = none := by
  have hnone := h (.owner rand) rfl
  simp only [signalMachine, h.handlers .owner] at hnone
  exact Option.map_eq_none_iff.1 hnone

theorem Halted.attendantTurn (h : Halted maxAmount s) (kind : Kind) :
    attendantTurn s.lot.simulationEnd s.lot.parkingLotMutex (s.lot.area kind) = none := by
  have hnone := h (.attendant kind) rfl
  simp only [signalMachine, h.handlers (.attendant kind), List.isEmpty_nil, if_true] at hnone
  unfold attendantMove at hnone
  split at hnone
  · cases hnone
  · exact Option.map_eq_none_iff.1 (Option.map_eq_none_iff.1 hnone)

/-- Who has the mutex can step, so that it is free where nobody can. -/
theorem Halted.mutex (h : Halted maxAmount s) (hlot : LotTally maxAmount s.lot) :
    s.lot.parkingLotMutex = false := by
  cases hlocked : s.lot.parkingLotMutex with
  | false => rfl
  | true =>
      have howner := h.carOwner .auto
      have hnone : s.lot.owner.inside = 0 := by
        cases hpc : s.lot.owner
        case deciding k =>
          simp only [Parking.carOwner, hpc] at howner
          split at howner <;> cases howner
        case posting | unlocking | settingEnd | unlockingEnd =>
          simp [Parking.carOwner, hpc] at howner
        all_goals rfl
      have hattendant : ∀ kind, (s.lot.area kind).attendant.inside = 0 := by
        intro kind
        have hturn := h.attendantTurn kind
        cases hpc : (s.lot.area kind).attendant
        case checking | unlockingEnd | unlockingTaken | freeingTemp | takingPlace
            | unlockingParked =>
          simp [Parking.attendantTurn, hpc] at hturn
        all_goals rfl
      have hmutex := hlot.mutex
      rw [hlocked, hnone, hattendant, hattendant] at hmutex
      cases hmutex

/-- Behind the flag nobody waits in vain: where nobody can step, all threads have returned. -/
theorem Halted.allReturned (h : Halted maxAmount s) (hinv : SignalInv maxAmount s)
    (hready : ∀ kind, Ready s kind) : AllReturned s := by
  have hmutex := h.mutex hinv.lot
  have howner : s.lot.owner = .returned := by
    have hnone := h.carOwner .auto
    cases hpc : s.lot.owner
    case returned => rfl
    case deciding k =>
      simp only [Parking.carOwner, hpc] at hnone
      split at hnone <;> cases hnone
    all_goals simp [Parking.carOwner, hpc, hmutex] at hnone
  refine ⟨howner, fun kind => ?_, h.handlers⟩
  have hnew : (s.lot.area kind).attendant = .waitingNew → (s.lot.area kind).newCar ≠ 0 := by
    -- no post is there, none is taken, and nobody is left to post
    intro hpc hzero
    rcases hready kind with hpos | hlast | hpost | ⟨thread, pc, hpc', -⟩
    · omega
    · rw [hpc] at hlast
      cases hlast
    · rw [howner] at hpost
      cases kind <;> cases hpost
    · rw [h.handlers thread] at hpc'
      cases hpc'
  have hcharge : (s.lot.area kind).attendant = .waitingCharge →
      (s.lot.area kind).inCharge ≠ 0 := by
    intro hpc hzero
    have hone := (hinv.lot.area kind).charge
    rw [hpc, hzero] at hone
    exact absurd hone (by decide)
  have hlocked : s.lot.parkingLotMutex = true → (s.lot.area kind).attendant.inside = 1 :=
    fun hlocked => absurd (hmutex.symm.trans hlocked) Bool.false_ne_true
  by_contra hne
  obtain ⟨r, hr⟩ := attendantTurn_moves hnew hcharge hlocked hne
  exact absurd ((h.attendantTurn kind).symm.trans hr) (Option.some_ne_none r).symm

end Halted

/-! ## The shutdown -/

/-- The handlers that are running. -/
def SignalState.running (s : SignalState) : ℕ :=
  (s.handlers .main).length + (s.handlers .owner).length
    + (s.handlers (.attendant .auto)).length + (s.handlers (.attendant .pickup)).length

theorem handlerSteps_le (l : List HandlerPC) : handlerSteps l ≤ 5 * l.length := by
  induction l with
  | nil => exact Nat.le_refl 0
  | cons pc rest ih =>
      have hpc : pc.stepsLeft ≤ 5 := by rcases pc with _ | (_ | _) | (_ | _) <;> decide
      rw [handlerSteps, List.length_cons]
      omega

theorem stepsLeft_le (s : SignalState) : s.stepsLeft ≤ 36 + 5 * s.running := by
  have howner : s.lot.owner.stepsLeft ≤ 12 := by cases s.lot.owner <;> simp [OwnerPC.stepsLeft]
  have hattendant : ∀ kind, (s.lot.area kind).attendant.stepsLeft ≤ 12 := by
    intro kind
    cases (s.lot.area kind).attendant <;> decide
  have hauto := hattendant .auto
  have hpickup := hattendant .pickup
  have hmain := handlerSteps_le (s.handlers .main)
  have hown := handlerSteps_le (s.handlers .owner)
  have hfirst := handlerSteps_le (s.handlers (.attendant .auto))
  have hsecond := handlerSteps_le (s.handlers (.attendant .pickup))
  unfold SignalState.stepsLeft handlersLeft SignalState.running
  omega

/-- What a run does behind the flag. -/
theorem exec_winds {maxAmount : Kind → ℕ} (labels : List SignalMove) {s s' : SignalState}
    (h : (signalMachine maxAmount).Reachable s) (hend : s.lot.simulationEnd = true)
    (he : (signalMachine maxAmount).exec s labels = some s') :
    s'.lot.simulationEnd = true ∧
      labels.length + s'.stepsLeft ≤ s.stepsLeft + 6 * labels.countP SignalMove.isSignal ∧
      (∀ kind, s'.toPark kind = s.toPark kind) ∧ s'.toLetIn ≤ s.toLetIn := by
  induction labels generalizing s with
  | nil =>
      obtain rfl := Option.some.inj he
      exact ⟨hend, by simp, fun _ => rfl, Nat.le_refl _⟩
  | cons a rest ih =>
      obtain ⟨t, hnext, he⟩ := Option.bind_eq_some_iff.1 he
      have hwinds := (signalStep_of_next hnext).winds hend (shutdownInv_reachable h).waits
      obtain ⟨hended, hsteps, hpark, hletIn⟩ := ih (h.step hnext) hwinds.ended he
      refine ⟨hended, ?_, fun kind => (hpark kind).trans (hwinds.toPark kind),
        hletIn.trans hwinds.toLetIn⟩
      have hstep := hwinds.steps
      rw [List.length_cons, List.countP_cons]
      cases hsignal : a.isSignal <;> rw [hsignal] at hstep <;> simp at hstep ⊢ <;> omega

/-- **A shutdown ends, and loses no car that an attendant has taken.** Behind the flag, in every
    interleaving and whatever signals still come: the owner lets in one more car at most; an
    attendant parks the car that it holds, if any, and no other; a run has at most 36 steps, 5 for
    each running handler and 6 for each new signal; and where neither thread nor handler can step,
    all three threads have returned. -/
theorem shutdown {maxAmount : Kind → ℕ} {s s' : SignalState}
    (h : (signalMachine maxAmount).Reachable s) (hend : s.lot.simulationEnd = true)
    {labels : List SignalMove} (he : (signalMachine maxAmount).exec s labels = some s') :
    (s'.lot.area .auto).accepted + (s'.lot.area .pickup).accepted
        ≤ (s.lot.area .auto).accepted + (s.lot.area .pickup).accepted + 1 ∧
    (∀ kind, (s'.lot.area kind).parked + (s'.lot.area kind).attendant.hasCar.toNat
        = (s.lot.area kind).parked + (s.lot.area kind).attendant.hasCar.toNat) ∧
    labels.length ≤ 36 + 5 * s.running + 6 * labels.countP SignalMove.isSignal ∧
    (Halted maxAmount s' → AllReturned s' ∧ ∀ kind, (s'.lot.area kind).mFree
        = maxAmount kind - (s.lot.area kind).parked
          - (s.lot.area kind).attendant.hasCar.toNat) := by
  obtain ⟨hend', hsteps, hpark, hletIn⟩ := exec_winds labels h hend he
  have hs' := h.exec labels he
  have hinv := signalInv_reachable hs'
  refine ⟨?_, hpark, ?_, fun hhalted => ?_⟩
  · have hmay : s.lot.owner.mayLetIn ≤ 1 := by
      cases s.lot.owner <;> simp [OwnerPC.mayLetIn]
    unfold SignalState.toLetIn at hletIn
    omega
  · have := stepsLeft_le s
    omega
  · have hall := hhalted.allReturned hinv ((shutdownInv_reachable hs').ready hend')
    refine ⟨hall, fun kind => ?_⟩
    have hparked := hpark kind
    have hfree := (hinv.lot.area kind).free
    unfold SignalState.toPark at hparked
    rw [hall.attendants kind, show AttendantPC.hasCar .returned = false from rfl,
      Bool.toNat_false] at hparked
    omega

/-- To the returns of the threads, when the flag is set while an attendant has a car. -/
def shutdownRun : List SignalMove :=
  List.replicate 4 (.handler .main) ++ List.replicate 12 (.attendant .auto) ++
    List.replicate 6 (.attendant .pickup) ++ List.replicate 2 (.owner .auto)

theorem shutdown_parks : ∃ s s' : SignalState,
    (signalMachine fun _ => 2).exec ⟨init fun _ => 2, fun _ => [], fun _ => false⟩
      (List.replicate 6 (.owner .auto) ++ List.replicate 4 (.attendant .auto) ++
        [.signal .main, .handler .main]) = some s ∧
    (signalMachine fun _ => 2).exec s shutdownRun = some s' ∧
    s.lot.simulationEnd = true ∧ (s.lot.area .auto).parked = 0 ∧ (s'.lot.area .auto).parked = 1 ∧
    (s'.lot.area .auto).accepted + (s'.lot.area .pickup).accepted
        ≤ (s.lot.area .auto).accepted + (s.lot.area .pickup).accepted + 1 ∧
    (∀ kind, (s'.lot.area kind).parked + (s'.lot.area kind).attendant.hasCar.toNat
        = (s.lot.area kind).parked + (s.lot.area kind).attendant.hasCar.toNat) ∧
    shutdownRun.length ≤ 36 + 5 * s.running + 6 * shutdownRun.countP SignalMove.isSignal ∧
    (Halted (fun _ => 2) s' → AllReturned s' ∧ ∀ kind, (s'.lot.area kind).mFree
        = (2 : ℕ) - (s.lot.area kind).parked - (s.lot.area kind).attendant.hasCar.toNat) := by
  obtain ⟨s, s', hs, hs', hend, hnone, hone⟩ : ∃ s s' : SignalState,
      (signalMachine fun _ => 2).exec ⟨init fun _ => 2, fun _ => [], fun _ => false⟩
        (List.replicate 6 (.owner .auto) ++ List.replicate 4 (.attendant .auto) ++
          [.signal .main, .handler .main]) = some s ∧
      (signalMachine fun _ => 2).exec s shutdownRun = some s' ∧
      s.lot.simulationEnd = true ∧ (s.lot.area .auto).parked = 0 ∧
      (s'.lot.area .auto).parked = 1 := ⟨_, _, rfl, rfl, rfl, rfl, rfl⟩
  have hreach : (signalMachine fun _ => 2).Reachable s := (Machine.Reachable.init rfl).exec _ hs
  exact ⟨s, s', hs, hs', hend, hnone, hone, shutdown hreach hend hs'⟩

end SystemProgramming.Parking
