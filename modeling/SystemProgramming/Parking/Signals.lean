import SystemProgramming.Parking.Accounting
import SystemProgramming.Lib.Threads

set_option autoImplicit false

/-! # The parking lot under `SIGINT` and `SIGTSTP`

`signal_handler` runs in whatever thread a signal is delivered to, in the middle of what that thread
does, and a second signal can interrupt the handler itself. It takes no mutex: it sets
`simulationEnd` and then posts the four semaphores, whatever their values. Without `SA_RESTART` a
`sem_wait` that is interrupted fails, and the attendants go on as if it had not.

`signalMachine` adds all of this to the steps of `parkingMachine`. What the handler posts stands for
no car, but it is posted behind the flag, and an attendant looks at the flag before it takes a
car. -/

namespace SystemProgramming.Parking

open Function

/-! ## The handler -/

/-- Where a run of `signal_handler` is: the access it makes next. -/
inductive HandlerPC
  | settingEnd
  | postingNew (kind : Kind)
  | postingCharge (kind : Kind)
  deriving DecidableEq

/-- The order of the accesses. -/
def HandlerPC.next : HandlerPC → Option HandlerPC
  | .settingEnd => some (.postingNew .auto)
  | .postingNew .auto => some (.postingNew .pickup)
  | .postingNew .pickup => some (.postingCharge .auto)
  | .postingCharge .auto => some (.postingCharge .pickup)
  | .postingCharge .pickup => none

/-- `sem_post(&inChargeforAutomobile)` or `sem_post(&inChargeforPickup)`. -/
def Area.postCharge (a : Area) : Area := { a with inCharge := a.inCharge + 1 }

/-- One access of `signal_handler`. -/
def signalHandler (pc : HandlerPC) (lot : State) : State :=
  match pc with
  | .settingEnd => { lot with simulationEnd := true }
  | .postingNew kind => { lot with area := update lot.area kind (lot.area kind).postNew }
  | .postingCharge kind => { lot with area := update lot.area kind (lot.area kind).postCharge }

/-! ## The machine -/

/-- The threads; `main` is in `pthread_join`. -/
inductive Thread
  | main
  | owner
  | attendant (kind : Kind)
  deriving DecidableEq

/-- The parking lot, and the signal handlers that run on top of its threads. -/
structure SignalState where
  lot : State
  /-- the handlers that run in the thread, the innermost first -/
  handlers : Thread → List HandlerPC
  /-- the attendant was asleep in `sem_wait`, which fails when the handlers have returned -/
  interrupted : Kind → Bool

/-- The attendant is in a `sem_wait` on a semaphore, or about to enter it. -/
def AttendantPC.isWaiting : AttendantPC → Bool
  | .waitingNew | .waitingCharge => true
  | _ => false

/-- Behind a `sem_wait` that has failed: nobody looks at what it returns. -/
def Area.skipWait (a : Area) : Area :=
  match a.attendant with
  | .waitingNew => { a with attendant := .waitingCharge }
  | .waitingCharge => { a with attendant := .locking }
  | _ => a

/-- The handler is called in this thread. -/
def SignalState.deliver (s : SignalState) (thread : Thread) : SignalState :=
  { s with handlers := update s.handlers thread (.settingEnd :: s.handlers thread) }

/-- A step of an attendant that runs no handler. -/
def attendantMove (kind : Kind) (s : SignalState) : Option SignalState :=
  if s.interrupted kind then
    some { s with
      lot := { s.lot with area := update s.lot.area kind (s.lot.area kind).skipWait }
      interrupted := update s.interrupted kind false }
  else (carAttendant kind s.lot).map fun lot => { s with lot := lot }

/-- A signal for a thread, a signal that finds an attendant asleep in `sem_wait`, a step of the
    innermost handler of a thread, or a step of a thread itself; `rand` is what the owner's `rand`
    says. -/
inductive SignalMove
  | signal (thread : Thread)
  | interrupts (kind : Kind)
  | handler (thread : Thread)
  | owner (rand : Kind)
  | attendant (kind : Kind)

/-- The step of `parkingMachine` as a step of a thread. -/
def ofTurn : Turn → SignalMove
  | .owner rand => .owner rand
  | .attendantAuto => .attendant .auto
  | .attendantPickup => .attendant .pickup

/-- The move is the arrival of a signal. -/
def SignalMove.isSignal : SignalMove → Bool
  | .signal _ | .interrupts _ => true
  | _ => false

/-- The threads and their signals; a thread goes on when its handlers have returned. -/
def signalMachine (maxAmount : Kind → ℕ) : Machine SignalState SignalMove where
  init s := s = ⟨init maxAmount, fun _ => [], fun _ => false⟩
  next s
    | .signal thread => some (s.deliver thread)
    | .interrupts kind =>
        if (s.lot.area kind).attendant.isWaiting then
          some { s.deliver (.attendant kind) with interrupted := update s.interrupted kind true }
        else none
    | .handler thread =>
        match s.handlers thread with
        | [] => none
        | pc :: rest =>
            some { s with
              lot := signalHandler pc s.lot
              handlers := update s.handlers thread (pc.next.toList ++ rest) }
    | .owner rand =>
        if (s.handlers .owner).isEmpty then
          (carOwner maxAmount rand s.lot).map fun lot => { s with lot := lot }
        else none
    | .attendant kind =>
        if (s.handlers (.attendant kind)).isEmpty then attendantMove kind s else none

/-- Without signals the machine is `parkingMachine`. -/
theorem exec_turns {maxAmount : Kind → ℕ} (turns : List Turn) (lot : State) :
    (signalMachine maxAmount).exec ⟨lot, fun _ => [], fun _ => false⟩ (turns.map ofTurn)
      = ((parkingMachine maxAmount).exec lot turns).map fun lot' =>
          ⟨lot', fun _ => [], fun _ => false⟩ := by
  induction turns generalizing lot with
  | nil => rfl
  | cons turn turns ih =>
      have hnext : (signalMachine maxAmount).next ⟨lot, fun _ => [], fun _ => false⟩ (ofTurn turn)
          = ((parkingMachine maxAmount).next lot turn).map fun lot' =>
              ⟨lot', fun _ => [], fun _ => false⟩ := by
        cases turn <;> rfl
      rw [List.map_cons, Machine.exec, Machine.exec, hnext]
      cases (parkingMachine maxAmount).next lot turn with
      | none => rfl
      | some lot' => exact ih lot'

/-! ## One kind of car -/

/-- What the counters and semaphores of one kind of car say. While the simulation goes on, every
    post of the arrival semaphore stands for a car; from then on only what an attendant holds
    does. -/
structure Tally (maxAmount : ℕ) (ended : Bool) (letIn : ℕ) (a : Area) : Prop where
  charge : 1 ≤ a.inCharge + a.attendant.charged
  temp : a.mFreeTemp = maxAmount - (a.accepted - a.parked) + a.attendant.halfParked
  free : a.mFree = maxAmount - a.parked
  parked_le : a.parked ≤ a.accepted
  room : a.accepted ≤ maxAmount
  car : a.attendant.hasCar = true → a.parked < a.accepted
  posts : ended = false → a.newCar + a.attendant.taken + letIn + a.parked = a.accepted

namespace Tally

variable {maxAmount : ℕ} {ended : Bool} {letIn : ℕ} {a a' : Area}

/-- The end of the simulation takes nothing back. -/
theorem ends (h : Tally maxAmount ended letIn a) : Tally maxAmount true letIn a :=
  { h with posts := nofun }

theorem attendant {mutex mutex' : Bool} (h : Tally maxAmount ended letIn a)
    (hturn : attendantTurn ended mutex a = some (a', mutex')) :
    Tally maxAmount ended letIn a' := by
  obtain ⟨hcharge, htemp, hfree, hle, hroom, hcar, hposts⟩ := h
  cases hpc : a.attendant
  case returned =>
    rw [attendantTurn, hpc] at hturn
    cases hturn
  all_goals
    simp only [attendantTurn, hpc, Option.ite_none_left_eq_some, Option.some.injEq,
      Prod.mk.injEq] at hturn
    simp only [hpc, AttendantPC.charged, AttendantPC.taken, AttendantPC.halfParked]
      at hcharge htemp hposts
    rw [hpc] at hcar
  case waitingNew =>
    obtain ⟨hpost, rfl, -⟩ := hturn
    refine ⟨hcharge, htemp, hfree, hle, hroom, (absurd · Bool.false_ne_true), fun hgoes => ?_⟩
    have := hposts hgoes
    simp only [AttendantPC.taken]
    omega
  case waitingCharge =>
    obtain ⟨hpost, rfl, -⟩ := hturn
    exact ⟨Nat.le_add_left 1 _, htemp, hfree, hle, hroom, (absurd · Bool.false_ne_true), hposts⟩
  case locking =>
    obtain ⟨-, rfl, -⟩ := hturn
    exact ⟨hcharge, htemp, hfree, hle, hroom, (absurd · Bool.false_ne_true), hposts⟩
  case lockingPark =>
    obtain ⟨-, rfl, -⟩ := hturn
    exact ⟨hcharge, htemp, hfree, hle, hroom, hcar, hposts⟩
  case unlockingEnd =>
    obtain ⟨rfl, -⟩ := hturn
    exact ⟨hcharge, htemp, hfree, hle, hroom, (absurd · Bool.false_ne_true), hposts⟩
  case unlockingParked =>
    obtain ⟨rfl, -⟩ := hturn
    exact ⟨hcharge, htemp, hfree, hle, hroom, (absurd · Bool.false_ne_true), hposts⟩
  case unlockingTaken =>
    obtain ⟨rfl, -⟩ := hturn
    exact ⟨hcharge, htemp, hfree, hle, hroom, hcar, hposts⟩
  case checking =>
    -- while the simulation goes on, the post that was taken stands for a car
    obtain ⟨rfl, -⟩ := hturn
    cases ended with
    | true => exact ⟨hcharge, htemp, hfree, hle, hroom, (absurd · Bool.false_ne_true),
        (absurd · Bool.false_ne_true.symm)⟩
    | false =>
        have hlt : a.parked < a.accepted := by
          have := hposts rfl
          omega
        exact ⟨hcharge, htemp, hfree, hle, hroom, fun _ => hlt, hposts⟩
  case postingEnd =>
    obtain ⟨rfl, -⟩ := hturn
    exact ⟨Nat.le_add_left 1 _, htemp, hfree, hle, hroom, (absurd · Bool.false_ne_true), hposts⟩
  case postingCharge =>
    obtain ⟨rfl, -⟩ := hturn
    exact ⟨Nat.le_add_left 1 _, htemp, hfree, hle, hroom, hcar, hposts⟩
  case freeingTemp =>
    obtain ⟨rfl, -⟩ := hturn
    refine ⟨hcharge, ?_, hfree, hle, hroom, hcar, hposts⟩
    simp only [AttendantPC.halfParked]
    omega
  case takingPlace =>
    obtain ⟨rfl, -⟩ := hturn
    have hlt := hcar rfl
    refine ⟨hcharge, ?_, ?_, hlt, hroom, (absurd · Bool.false_ne_true), fun hgoes => ?_⟩
    · simp only [AttendantPC.halfParked]
      omega
    · show a.mFree - 1 = maxAmount - ((a.parked + 1 : ℕ) : ℤ)
      omega
    · have := hposts hgoes
      simp only [AttendantPC.taken]
      omega

/-- A post of the arrival semaphore stands for a car that was let in, or comes behind the end. -/
theorem postNew (h : Tally maxAmount ended letIn a) {letIn' : ℕ}
    (hpost : ended = false → letIn' + 1 = letIn) : Tally maxAmount ended letIn' a.postNew := by
  refine ⟨h.charge, h.temp, h.free, h.parked_le, h.room, h.car, fun hgoes => ?_⟩
  have hposts := h.posts hgoes
  have := hpost hgoes
  show a.newCar + 1 + a.attendant.taken + letIn' + a.parked = a.accepted
  omega

theorem postCharge (h : Tally maxAmount ended letIn a) : Tally maxAmount ended letIn a.postCharge :=
  ⟨h.charge.trans (Nat.add_le_add_right (Nat.le_succ _) _), h.temp, h.free, h.parked_le, h.room,
    h.car, h.posts⟩

theorem skipWait (h : Tally maxAmount true letIn a) : Tally maxAmount true letIn a.skipWait := by
  obtain ⟨hcharge, htemp, hfree, hle, hroom, hcar, hposts⟩ := h
  unfold Area.skipWait
  cases hpc : a.attendant
  case waitingNew =>
    rw [hpc] at hcharge htemp
    exact ⟨hcharge, htemp, hfree, hle, hroom, nofun, nofun⟩
  case waitingCharge =>
    rw [hpc] at hcharge htemp
    exact ⟨Nat.le_add_left 1 _, htemp, hfree, hle, hroom, nofun, nofun⟩
  all_goals exact ⟨hcharge, htemp, hfree, hle, hroom, hcar, nofun⟩

/-- The guard of an arrival leaves room for the car. -/
theorem arrives (h : Tally maxAmount ended 0 a) (hinside : a.attendant.inside = 0)
    (hspace : hasSpace maxAmount a = true) :
    Tally maxAmount ended 1
      { a with mFreeTemp := a.mFreeTemp - 1, accepted := a.accepted + 1 } := by
  obtain ⟨hcharge, htemp, hfree, hle, hroom, hcar, hposts⟩ := h
  obtain ⟨-, -, hsum⟩ := of_decide_eq_true hspace
  have hhalf := a.attendant.halfParked_le
  refine ⟨hcharge, ?_, hfree, Nat.le_succ_of_le hle, ?_, fun hhas => Nat.lt_succ_of_lt (hcar hhas),
    fun hgoes => ?_⟩
  · show a.mFreeTemp - 1 = maxAmount - ((a.accepted + 1 : ℕ) - a.parked) + a.attendant.halfParked
    omega
  · show a.accepted + 1 ≤ maxAmount
    omega
  · have := hposts hgoes
    show a.newCar + a.attendant.taken + 1 + a.parked = a.accepted + 1
    omega

end Tally

/-! ## The lot -/

/-- The accounts of the two kinds, and who is inside the mutex. -/
structure LotTally (maxAmount : Kind → ℕ) (lot : State) : Prop where
  area : ∀ kind,
    Tally (maxAmount kind) lot.simulationEnd (lot.owner.letIn kind) (lot.area kind)
  owner : lot.owner.ended = true → lot.simulationEnd = true
  mutex : lot.owner.inside + (lot.area .auto).attendant.inside
    + (lot.area .pickup).attendant.inside = lot.parkingLotMutex.toNat

namespace LotTally

variable {maxAmount : Kind → ℕ} {lot lot' : State}

theorem inside_le (h : LotTally maxAmount lot) (kind : Kind) :
    lot.owner.inside + (lot.area kind).attendant.inside ≤ lot.parkingLotMutex.toNat := by
  have := h.mutex
  cases kind <;> omega

/-- One area changes, and its attendant as much as the mutex does. -/
theorem setArea (h : LotTally maxAmount lot) {kind : Kind} {a : Area} {mutex : Bool}
    (harea : Tally (maxAmount kind) lot.simulationEnd (lot.owner.letIn kind) a)
    (hmutex : a.attendant.inside + lot.parkingLotMutex.toNat
      = (lot.area kind).attendant.inside + mutex.toNat) :
    LotTally maxAmount { lot with area := update lot.area kind a, parkingLotMutex := mutex } := by
  refine ⟨fun k => ?_, h.owner, ?_⟩
  · show Tally (maxAmount k) lot.simulationEnd (lot.owner.letIn k) (update lot.area kind a k)
    by_cases hk : k = kind
    · rw [hk, update_self]
      exact harea
    · rw [update_of_ne hk]
      exact h.area k
  · have hold := h.mutex
    show lot.owner.inside + (update lot.area kind a .auto).attendant.inside
      + (update lot.area kind a .pickup).attendant.inside = mutex.toNat
    cases kind with
    | auto =>
        rw [update_self, update_of_ne (by decide)]
        omega
    | pickup =>
        rw [update_self, update_of_ne (by decide)]
        omega

theorem attendant (h : LotTally maxAmount lot) {kind : Kind}
    (hnext : carAttendant kind lot = some lot') : LotTally maxAmount lot' := by
  obtain ⟨⟨a', mutex'⟩, hturn, rfl⟩ := Option.map_eq_some_iff.1 hnext
  have hinside := h.inside_le kind
  exact h.setArea ((h.area kind).attendant hturn) (attendantTurn_mutex (by omega) hturn)

theorem skipWait (h : LotTally maxAmount lot) (hend : lot.simulationEnd = true) (kind : Kind) :
    LotTally maxAmount { lot with area := update lot.area kind (lot.area kind).skipWait } := by
  have harea := h.area kind
  rw [hend] at harea
  refine h.setArea (by rw [hend]; exact harea.skipWait) ?_
  unfold Area.skipWait
  cases hpc : (lot.area kind).attendant <;> simp [hpc, AttendantPC.inside]

theorem signalHandler (h : LotTally maxAmount lot) {pc : HandlerPC}
    (hpc : pc ≠ .settingEnd → lot.simulationEnd = true) :
    LotTally maxAmount (signalHandler pc lot) := by
  cases pc with
  | settingEnd => exact ⟨fun kind => (h.area kind).ends, fun _ => rfl, h.mutex⟩
  | postingNew kind =>
      have hend := hpc nofun
      exact h.setArea ((h.area kind).postNew fun hgoes => absurd (hend.symm.trans hgoes) nofun) rfl
  | postingCharge kind => exact h.setArea (h.area kind).postCharge rfl

/-- The owner moves on without a word to the attendants. -/
theorem goto (h : LotTally maxAmount lot) {pc : OwnerPC} {ended mutex : Bool}
    (hletIn : ∀ kind, pc.letIn kind = lot.owner.letIn kind)
    (hended : ended = lot.simulationEnd ∨ ended = true) (howner : pc.ended = true → ended = true)
    (hmutex : pc.inside + lot.parkingLotMutex.toNat = lot.owner.inside + mutex.toNat) :
    LotTally maxAmount
      { lot with owner := pc, simulationEnd := ended, parkingLotMutex := mutex } := by
  refine ⟨fun kind => ?_, howner, ?_⟩
  · show Tally (maxAmount kind) ended (pc.letIn kind) (lot.area kind)
    rw [hletIn kind]
    rcases hended with rfl | rfl
    · exact h.area kind
    · exact (h.area kind).ends
  · have := h.mutex
    show pc.inside + (lot.area .auto).attendant.inside + (lot.area .pickup).attendant.inside
      = mutex.toNat
    omega

/-- The owner moves on with one kind of car. -/
theorem gotoArea (h : LotTally maxAmount lot) {pc : OwnerPC} {kind : Kind} {a : Area}
    (harea : Tally (maxAmount kind) lot.simulationEnd (pc.letIn kind) a)
    (hattendant : a.attendant = (lot.area kind).attendant)
    (hother : ∀ k, k ≠ kind → pc.letIn k = lot.owner.letIn k)
    (howner : pc.ended = true → lot.simulationEnd = true) (hinside : pc.inside = lot.owner.inside) :
    LotTally maxAmount { lot with area := update lot.area kind a, owner := pc } := by
  refine ⟨fun k => ?_, howner, ?_⟩
  · show Tally (maxAmount k) lot.simulationEnd (pc.letIn k) (update lot.area kind a k)
    by_cases hk : k = kind
    · rw [hk, update_self]
      exact harea
    · rw [update_of_ne hk, hother k hk]
      exact h.area k
  · have := h.mutex
    show pc.inside + (update lot.area kind a .auto).attendant.inside
      + (update lot.area kind a .pickup).attendant.inside = lot.parkingLotMutex.toNat
    cases kind with
    | auto =>
        rw [update_self, update_of_ne (by decide), hattendant]
        omega
    | pickup =>
        rw [update_self, update_of_ne (by decide), hattendant]
        omega

theorem owner_next (h : LotTally maxAmount lot) {rand : Kind}
    (hnext : carOwner maxAmount rand lot = some lot') : LotTally maxAmount lot' := by
  obtain ⟨area, ended, mutex, owner⟩ := lot
  have hle := Bool.toNat_le mutex
  have hinside := h.inside_le
  cases owner
  all_goals
    simp only [carOwner, Option.ite_none_left_eq_some, Option.some.injEq, reduceCtorEq] at hnext
  case testing =>
    obtain rfl := hnext
    cases ended <;> exact h.goto (fun _ => rfl) (.inl rfl) (by simp) rfl
  case arriving =>
    obtain rfl := hnext
    exact h.goto (fun _ => rfl) (.inl rfl) (absurd · Bool.false_ne_true) rfl
  case locking | lockingEnd =>
    obtain ⟨hfree, rfl⟩ := hnext
    rw [Bool.eq_false_iff.2 hfree] at h
    exact h.goto (fun _ => rfl) (.inl rfl) (absurd · Bool.false_ne_true) rfl
  case deciding k =>
    have hnone : (area k).attendant.inside = 0 := by
      have := hinside k
      simp only [OwnerPC.inside] at this
      omega
    split at hnext
    · next hspace =>
        obtain rfl := Option.some.inj hnext
        refine h.gotoArea ?_ rfl (fun j hj => if_neg (Ne.symm hj)) (absurd · Bool.false_ne_true) rfl
        rw [OwnerPC.letIn, if_pos rfl]
        exact (h.area k).arrives hnone hspace
    · obtain rfl := Option.some.inj hnext
      exact h.goto (fun _ => rfl) (.inl rfl) (absurd · Bool.false_ne_true) rfl
  case posting k =>
    obtain rfl := hnext
    refine h.gotoArea ((h.area k).postNew fun _ => (if_pos rfl).symm) rfl
      (fun j hj => (if_neg (Ne.symm hj)).symm) (absurd · Bool.false_ne_true) rfl
  case unlocking =>
    obtain rfl := hnext
    have := hinside .auto
    refine h.goto (fun _ => rfl) (.inl rfl) (absurd · Bool.false_ne_true) ?_
    simp only [OwnerPC.inside, Bool.toNat_false] at this ⊢
    omega
  case readingAuto | readingPickup =>
    obtain rfl := hnext
    split <;> exact h.goto (fun _ => rfl) (.inl rfl) (absurd · Bool.false_ne_true) rfl
  case settingEnd =>
    obtain rfl := hnext
    exact h.goto (fun _ => rfl) (.inr rfl) (fun _ => rfl) rfl
  case unlockingEnd =>
    obtain rfl := hnext
    have := hinside .auto
    refine h.goto (fun _ => rfl) (.inl rfl) (fun _ => h.owner rfl) ?_
    simp only [OwnerPC.inside, Bool.toNat_false] at this ⊢
    omega
  case postingAuto | postingPickup =>
    obtain rfl := hnext
    have hend : ended = true := h.owner rfl
    exact h.gotoArea ((h.area _).postNew fun hgoes => absurd (hend.symm.trans hgoes) Bool.false_ne_true.symm) rfl
      (fun _ _ => rfl) (fun _ => hend) rfl

end LotTally

theorem lotTally_init (maxAmount : Kind → ℕ) : LotTally maxAmount (init maxAmount) := by
  refine ⟨fun kind => ⟨Nat.le_refl 1, ?_, ?_, Nat.zero_le _, Nat.zero_le _, nofun, fun _ => rfl⟩,
    nofun, rfl⟩
  · simp [init, AttendantPC.halfParked]
  · simp [init]

/-! ## What a step can do -/

/-- The steps of the lot with its signals. -/
inductive SignalStep (maxAmount : Kind → ℕ) (s : SignalState) : SignalMove → SignalState → Prop
  | signal (thread : Thread) : SignalStep maxAmount s (.signal thread) (s.deliver thread)
  | interrupts (kind : Kind) (hwaits : (s.lot.area kind).attendant.isWaiting = true) :
      SignalStep maxAmount s (.interrupts kind)
        { s.deliver (.attendant kind) with interrupted := update s.interrupted kind true }
  | handler (thread : Thread) (pc : HandlerPC) (rest : List HandlerPC)
      (hpc : s.handlers thread = pc :: rest) :
      SignalStep maxAmount s (.handler thread)
        { s with lot := signalHandler pc s.lot
                 handlers := update s.handlers thread (pc.next.toList ++ rest) }
  | owner (rand : Kind) (lot : State) (hidle : s.handlers .owner = [])
      (hnext : carOwner maxAmount rand s.lot = some lot) :
      SignalStep maxAmount s (.owner rand) { s with lot := lot }
  | skips (kind : Kind) (hidle : s.handlers (.attendant kind) = [])
      (hinterrupted : s.interrupted kind = true) :
      SignalStep maxAmount s (.attendant kind)
        { s with lot := { s.lot with area := update s.lot.area kind (s.lot.area kind).skipWait }
                 interrupted := update s.interrupted kind false }
  | attendant (kind : Kind) (lot : State) (hidle : s.handlers (.attendant kind) = [])
      (hinterrupted : s.interrupted kind = false) (hnext : carAttendant kind s.lot = some lot) :
      SignalStep maxAmount s (.attendant kind) { s with lot := lot }

theorem signalStep_of_next {maxAmount : Kind → ℕ} {s s' : SignalState} {a : SignalMove}
    (h : (signalMachine maxAmount).next s a = some s') : SignalStep maxAmount s a s' := by
  cases a with
  | signal thread =>
      obtain rfl := Option.some.inj h
      exact .signal thread
  | interrupts kind =>
      obtain ⟨hwaits, h⟩ := Option.ite_none_right_eq_some.1 h
      obtain rfl := Option.some.inj h
      exact .interrupts kind hwaits
  | handler thread =>
      simp only [signalMachine] at h
      split at h
      · cases h
      · next pc rest hpc =>
          obtain rfl := Option.some.inj h
          exact .handler thread pc rest hpc
  | owner rand =>
      obtain ⟨hidle, h⟩ := Option.ite_none_right_eq_some.1 h
      obtain ⟨lot, hnext, rfl⟩ := Option.map_eq_some_iff.1 h
      exact .owner rand lot (List.isEmpty_iff.1 hidle) hnext
  | attendant kind =>
      obtain ⟨hidle, h⟩ := Option.ite_none_right_eq_some.1 h
      rw [List.isEmpty_iff] at hidle
      unfold attendantMove at h
      split at h
      · next hinterrupted =>
          obtain rfl := Option.some.inj h
          exact .skips kind hidle hinterrupted
      · next hinterrupted =>
          obtain ⟨lot, hnext, rfl⟩ := Option.map_eq_some_iff.1 h
          exact .attendant kind lot hidle (Bool.eq_false_iff.2 hinterrupted) hnext

/-! ## The invariant -/

/-- A handler posts behind the flag, and a `sem_wait` fails behind the handlers that interrupted
    it. -/
structure SignalInv (maxAmount : Kind → ℕ) (s : SignalState) : Prop where
  lot : LotTally maxAmount s.lot
  handlers : ∀ thread, ∀ pc ∈ s.handlers thread, pc ≠ .settingEnd → s.lot.simulationEnd = true
  interrupted : ∀ kind, s.interrupted kind = true →
    s.handlers (.attendant kind) ≠ [] ∨ s.lot.simulationEnd = true

theorem signalHandler_ended {pc : HandlerPC} {lot : State}
    (h : lot.simulationEnd = true ∨ pc = .settingEnd) :
    (signalHandler pc lot).simulationEnd = true := by
  cases pc with
  | settingEnd => rfl
  | postingNew kind | postingCharge kind => exact h.resolve_right nofun

theorem carOwner_flag {maxAmount : Kind → ℕ} {rand : Kind} {lot lot' : State}
    (hnext : carOwner maxAmount rand lot = some lot') (hend : lot.simulationEnd = true) :
    lot'.simulationEnd = true := by
  cases hpc : lot.owner
  all_goals
    simp only [carOwner, hpc, Option.ite_none_left_eq_some, Option.some.injEq, reduceCtorEq]
      at hnext
  case locking | lockingEnd =>
    obtain ⟨-, rfl⟩ := hnext
    exact hend
  case deciding =>
    split at hnext <;>
    · obtain rfl := Option.some.inj hnext
      exact hend
  case settingEnd =>
    obtain rfl := hnext
    rfl
  all_goals
    obtain rfl := hnext
    exact hend

theorem carAttendant_flag {kind : Kind} {lot lot' : State}
    (hnext : carAttendant kind lot = some lot') : lot'.simulationEnd = lot.simulationEnd := by
  obtain ⟨r, -, rfl⟩ := Option.map_eq_some_iff.1 hnext
  rfl

namespace SignalInv

variable {maxAmount : Kind → ℕ} {s s' : SignalState}

theorem deliver (h : SignalInv maxAmount s) (thread : Thread) :
    SignalInv maxAmount (s.deliver thread) := by
  refine ⟨h.lot, fun t pc hpc hne => ?_, fun kind hkind => ?_⟩
  · by_cases ht : t = thread
    · subst ht
      rw [show (s.deliver t).handlers t = .settingEnd :: s.handlers t from update_self _ _ _] at hpc
      rcases List.mem_cons.1 hpc with rfl | hpc
      · exact absurd rfl hne
      · exact h.handlers t pc hpc hne
    · rw [show (s.deliver thread).handlers t = s.handlers t from update_of_ne ht _ _] at hpc
      exact h.handlers t pc hpc hne
  · by_cases ht : .attendant kind = thread
    · subst ht
      left
      rw [show (s.deliver (.attendant kind)).handlers (.attendant kind) = _ from update_self _ _ _]
      exact List.cons_ne_nil _ _
    · rw [show (s.deliver thread).handlers (.attendant kind) = _ from update_of_ne ht _ _]
      exact h.interrupted kind hkind

theorem step (h : SignalInv maxAmount s) {a : SignalMove} (hstep : SignalStep maxAmount s a s') :
    SignalInv maxAmount s' := by
  cases hstep with
  | signal thread => exact h.deliver thread
  | interrupts kind hwaits =>
      have hdelivered := h.deliver (.attendant kind)
      refine ⟨hdelivered.lot, hdelivered.handlers, fun k hk => ?_⟩
      by_cases heq : k = kind
      · subst heq
        left
        rw [show (s.deliver (.attendant k)).handlers (.attendant k) = _ from update_self _ _ _]
        exact List.cons_ne_nil _ _
      · have hother : update s.interrupted kind true k = s.interrupted k := update_of_ne heq _ _
        exact hdelivered.interrupted k (hother.symm.trans hk)
  | handler thread pc rest hpc =>
      have hmem : ∀ p ∈ rest, p ≠ .settingEnd → s.lot.simulationEnd = true :=
        fun p hp => h.handlers thread p (by rw [hpc]; exact List.mem_cons_of_mem _ hp)
      have hflag : pc ≠ .settingEnd → s.lot.simulationEnd = true :=
        h.handlers thread pc (by rw [hpc]; exact List.mem_cons_self)
      -- behind the first access of a handler the flag is set
      have hend : (signalHandler pc s.lot).simulationEnd = true := by
        refine signalHandler_ended ?_
        by_cases hset : pc = .settingEnd
        · exact .inr hset
        · exact .inl (hflag hset)
      exact ⟨h.lot.signalHandler hflag, fun _ _ _ _ => hend, fun _ _ => .inr hend⟩
  | owner rand lot hidle hnext =>
      have hflag := carOwner_flag hnext
      exact ⟨h.lot.owner_next hnext, fun t pc hpc hne => hflag (h.handlers t pc hpc hne),
        fun kind hkind => (h.interrupted kind hkind).imp_right hflag⟩
  | skips kind hidle hinterrupted =>
      have hend : s.lot.simulationEnd = true :=
        (h.interrupted kind hinterrupted).resolve_left fun hne => hne hidle
      exact ⟨h.lot.skipWait hend kind, fun _ _ _ _ => hend, fun _ _ => .inr hend⟩
  | attendant kind lot hidle hinterrupted hnext =>
      have hflag := carAttendant_flag hnext
      refine ⟨h.lot.attendant hnext, fun t pc hpc hne => ?_, fun k hk => ?_⟩
      · exact hflag.trans (h.handlers t pc hpc hne)
      · exact (h.interrupted k hk).imp_right hflag.trans

end SignalInv

theorem signalInv_reachable {maxAmount : Kind → ℕ} {s : SignalState}
    (h : (signalMachine maxAmount).Reachable s) : SignalInv maxAmount s := by
  refine h.invariant ?_ fun _ _ _ _ hinv hnext => hinv.step (signalStep_of_next hnext)
  rintro s rfl
  exact ⟨lotTally_init maxAmount, nofun, nofun⟩

/-! ## The accounting -/

/-- **The accounting survives the signals**, for any capacities, any number of signals at any time
    and in any thread. No counter leaves its range, an attendant about to park finds a real place
    free, and the mutex has one owner at most. While the mutex is free, the temporary places in use
    are the accepted cars not yet parked, and until the simulation ends each of these is posted or
    taken. -/
theorem parking_accounting_signals {maxAmount : Kind → ℕ} {s : SignalState}
    (h : (signalMachine maxAmount).Reachable s) (kind : Kind) :
    (0 ≤ (s.lot.area kind).mFreeTemp ∧ (s.lot.area kind).mFreeTemp ≤ maxAmount kind ∧
      0 ≤ (s.lot.area kind).mFree ∧ (s.lot.area kind).mFree ≤ maxAmount kind) ∧
    ((s.lot.area kind).attendant = .takingPlace → 0 < (s.lot.area kind).mFree) ∧
    s.lot.owner.inside + (s.lot.area .auto).attendant.inside
      + (s.lot.area .pickup).attendant.inside ≤ 1 ∧
    (s.lot.parkingLotMutex = false →
      (maxAmount kind : ℤ) - (s.lot.area kind).mFreeTemp
        = (s.lot.area kind).accepted - (s.lot.area kind).parked ∧
      (s.lot.simulationEnd = false → (s.lot.area kind).accepted
        = (s.lot.area kind).parked + (s.lot.area kind).newCar
          + (s.lot.area kind).attendant.taken)) := by
  have hlot := (signalInv_reachable h).lot
  obtain ⟨-, htemp, hfree, hle, hroom, hcar, hposts⟩ := hlot.area kind
  have hmutex := hlot.mutex
  have htoNat := Bool.toNat_le s.lot.parkingLotMutex
  have hhalf : (s.lot.area kind).parked + (s.lot.area kind).attendant.halfParked
      ≤ (s.lot.area kind).accepted := by
    cases hpc : (s.lot.area kind).attendant
    case takingPlace => exact hcar (by rw [hpc]; rfl)
    all_goals exact hle
  refine ⟨by omega, fun hpc => ?_, by omega, fun hunlocked => ⟨?_, fun hgoes => ?_⟩⟩
  · have := hcar (by rw [hpc]; rfl)
    omega
  · have hinside := hlot.inside_le kind
    have := (s.lot.area kind).attendant.halfParked_le
    rw [hunlocked, Bool.toNat_false] at hinside
    omega
  · have hposted := hposts hgoes
    have hletIn : s.lot.owner.letIn kind = 0 := by
      rw [hunlocked, Bool.toNat_false] at hmutex
      cases hpc : s.lot.owner
      case posting k =>
        rw [hpc, OwnerPC.inside] at hmutex
        omega
      all_goals rfl
    omega

/-- The owner lets an automobile in, and a signal for the attendant that waits for it ends the
    simulation. -/
theorem parking_accounting_interrupted : ∃ s : SignalState,
    (signalMachine fun _ => 2).exec ⟨init fun _ => 2, fun _ => [], fun _ => false⟩
      (List.replicate 6 (.owner .auto) ++ [.interrupts .auto, .handler (.attendant .auto),
        .handler (.attendant .auto)]) = some s ∧
    s.lot.simulationEnd = true ∧ (s.lot.area .auto).newCar = 2 ∧
    (0 ≤ (s.lot.area .auto).mFreeTemp ∧ (s.lot.area .auto).mFreeTemp ≤ (2 : ℕ) ∧
      0 ≤ (s.lot.area .auto).mFree ∧ (s.lot.area .auto).mFree ≤ (2 : ℕ)) ∧
    ((s.lot.area .auto).attendant = .takingPlace → 0 < (s.lot.area .auto).mFree) ∧
    s.lot.owner.inside + (s.lot.area .auto).attendant.inside
      + (s.lot.area .pickup).attendant.inside ≤ 1 ∧
    (s.lot.parkingLotMutex = false →
      ((2 : ℕ) : ℤ) - (s.lot.area .auto).mFreeTemp
        = (s.lot.area .auto).accepted - (s.lot.area .auto).parked ∧
      (s.lot.simulationEnd = false → (s.lot.area .auto).accepted
        = (s.lot.area .auto).parked + (s.lot.area .auto).newCar
          + (s.lot.area .auto).attendant.taken)) := by
  obtain ⟨s, hs, hend, hposted⟩ : ∃ s : SignalState,
      (signalMachine fun _ => 2).exec ⟨init fun _ => 2, fun _ => [], fun _ => false⟩
        (List.replicate 6 (.owner .auto) ++ [.interrupts .auto, .handler (.attendant .auto),
          .handler (.attendant .auto)]) = some s ∧
      s.lot.simulationEnd = true ∧ (s.lot.area .auto).newCar = 2 := ⟨_, rfl, rfl, rfl⟩
  have hreach : (signalMachine fun _ => 2).Reachable s := (Machine.Reachable.init rfl).exec _ hs
  exact ⟨s, hs, hend, hposted, parking_accounting_signals hreach .auto⟩

end SystemProgramming.Parking
