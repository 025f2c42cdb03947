import SystemProgramming.Lib.Machine
import Mathlib.Logic.Function.Basic
import Mathlib.Data.Int.Notation

set_option autoImplicit false

/-! # The parking lot of `HW3`

Three threads share the counters of the lot: the owner, who lets cars in, and one attendant for each
kind of car, who parks them. Each thread is a program point, a step is what lies between two
accesses to something shared, and a step that would block (`sem_wait` on 0, `pthread_mutex_lock` on
a locked mutex) is not possible. `sleep` only delays and `printf` only prints; neither is a step.
The two signals, whose handler ends the simulation from outside, are no steps of this machine; the
one with signals is built on it.

`accepted` and `parked` are ghosts: they count the cars that the owner let in and the cars in a real
place. -/

namespace SystemProgramming.Parking

open Function

/-- The two kinds of cars, each with its area and its attendant. -/
inductive Kind
  | auto
  | pickup
  deriving DecidableEq

/-- Where an attendant is: the access it makes next. -/
inductive AttendantPC
  /-- `sem_wait(&newAutomobile)` -/
  | waitingNew
  /-- `sem_wait(&inChargeforAutomobile)` -/
  | waitingCharge
  | locking
  /-- has the mutex, reads `simulationEnd` -/
  | checking
  /-- the simulation is ending: unlocks, posts `inCharge`, returns -/
  | unlockingEnd
  | postingEnd
  | returned
  /-- has a car: unlocks, and after `sleep` posts `inCharge` -/
  | unlockingTaken
  | postingCharge
  | lockingPark
  /-- has the mutex, counts the temporary place as free -/
  | freeingTemp
  /-- counts the real place as taken -/
  | takingPlace
  | unlockingParked
  deriving DecidableEq

/-- Where the owner is: the access it makes next. -/
inductive OwnerPC
  /-- the test of the loop -/
  | testing
  /-- `sleep`, then the choice of the kind of car -/
  | arriving
  | locking (kind : Kind)
  /-- has the mutex, compares the counters of the kind -/
  | deciding (kind : Kind)
  /-- has given the car a temporary place, posts its arrival -/
  | posting (kind : Kind)
  | unlocking
  /-- without the mutex: `mFree_automobile == 0`, then `mFree_pickup == 0` -/
  | readingAuto
  | readingPickup
  | lockingEnd
  /-- has the mutex, sets `simulationEnd` -/
  | settingEnd
  | unlockingEnd
  | postingAuto
  | postingPickup
  | returned
  deriving DecidableEq

/-- What belongs to one kind of car: its two counters, its two semaphores and its attendant. -/
structure Area where
  mFreeTemp : ℤ
  mFree : ℤ
  newCar : ℕ
  inCharge : ℕ
  attendant : AttendantPC
  accepted : ℕ
  parked : ℕ

/-- The shared variables of HW3, and where the three threads are. -/
structure State where
  area : Kind → Area
  simulationEnd : Bool
  parkingLotMutex : Bool
  owner : OwnerPC

/-- `init`, with the three threads created; `maxAmount` is `MAX_AUTO_AMOUNT` and
    `MAX_PICKUP_AMOUNT`. -/
def init (maxAmount : Kind → ℕ) : State :=
  { area := fun kind =>
      { mFreeTemp := maxAmount kind
        mFree := maxAmount kind
        newCar := 0
        inCharge := 1
        attendant := .waitingNew
        accepted := 0
        parked := 0 }
    simulationEnd := false
    parkingLotMutex := false
    owner := .testing }

/-! ## The attendants -/

/-- One step of an attendant: its area and the mutex afterwards. -/
def attendantTurn (simulationEnd mutex : Bool) (a : Area) : Option (Area × Bool) :=
  match a.attendant with
  | .waitingNew =>
      if a.newCar = 0 then none
      else some ({ a with newCar := a.newCar - 1, attendant := .waitingCharge }, mutex)
  | .waitingCharge =>
      if a.inCharge = 0 then none
      else some ({ a with inCharge := a.inCharge - 1, attendant := .locking }, mutex)
  | .locking => if mutex then none else some ({ a with attendant := .checking }, true)
  | .checking =>
      some ({ a with attendant := if simulationEnd then .unlockingEnd else .unlockingTaken }, mutex)
  | .unlockingEnd => some ({ a with attendant := .postingEnd }, false)
  | .postingEnd => some ({ a with inCharge := a.inCharge + 1, attendant := .returned }, mutex)
  | .returned => none
  | .unlockingTaken => some ({ a with attendant := .postingCharge }, false)
  | .postingCharge =>
      some ({ a with inCharge := a.inCharge + 1, attendant := .lockingPark }, mutex)
  | .lockingPark => if mutex then none else some ({ a with attendant := .freeingTemp }, true)
  | .freeingTemp => some ({ a with mFreeTemp := a.mFreeTemp + 1, attendant := .takingPlace }, mutex)
  | .takingPlace =>
      some ({ a with
        mFree := a.mFree - 1, parked := a.parked + 1, attendant := .unlockingParked }, mutex)
  | .unlockingParked => some ({ a with attendant := .waitingNew }, false)

/-- A step of an attendant. -/
def carAttendant (kind : Kind) (s : State) : Option State :=
  (attendantTurn s.simulationEnd s.parkingLotMutex (s.area kind)).map fun r =>
    { s with area := update s.area kind r.1, parkingLotMutex := r.2 }

/-- A step of `carAttendantAuto`. -/
def carAttendantAuto : State → Option State := carAttendant .auto

/-- A step of `carAttendantPickup`. -/
def carAttendantPickup : State → Option State := carAttendant .pickup

/-! ## The owner -/

/-- The guard of an arrival. -/
def hasSpace (maxAmount : ℕ) (a : Area) : Bool :=
  0 < a.mFreeTemp ∧ 0 < a.mFree ∧ (maxAmount : ℤ) < a.mFree + a.mFreeTemp

/-- `sem_post(&newAutomobile)` or `sem_post(&newPickup)`. -/
def Area.postNew (a : Area) : Area := { a with newCar := a.newCar + 1 }

/-- One step of `carOwner`; `kind` is what `rand` says, where it is asked. -/
def carOwner (maxAmount : Kind → ℕ) (kind : Kind) (s : State) : Option State :=
  match s.owner with
  | .testing => some { s with owner := if s.simulationEnd then .returned else .arriving }
  | .arriving => some { s with owner := .locking kind }
  | .locking k =>
      if s.parkingLotMutex then none
      else some { s with parkingLotMutex := true, owner := .deciding k }
  | .deciding k =>
      if hasSpace (maxAmount k) (s.area k) then
        some { s with
          area := update s.area k { s.area k with
            mFreeTemp := (s.area k).mFreeTemp - 1
            accepted := (s.area k).accepted + 1 }
          owner := .posting k }
      else some { s with owner := .unlocking }
  | .posting k =>
      some { s with area := update s.area k (s.area k).postNew, owner := .unlocking }
  | .unlocking => some { s with parkingLotMutex := false, owner := .readingAuto }
  | .readingAuto =>
      some { s with owner := if (s.area .auto).mFree = 0 then .readingPickup else .testing }
  | .readingPickup =>
      some { s with owner := if (s.area .pickup).mFree = 0 then .lockingEnd else .testing }
  | .lockingEnd =>
      if s.parkingLotMutex then none
      else some { s with parkingLotMutex := true, owner := .settingEnd }
  | .settingEnd => some { s with simulationEnd := true, owner := .unlockingEnd }
  | .unlockingEnd => some { s with parkingLotMutex := false, owner := .postingAuto }
  | .postingAuto =>
      some { s with area := update s.area .auto (s.area .auto).postNew, owner := .postingPickup }
  | .postingPickup =>
      some { s with area := update s.area .pickup (s.area .pickup).postNew, owner := .returned }
  | .returned => none

/-- Who moves. -/
inductive Turn
  | owner (kind : Kind)
  | attendantAuto
  | attendantPickup

/-- The three threads, in any interleaving. -/
def parkingMachine (maxAmount : Kind → ℕ) : Machine State Turn where
  init s := s = init maxAmount
  next s
    | .owner kind => carOwner maxAmount kind s
    | .attendantAuto => carAttendantAuto s
    | .attendantPickup => carAttendantPickup s

end SystemProgramming.Parking
