import SystemProgramming.Parking.Accounting

set_option autoImplicit false

/-! # The end of the simulation

The owner ends the simulation when it has read 0 in both real counters, without the mutex. A real
counter that is 0 says that every place is taken, so no accepted car of the kind is left: the
attendants have nothing then, and the one post that each of them gets from the owner leads it to the
flag and out of its loop. -/

namespace SystemProgramming.Parking

open Function

/-- The steps of an attendant to its return, once the simulation has ended. -/
def AttendantPC.remaining : AttendantPC → ℕ
  | .unlockingParked => 7
  | .waitingNew => 6
  | .waitingCharge => 5
  | .locking => 4
  | .checking => 3
  | .unlockingEnd => 2
  | .postingEnd => 1
  | _ => 0

/-- The statements that the two attendants have left. -/
def remaining (s : State) : ℕ :=
  (s.area .auto).attendant.remaining + (s.area .pickup).attendant.remaining

/-- The counters of the lot are the same in the two states. -/
def SameCounters (s s' : State) : Prop :=
  ∀ kind, (s'.area kind).mFreeTemp = (s.area kind).mFreeTemp ∧
    (s'.area kind).mFree = (s.area kind).mFree ∧
    (s'.area kind).accepted = (s.area kind).accepted ∧
    (s'.area kind).parked = (s.area kind).parked

theorem SameCounters.refl (s : State) : SameCounters s s := fun _ => ⟨rfl, rfl, rfl, rfl⟩

theorem SameCounters.trans {s t u : State} (h : SameCounters s t) (h' : SameCounters t u) :
    SameCounters s u := by
  intro kind
  obtain ⟨htemp, hfree, haccepted, hparked⟩ := h kind
  obtain ⟨htemp', hfree', haccepted', hparked'⟩ := h' kind
  exact ⟨htemp'.trans htemp, hfree'.trans hfree, haccepted'.trans haccepted,
    hparked'.trans hparked⟩

/-- The turn of the attendant of this kind. -/
def turnOf : Kind → Turn
  | .auto => .attendantAuto
  | .pickup => .attendantPickup

/-- An attendant that has no car and no step left has returned. -/
theorem AttendantPC.eq_returned {pc : AttendantPC} (hcar : pc.hasCar = false)
    (hnone : pc.remaining = 0) : pc = .returned := by
  cases pc <;> simp_all [hasCar, remaining]

theorem next_turnOf (maxAmount : Kind → ℕ) (s : State) (kind : Kind) :
    (parkingMachine maxAmount).next s (turnOf kind) = carAttendant kind s := by
  cases kind <;> rfl

/-- After the end an attendant without a car changes no counter, and every step takes it towards its
    return. -/
theorem attendantTurn_ended {mutex mutex' : Bool} {a a' : Area}
    (hcar : a.attendant.hasCar = false) (hturn : attendantTurn true mutex a = some (a', mutex')) :
    (a'.mFreeTemp = a.mFreeTemp ∧ a'.mFree = a.mFree ∧ a'.accepted = a.accepted ∧
      a'.parked = a.parked) ∧ a'.attendant.remaining + 1 = a.attendant.remaining := by
  cases hpc : a.attendant
  case unlockingTaken | postingCharge | lockingPark | freeingTemp | takingPlace =>
    rw [hpc] at hcar
    cases hcar
  all_goals
    simp only [attendantTurn, hpc, Option.ite_none_left_eq_some, Option.some.injEq,
      Prod.mk.injEq, if_true, reduceCtorEq] at hturn
  case waitingNew | waitingCharge | locking =>
    obtain ⟨-, rfl, -⟩ := hturn
    exact ⟨⟨rfl, rfl, rfl, rfl⟩, rfl⟩
  all_goals
    obtain ⟨rfl, -⟩ := hturn
    exact ⟨⟨rfl, rfl, rfl, rfl⟩, rfl⟩

/-- Where an attendant can step: it waits for nothing, or for what is there. -/
theorem attendantTurn_moves {simulationEnd mutex : Bool} {a : Area}
    (hnew : a.attendant = .waitingNew → a.newCar ≠ 0)
    (hcharge : a.attendant = .waitingCharge → a.inCharge ≠ 0)
    (hmutex : mutex = true → a.attendant.inside = 1) (hreturned : a.attendant ≠ .returned) :
    ∃ r, attendantTurn simulationEnd mutex a = some r := by
  unfold attendantTurn
  cases hpc : a.attendant
  case returned => exact absurd hpc hreturned
  case waitingNew => exact ⟨_, if_neg (hnew hpc)⟩
  case waitingCharge => exact ⟨_, if_neg (hcharge hpc)⟩
  case locking | lockingPark =>
    refine ⟨_, if_neg ?_⟩
    intro hlocked
    rw [hpc] at hmutex
    cases hmutex hlocked
  all_goals exact ⟨_, rfl⟩

/-- Once the owner has returned, no attendant that has not returned waits for a post. -/
theorem LotInv.not_blocked {maxAmount : Kind → ℕ} {s : State} (h : LotInv maxAmount s)
    (howner : s.owner = .returned) (kind : Kind) :
    ((s.area kind).attendant = .waitingNew → (s.area kind).newCar ≠ 0) ∧
      ((s.area kind).attendant = .waitingCharge → (s.area kind).inCharge ≠ 0) := by
  obtain ⟨hcharge, -, -, hle, hroom, hposts, hfull, -⟩ := h.area kind
  rw [howner] at hposts hfull
  have hparked := hfull (by cases kind <;> rfl)
  have hfinal : OwnerPC.finalPosts kind .returned = 1 := by cases kind <;> rfl
  constructor
  · intro hpc
    rw [hpc, hfinal] at hposts
    simp only [AttendantPC.taken, OwnerPC.letIn] at hposts
    omega
  · intro hpc
    rw [hpc] at hcharge
    simp only [AttendantPC.charged] at hcharge
    omega

/-- After the end a step changes no counter, and every step of an attendant takes it towards its
    return. -/
theorem LotInv.step_ended {maxAmount : Kind → ℕ} {s s' : State} (h : LotInv maxAmount s)
    (hend : s.simulationEnd = true) {kind : Kind} (hnext : carAttendant kind s = some s') :
    SameCounters s s' ∧ remaining s' + 1 = remaining s := by
  obtain ⟨⟨a', mutex'⟩, hturn, rfl⟩ := Option.map_eq_some_iff.1 hnext
  rw [hend] at hturn
  obtain ⟨hcounters, hless⟩ :=
    attendantTurn_ended ((h.area kind).noCar (h.flag.symm.trans hend)) hturn
  constructor
  · intro k
    show (update s.area kind a' k).mFreeTemp = _ ∧ (update s.area kind a' k).mFree = _ ∧
      (update s.area kind a' k).accepted = _ ∧ (update s.area kind a' k).parked = _
    by_cases hk : k = kind
    · rw [hk, update_self]
      exact hcounters
    · rw [update_of_ne hk]
      exact ⟨rfl, rfl, rfl, rfl⟩
  · show (update s.area kind a' .auto).attendant.remaining
      + (update s.area kind a' .pickup).attendant.remaining + 1
      = (s.area .auto).attendant.remaining + (s.area .pickup).attendant.remaining
    cases kind with
    | auto =>
        rw [update_self, update_of_ne (by decide)]
        omega
    | pickup =>
        rw [update_self, update_of_ne (by decide)]
        omega

/-- A step of the owner after the end: it only posts. -/
theorem carOwner_ended {maxAmount : Kind → ℕ} {s s' : State} {kind : Kind}
    (hend : s.owner.ended = true) (hnext : carOwner maxAmount kind s = some s') :
    SameCounters s s' ∧ s'.simulationEnd = s.simulationEnd := by
  unfold carOwner at hnext
  cases hpc : s.owner
  all_goals
    rw [hpc] at hend hnext
  case unlockingEnd =>
    obtain rfl := Option.some.inj hnext
    exact ⟨SameCounters.refl s, rfl⟩
  case postingAuto | postingPickup =>
    obtain rfl := Option.some.inj hnext
    refine ⟨fun k => ?_, rfl⟩
    cases k <;> exact ⟨rfl, rfl, rfl, rfl⟩
  case returned => cases hnext
  all_goals cases hend

/-- After the end no step of anybody changes a counter. -/
theorem LotInv.next_ended {maxAmount : Kind → ℕ} {s s' : State} {turn : Turn}
    (h : LotInv maxAmount s) (hend : s.simulationEnd = true)
    (hnext : (parkingMachine maxAmount).next s turn = some s') :
    SameCounters s s' ∧ s'.simulationEnd = true := by
  have hattendant : ∀ kind, carAttendant kind s = some s' →
      SameCounters s s' ∧ s'.simulationEnd = true := by
    intro kind hnext
    refine ⟨(h.step_ended hend hnext).1, ?_⟩
    obtain ⟨r, -, rfl⟩ := Option.map_eq_some_iff.1 hnext
    exact hend
  cases turn with
  | owner kind =>
      obtain ⟨hsame, hflag⟩ := carOwner_ended (h.flag.symm.trans hend) hnext
      exact ⟨hsame, hflag.trans hend⟩
  | attendantAuto => exact hattendant .auto hnext
  | attendantPickup => exact hattendant .pickup hnext

/-- Somebody can step until both attendants have returned: who has the mutex, or anybody. -/
theorem LotInv.attendant_moves {maxAmount : Kind → ℕ} {s : State} (h : LotInv maxAmount s)
    (howner : s.owner = .returned) {k : Kind} (hk : (s.area k).attendant ≠ .returned) :
    ∃ kind s', carAttendant kind s = some s' := by
  obtain ⟨kind, hmutex, hreturned⟩ : ∃ kind,
      (s.parkingLotMutex = true → (s.area kind).attendant.inside = 1) ∧
        (s.area kind).attendant ≠ .returned := by
    cases hlocked : s.parkingLotMutex with
    | false => exact ⟨k, (fun h => by cases h), hk⟩
    | true =>
        have hinside := h.mutex
        simp only [howner, hlocked, OwnerPC.inside, Bool.toNat_true] at hinside
        have hholder : ∃ kind, (s.area kind).attendant.inside = 1 := by
          rcases Nat.lt_or_ge 0 (s.area .auto).attendant.inside with hpos | hzero
          · exact ⟨.auto, by omega⟩
          · exact ⟨.pickup, by omega⟩
        obtain ⟨kind, hkind⟩ := hholder
        refine ⟨kind, fun _ => hkind, ?_⟩
        intro hret
        rw [hret] at hkind
        cases hkind
  obtain ⟨hnew, hcharge⟩ := h.not_blocked howner kind
  obtain ⟨r, hr⟩ := attendantTurn_moves hnew hcharge hmutex hreturned
  exact ⟨kind, _, by rw [carAttendant, hr]; rfl⟩

/-- From every state after the return of the owner, the attendants can step on to their returns. -/
theorem attendants_return {maxAmount : Kind → ℕ} {s : State}
    (h : (parkingMachine maxAmount).Reachable s) (howner : s.owner = .returned) :
    ∃ turns s', (parkingMachine maxAmount).exec s turns = some s' ∧
      ∀ kind, (s'.area kind).attendant = .returned := by
  have hprogress : ∀ s, (parkingMachine maxAmount).Reachable s ∧ s.owner = .returned →
      ¬ remaining s = 0 → ∃ turn s', (parkingMachine maxAmount).next s turn = some s' ∧
        ((parkingMachine maxAmount).Reachable s' ∧ s'.owner = .returned) ∧
        remaining s' < remaining s := by
    rintro s ⟨hs, howner⟩ hremaining
    have hinv := lotInv_reachable hs
    obtain ⟨k, hk⟩ : ∃ k, (s.area k).attendant ≠ .returned := by
      by_contra hall
      push Not at hall
      exact hremaining (by rw [remaining, hall, hall]; rfl)
    obtain ⟨kind, s', hnext⟩ := hinv.attendant_moves howner hk
    have hless := (hinv.step_ended (by rw [hinv.flag, howner]; rfl) hnext).2
    rw [← next_turnOf maxAmount] at hnext
    refine ⟨turnOf kind, s', hnext, ⟨hs.step hnext, ?_⟩, by omega⟩
    rw [next_turnOf] at hnext
    obtain ⟨r, -, rfl⟩ := Option.map_eq_some_iff.1 hnext
    exact howner
  obtain ⟨turns, s', he, ⟨hs', howner'⟩, hzero⟩ :=
    Machine.exists_exec_of_measure remaining hprogress ⟨h, howner⟩
  refine ⟨turns, s', he, fun kind => ?_⟩
  have hcar := ((lotInv_reachable hs').area kind).noCar (by rw [howner']; rfl)
  have hnone : (s'.area kind).attendant.remaining = 0 := by
    unfold remaining at hzero
    cases kind <;> omega
  exact AttendantPC.eq_returned hcar hnone

/-- **The simulation ends cleanly**, for any capacities and any interleaving. Where the owner sets
    the flag, every accepted car is parked and no attendant has one; from then on no counter
    changes; and after the two final posts of the owner no attendant waits for a post, and both can
    step on to their return. -/
theorem simulation_ends {maxAmount : Kind → ℕ} {s : State}
    (h : (parkingMachine maxAmount).Reachable s) :
    (s.owner = .settingEnd → ∀ kind, (s.area kind).accepted = (s.area kind).parked ∧
      (s.area kind).mFreeTemp = maxAmount kind ∧ (s.area kind).attendant.taken = 0 ∧
      (s.area kind).attendant.hasCar = false) ∧
    (s.simulationEnd = true → ∀ turns s', (parkingMachine maxAmount).exec s turns = some s' →
      SameCounters s s') ∧
    (s.owner = .returned → (∀ kind,
        ((s.area kind).attendant = .waitingNew → (s.area kind).newCar ≠ 0) ∧
        ((s.area kind).attendant = .waitingCharge → (s.area kind).inCharge ≠ 0)) ∧
      ∃ turns s', (parkingMachine maxAmount).exec s turns = some s' ∧
        ∀ kind, (s'.area kind).attendant = .returned) := by
  have hinv := lotInv_reachable h
  refine ⟨?_, ?_, ?_⟩
  · intro howner kind
    have harea := hinv.area kind
    have hhalf := harea.halfParked_le
    rw [howner] at harea
    have htaken := harea.taken_of_full
    have hparked := harea.full (by cases kind <;> rfl)
    have hroom := harea.room
    have hle := harea.parked_le
    have htemp := harea.temp
    exact ⟨by omega, by omega, htaken, AttendantPC.hasCar_of_taken htaken⟩
  · intro hend turns s' he
    refine (h.exec_invariant (Q := fun t => t.simulationEnd = true ∧ SameCounters s t) ?_ turns
      ⟨hend, SameCounters.refl s⟩ he).2
    rintro t turn t' ht ⟨hended, hsame⟩ hnext
    obtain ⟨hstep, hflag⟩ := (lotInv_reachable ht).next_ended hended hnext
    exact ⟨hflag, hsame.trans hstep⟩
  · intro howner
    exact ⟨hinv.not_blocked howner, attendants_return h howner⟩

/-- One place for an automobile and none for a pickup: the car is let in and parked, and the owner
    ends the simulation. -/
theorem simulation_ends_parked : ∃ s : State,
    (parkingMachine fun k => if k = .auto then 1 else 0).exec
      (init fun k => if k = .auto then 1 else 0)
      (List.replicate 6 (.owner .auto) ++ List.replicate 10 .attendantAuto ++
        List.replicate 7 (.owner .auto)) = some s ∧
    s.owner = .returned ∧ (s.area .auto).parked = 1 ∧
    (s.owner = .settingEnd → ∀ kind, (s.area kind).accepted = (s.area kind).parked ∧
      (s.area kind).mFreeTemp = (if kind = .auto then 1 else 0 : ℕ) ∧
      (s.area kind).attendant.taken = 0 ∧ (s.area kind).attendant.hasCar = false) ∧
    (s.simulationEnd = true → ∀ turns s',
      (parkingMachine fun k => if k = .auto then 1 else 0).exec s turns = some s' →
      SameCounters s s') ∧
    (s.owner = .returned → (∀ kind,
        ((s.area kind).attendant = .waitingNew → (s.area kind).newCar ≠ 0) ∧
        ((s.area kind).attendant = .waitingCharge → (s.area kind).inCharge ≠ 0)) ∧
      ∃ turns s', (parkingMachine fun k => if k = .auto then 1 else 0).exec s turns = some s' ∧
        ∀ kind, (s'.area kind).attendant = .returned) := by
  obtain ⟨s, hs, howner, hparked⟩ : ∃ s : State,
      (parkingMachine fun k => if k = .auto then 1 else 0).exec
        (init fun k => if k = .auto then 1 else 0)
        (List.replicate 6 (.owner .auto) ++ List.replicate 10 .attendantAuto ++
          List.replicate 7 (.owner .auto)) = some s ∧
      s.owner = .returned ∧ (s.area .auto).parked = 1 := ⟨_, rfl, rfl, rfl⟩
  have hreach : (parkingMachine fun k => if k = .auto then 1 else 0).Reachable s :=
    (Machine.Reachable.init rfl).exec _ hs
  exact ⟨s, hs, howner, hparked, simulation_ends hreach⟩

end SystemProgramming.Parking
