import SystemProgramming.Parking.Lot

set_option autoImplicit false

/-! # The accounting of the parking lot

Every counter is a function of two numbers, how many cars of the kind were let in and how many are
parked: a car that is let in costs a temporary place until it is parked and a real place from then
on. The arrival semaphore holds the cars that are let in and not yet taken, and after the end of the
simulation one post that stands for no car. The strict inequality in the guard of the owner then
says that fewer cars than places have been let in, parked or not. -/

namespace SystemProgramming.Parking

open Function

/-! ## Readings of the program points -/

/-- The mutex is the attendant's. -/
def AttendantPC.inside : AttendantPC → ℕ
  | .checking | .unlockingEnd | .unlockingTaken | .freeingTemp | .takingPlace | .unlockingParked => 1
  | _ => 0

/-- `inCharge` is the attendant's. -/
def AttendantPC.charged : AttendantPC → ℕ
  | .locking | .checking | .unlockingEnd | .postingEnd | .unlockingTaken | .postingCharge => 1
  | _ => 0

/-- The attendant has taken a post of the arrival semaphore and has not answered it by a parked
    car: it holds a car, or it returns on the post that ends the simulation. -/
def AttendantPC.taken : AttendantPC → ℕ
  | .waitingNew | .unlockingParked => 0
  | _ => 1

/-- The temporary place of the car is counted as free and its real place not yet as taken. -/
def AttendantPC.halfParked : AttendantPC → ℕ
  | .takingPlace => 1
  | _ => 0

/-- The attendant has seen that the simulation goes on. -/
def AttendantPC.hasCar : AttendantPC → Bool
  | .unlockingTaken | .postingCharge | .lockingPark | .freeingTemp | .takingPlace => true
  | _ => false

/-- The mutex is the owner's. -/
@[simp] def OwnerPC.inside : OwnerPC → ℕ
  | .deciding _ | .posting _ | .unlocking | .settingEnd | .unlockingEnd => 1
  | _ => 0

/-- A car of the kind is let in and its arrival not yet posted. -/
@[simp] def OwnerPC.letIn (kind : Kind) : OwnerPC → ℕ
  | .posting k => if k = kind then 1 else 0
  | _ => 0

/-- The owner has set `simulationEnd`. -/
@[simp] def OwnerPC.ended : OwnerPC → Bool
  | .unlockingEnd | .postingAuto | .postingPickup | .returned => true
  | _ => false

/-- The owner has read 0 in the counter of the real places of the kind, for the last time. -/
@[simp] def OwnerPC.seenFull : Kind → OwnerPC → Bool
  | .auto, .readingPickup | _, .lockingEnd | _, .settingEnd => true
  | _, pc => pc.ended

/-- The posts of the owner that stand for no car. -/
@[simp] def OwnerPC.finalPosts : Kind → OwnerPC → ℕ
  | .auto, .postingPickup | _, .returned => 1
  | _, _ => 0

/-! ## The invariant of one kind of car -/

/-- The account of one kind of car. Each accepted car is about to be posted, posted, taken or parked;
    the counters lag behind only between two statements of an attendant. -/
structure AreaInv (maxAmount : ℕ) (kind : Kind) (owner : OwnerPC) (a : Area) : Prop where
  charge : a.inCharge + a.attendant.charged = 1
  temp : a.mFreeTemp = maxAmount - (a.accepted - a.parked) + a.attendant.halfParked
  free : a.mFree = maxAmount - a.parked
  parked_le : a.parked ≤ a.accepted
  room : a.accepted ≤ maxAmount
  posts : a.newCar + a.attendant.taken + owner.letIn kind + a.parked
    = a.accepted + owner.finalPosts kind
  full : owner.seenFull kind = true → a.parked = maxAmount
  noCar : owner.ended = true → a.attendant.hasCar = false

/-- What the owner changes besides its own program point must not matter to this kind of car. -/
theorem AreaInv.owner {maxAmount : ℕ} {kind : Kind} {owner owner' : OwnerPC} {a : Area}
    (h : AreaInv maxAmount kind owner a) (hletIn : owner'.letIn kind = owner.letIn kind)
    (hposts : owner'.finalPosts kind = owner.finalPosts kind)
    (hfull : owner'.seenFull kind = true → a.parked = maxAmount)
    (hcar : owner'.ended = true → a.attendant.hasCar = false) : AreaInv maxAmount kind owner' a :=
  ⟨h.charge, h.temp, h.free, h.parked_le, h.room, by rw [hletIn, hposts]; exact h.posts, hfull, hcar⟩

theorem OwnerPC.finalPosts_le (kind : Kind) (owner : OwnerPC) :
    owner.finalPosts kind ≤ owner.ended.toNat := by
  cases owner <;> cases kind <;> simp [finalPosts, ended]

/-- Between its two counters the attendant has the mutex. -/
theorem AttendantPC.halfParked_le (pc : AttendantPC) : pc.halfParked ≤ pc.inside := by
  cases pc <;> decide

/-- An attendant with a car has seen that the simulation goes on, and it still goes on. -/
theorem AreaInv.not_ended {maxAmount : ℕ} {kind : Kind} {owner : OwnerPC} {a : Area}
    (h : AreaInv maxAmount kind owner a) (hcar : a.attendant.hasCar = true) :
    owner.ended = false := by
  cases hend : owner.ended with
  | true =>
      rw [h.noCar hend] at hcar
      cases hcar
  | false => rfl

/-- A car that an attendant holds is not parked yet. -/
theorem AreaInv.parked_lt {maxAmount : ℕ} {kind : Kind} {owner : OwnerPC} {a : Area}
    (h : AreaInv maxAmount kind owner a) (hcar : a.attendant.hasCar = true) :
    a.parked < a.accepted := by
  have hposts := h.posts
  have hfinal := owner.finalPosts_le kind
  rw [h.not_ended hcar, Bool.toNat_false] at hfinal
  have htaken : a.attendant.taken = 1 := by
    cases hpc : a.attendant <;> rw [hpc] at hcar <;> first | rfl | cases hcar
  omega

theorem AreaInv.halfParked_le {maxAmount : ℕ} {kind : Kind} {owner : OwnerPC} {a : Area}
    (h : AreaInv maxAmount kind owner a) : a.parked + a.attendant.halfParked ≤ a.accepted := by
  have hlt := h.parked_lt
  cases hpc : a.attendant
  case takingPlace => exact hlt (by rw [hpc]; rfl)
  all_goals exact h.parked_le

/-- A step of the attendant keeps its area in order. -/
theorem AreaInv.attendant {maxAmount : ℕ} {kind : Kind} {owner : OwnerPC} {a a' : Area}
    {mutex mutex' : Bool} (h : AreaInv maxAmount kind owner a)
    (hturn : attendantTurn owner.ended mutex a = some (a', mutex')) :
    AreaInv maxAmount kind owner a' := by
  have hlt := h.parked_lt
  obtain ⟨hcharge, htemp, hfree, hle, hroom, hposts, hfull, hcar⟩ := h
  cases hpc : a.attendant
  case returned =>
    rw [attendantTurn, hpc] at hturn
    cases hturn
  all_goals
    simp only [attendantTurn, hpc, Option.ite_none_left_eq_some, Option.some.injEq,
      Prod.mk.injEq] at hturn
    simp only [hpc, AttendantPC.charged, AttendantPC.taken, AttendantPC.halfParked]
      at hcharge htemp hposts
    rw [hpc] at hcar
  case waitingNew =>
    obtain ⟨hpost, rfl, -⟩ := hturn
    refine ⟨hcharge, htemp, hfree, hle, hroom, ?_, hfull, fun _ => rfl⟩
    simp only [AttendantPC.taken]
    omega
  case waitingCharge =>
    obtain ⟨hpost, rfl, -⟩ := hturn
    refine ⟨?_, htemp, hfree, hle, hroom, hposts, hfull, hcar⟩
    simp only [AttendantPC.charged]
    omega
  case locking | lockingPark =>
    obtain ⟨-, rfl, -⟩ := hturn
    exact ⟨hcharge, htemp, hfree, hle, hroom, hposts, hfull, hcar⟩
  case unlockingEnd | unlockingTaken | unlockingParked =>
    obtain ⟨rfl, -⟩ := hturn
    exact ⟨hcharge, htemp, hfree, hle, hroom, hposts, hfull, hcar⟩
  case checking =>
    -- the flag that the attendant reads says whether the post it took stands for a car
    obtain ⟨rfl, -⟩ := hturn
    cases hend : owner.ended with
    | true => exact ⟨hcharge, htemp, hfree, hle, hroom, hposts, hfull, fun _ => rfl⟩
    | false => exact ⟨hcharge, htemp, hfree, hle, hroom, hposts, hfull, fun h => by
        rw [hend] at h
        cases h⟩
  case postingEnd | postingCharge =>
    obtain ⟨rfl, -⟩ := hturn
    refine ⟨?_, htemp, hfree, hle, hroom, hposts, hfull, hcar⟩
    simp only [AttendantPC.charged]
    omega
  case freeingTemp =>
    obtain ⟨rfl, -⟩ := hturn
    refine ⟨hcharge, ?_, hfree, hle, hroom, hposts, hfull, hcar⟩
    simp only [AttendantPC.halfParked]
    omega
  case takingPlace =>
    obtain ⟨rfl, -⟩ := hturn
    refine ⟨hcharge, ?_, ?_, hlt (by rw [hpc]; rfl), hroom, ?_, ?_, fun _ => rfl⟩
    all_goals simp only [AttendantPC.halfParked, AttendantPC.taken]
    · omega
    · omega
    · omega
    · intro hseen
      have := hfull hseen
      have := hlt (by rw [hpc]; rfl)
      omega

/-- The attendant takes the mutex when it is free and gives back what it has. -/
theorem attendantTurn_mutex {simulationEnd mutex mutex' : Bool} {a a' : Area}
    (hinside : a.attendant.inside ≤ mutex.toNat)
    (hturn : attendantTurn simulationEnd mutex a = some (a', mutex')) :
    a'.attendant.inside + mutex.toNat = a.attendant.inside + mutex'.toNat := by
  cases hpc : a.attendant
  all_goals
    simp only [attendantTurn, hpc, Option.ite_none_left_eq_some, Option.some.injEq,
      Prod.mk.injEq, reduceCtorEq] at hturn
  case checking =>
    obtain ⟨rfl, rfl⟩ := hturn
    cases simulationEnd <;> rfl
  case locking | lockingPark =>
    obtain ⟨hfree, rfl, rfl⟩ := hturn
    rw [Bool.eq_false_iff.2 hfree]
    rfl
  case unlockingEnd | unlockingTaken | unlockingParked =>
    obtain ⟨rfl, rfl⟩ := hturn
    rw [hpc] at hinside
    have := Bool.toNat_le mutex
    simp only [AttendantPC.inside, Bool.toNat_false] at hinside ⊢
    omega
  case waitingNew | waitingCharge =>
    obtain ⟨-, rfl, rfl⟩ := hturn
    rfl
  all_goals
    obtain ⟨rfl, rfl⟩ := hturn
    rfl

/-! ## The invariant of the lot -/

/-- The accounts of the two kinds, the flag, and who is inside the mutex. -/
structure LotInv (maxAmount : Kind → ℕ) (s : State) : Prop where
  area : ∀ kind, AreaInv (maxAmount kind) kind s.owner (s.area kind)
  flag : s.simulationEnd = s.owner.ended
  mutex : s.owner.inside + (s.area .auto).attendant.inside + (s.area .pickup).attendant.inside
    = s.parkingLotMutex.toNat

theorem lotInv_init (maxAmount : Kind → ℕ) : LotInv maxAmount (init maxAmount) := by
  refine ⟨fun kind => ⟨rfl, ?_, ?_, Nat.le_refl _, Nat.zero_le _, ?_, ?_, ?_⟩, rfl, rfl⟩
  · simp [init, AttendantPC.halfParked]
  · simp [init]
  · cases kind <;> rfl
  · cases kind <;> exact fun h => by cases h
  · exact fun _ => rfl

theorem LotInv.attendant {maxAmount : Kind → ℕ} {s s' : State} (h : LotInv maxAmount s)
    {kind : Kind} (hnext : carAttendant kind s = some s') : LotInv maxAmount s' := by
  obtain ⟨harea, hflag, hmutex⟩ := h
  obtain ⟨⟨a', mutex'⟩, hturn, rfl⟩ := Option.map_eq_some_iff.1 hnext
  rw [hflag] at hturn
  have hinside : (s.area kind).attendant.inside ≤ s.parkingLotMutex.toNat := by
    cases kind <;> omega
  have hmove := attendantTurn_mutex hinside hturn
  refine ⟨fun k => ?_, hflag, ?_⟩
  · show AreaInv (maxAmount k) k s.owner (update s.area kind a' k)
    by_cases hk : k = kind
    · rw [hk, update_self]
      exact (harea kind).attendant hturn
    · rw [update_of_ne hk]
      exact harea k
  · show s.owner.inside + (update s.area kind a' .auto).attendant.inside
      + (update s.area kind a' .pickup).attendant.inside = mutex'.toNat
    cases kind with
    | auto =>
        rw [update_self, update_of_ne (by decide)]
        omega
    | pickup =>
        rw [update_self, update_of_ne (by decide)]
        omega

/-- A real counter at 0 says that every place of the kind is taken. -/
theorem AreaInv.parked_of_free {maxAmount : ℕ} {kind : Kind} {owner : OwnerPC} {a : Area}
    (h : AreaInv maxAmount kind owner a) (hfree : a.mFree = 0) : a.parked = maxAmount := by
  have := h.free
  omega

theorem AttendantPC.hasCar_of_taken {pc : AttendantPC} (h : pc.taken = 0) : pc.hasCar = false := by
  cases pc <;> first | rfl | cases h

/-- Once every place of the kind is taken and before the final posts, the attendant has nothing. -/
theorem AreaInv.taken_of_full {maxAmount : ℕ} {kind : Kind} {a : Area}
    (h : AreaInv maxAmount kind .settingEnd a) : a.attendant.taken = 0 := by
  have hparked := h.full (by cases kind <;> rfl)
  have hposts := h.posts
  have hroom := h.room
  simp only [OwnerPC.letIn, OwnerPC.finalPosts] at hposts
  omega

/-- A step of the owner that leaves the areas alone. -/
theorem LotInv.goto {maxAmount : Kind → ℕ} {s s' : State} (h : LotInv maxAmount s)
    (harea : s'.area = s.area)
    (hletIn : ∀ kind, s'.owner.letIn kind = s.owner.letIn kind)
    (hposts : ∀ kind, s'.owner.finalPosts kind = s.owner.finalPosts kind)
    (hfull : ∀ kind, s'.owner.seenFull kind = true →
      s.owner.seenFull kind = true ∨ (s.area kind).mFree = 0)
    (hended : s'.owner.ended = true → s.owner.ended = true ∨ s.owner = .settingEnd)
    (hflag : s'.simulationEnd = s'.owner.ended)
    (hmutex : s'.owner.inside + s.parkingLotMutex.toNat
      = s.owner.inside + s'.parkingLotMutex.toNat) : LotInv maxAmount s' := by
  refine ⟨fun kind => ?_, hflag, ?_⟩
  · rw [harea]
    have hkind := h.area kind
    refine hkind.owner (hletIn kind) (hposts kind) (fun hseen => ?_) (fun hend => ?_)
    · rcases hfull kind hseen with hseen | hfree
      · exact hkind.full hseen
      · exact hkind.parked_of_free hfree
    · rcases hended hend with hend | hset
      · exact hkind.noCar hend
      · rw [hset] at hkind
        exact AttendantPC.hasCar_of_taken hkind.taken_of_full
  · have := h.mutex
    rw [harea]
    omega

/-- A step of the owner that changes one area, and not its attendant. -/
theorem LotInv.setArea {maxAmount : Kind → ℕ} {s : State} (h : LotInv maxAmount s) {pc : OwnerPC}
    {kind : Kind} {a : Area} (hattendant : a.attendant = (s.area kind).attendant)
    (harea : AreaInv (maxAmount kind) kind pc a)
    (hother : ∀ k, k ≠ kind → AreaInv (maxAmount k) k pc (s.area k))
    (hended : pc.ended = s.owner.ended) (hinside : pc.inside = s.owner.inside) :
    LotInv maxAmount { s with area := update s.area kind a, owner := pc } := by
  have hsame : ∀ k, (update s.area kind a k).attendant = (s.area k).attendant := by
    intro k
    by_cases hk : k = kind
    · rw [hk, update_self, hattendant]
    · rw [update_of_ne hk]
  refine ⟨fun k => ?_, h.flag.trans hended.symm, ?_⟩
  · show AreaInv (maxAmount k) k pc (update s.area kind a k)
    by_cases hk : k = kind
    · rw [hk, update_self]
      exact harea
    · rw [update_of_ne hk]
      exact hother k hk
  · show pc.inside + (update s.area kind a .auto).attendant.inside
      + (update s.area kind a .pickup).attendant.inside = s.parkingLotMutex.toNat
    rw [hsame, hsame, hinside, h.mutex]

/-- A post of the arrival semaphore, for a car that was let in or for the end. -/
theorem AreaInv.postNew {maxAmount : ℕ} {kind : Kind} {owner owner' : OwnerPC} {a : Area}
    (h : AreaInv maxAmount kind owner a)
    (hpost : owner'.letIn kind + owner.finalPosts kind + 1
      = owner.letIn kind + owner'.finalPosts kind)
    (hfull : owner'.seenFull kind = owner.seenFull kind) (hended : owner'.ended = owner.ended) :
    AreaInv maxAmount kind owner' a.postNew := by
  obtain ⟨hcharge, htemp, hfree, hle, hroom, hposts, hparked, hcar⟩ := h
  refine ⟨hcharge, htemp, hfree, hle, hroom, ?_, by rw [hfull]; exact hparked,
    by rw [hended]; exact hcar⟩
  show a.newCar + 1 + a.attendant.taken + owner'.letIn kind + a.parked
    = a.accepted + owner'.finalPosts kind
  omega

/-- The guard of an arrival keeps one place for the car: fewer cars are in than there are places. -/
theorem AreaInv.letIn {maxAmount : ℕ} {kind : Kind} {a : Area}
    (h : AreaInv maxAmount kind (.deciding kind) a) (hinside : a.attendant.inside = 0)
    (hspace : hasSpace maxAmount a = true) :
    AreaInv maxAmount kind (.posting kind)
      { a with mFreeTemp := a.mFreeTemp - 1, accepted := a.accepted + 1 } := by
  obtain ⟨hcharge, htemp, hfree, hle, hroom, hposts, -, -⟩ := h
  obtain ⟨-, -, hsum⟩ := of_decide_eq_true hspace
  -- with the mutex at the owner, no car is between its two counters
  have hhalf : a.attendant.halfParked = 0 := by
    have := a.attendant.halfParked_le
    omega
  rw [hhalf] at htemp
  refine ⟨hcharge, ?_, hfree, ?_, ?_, ?_, ?_, ?_⟩
  · show a.mFreeTemp - 1 = maxAmount - ((a.accepted + 1 : ℕ) - a.parked) + a.attendant.halfParked
    rw [hhalf]
    omega
  · show a.parked ≤ a.accepted + 1
    omega
  · show a.accepted + 1 ≤ maxAmount
    omega
  · show a.newCar + a.attendant.taken + (if kind = kind then 1 else 0) + a.parked
      = a.accepted + 1 + OwnerPC.finalPosts kind (.posting kind)
    rw [if_pos rfl]
    simp only [OwnerPC.letIn, OwnerPC.finalPosts] at hposts ⊢
    omega
  · cases kind <;> exact fun h => by cases h
  · exact fun h => by cases h

/-- A step of the owner that leaves the areas alone and tells it nothing new. -/
theorem LotInv.walk {maxAmount : Kind → ℕ} {s s' : State} (h : LotInv maxAmount s)
    (harea : s'.area = s.area)
    (hpc : ∀ kind, s'.owner.letIn kind = s.owner.letIn kind ∧
      s'.owner.finalPosts kind = s.owner.finalPosts kind ∧
      (s'.owner.seenFull kind = true → s.owner.seenFull kind = true))
    (hended : s'.owner.ended = true → s.owner.ended = true)
    (hflag : s'.simulationEnd = s'.owner.ended)
    (hmutex : s'.owner.inside + s.parkingLotMutex.toNat
      = s.owner.inside + s'.parkingLotMutex.toNat) : LotInv maxAmount s' :=
  h.goto harea (fun k => (hpc k).1) (fun k => (hpc k).2.1) (fun k hk => .inl ((hpc k).2.2 hk))
    (fun hend => .inl (hended hend)) hflag hmutex

theorem LotInv.owner {maxAmount : Kind → ℕ} {s s' : State} (h : LotInv maxAmount s)
    {kind : Kind} (hnext : carOwner maxAmount kind s = some s') : LotInv maxAmount s' := by
  obtain ⟨area, simulationEnd, mutex, owner⟩ := s
  have hmutex := h.mutex
  have hle := Bool.toNat_le mutex
  obtain rfl : simulationEnd = owner.ended := h.flag
  cases owner
  all_goals
    simp only [carOwner, Option.ite_none_left_eq_some, Option.some.injEq, reduceCtorEq] at hnext
  case testing | arriving =>
    obtain rfl := hnext
    exact h.walk rfl (fun k => by cases k <;> simp) (by simp) rfl rfl
  case locking | lockingEnd =>
    obtain ⟨hfree, rfl⟩ := hnext
    rw [Bool.eq_false_iff.2 hfree] at h
    exact h.walk rfl (fun k => by cases k <;> simp) (by simp) rfl rfl
  case deciding k =>
    have hinside : (area k).attendant.inside = 0 := by
      simp only [OwnerPC.inside] at hmutex
      cases k <;> omega
    split at hnext
    · next hspace =>
        obtain rfl := Option.some.inj hnext
        refine h.setArea rfl ((h.area k).letIn hinside hspace) (fun j hj => ?_) rfl rfl
        exact (h.area j).owner (if_neg (Ne.symm hj)) (by cases j <;> rfl)
          (by cases j <;> simp) (by simp)
    · obtain rfl := Option.some.inj hnext
      exact h.walk rfl (fun k => by cases k <;> simp) (by simp) rfl rfl
  case posting k =>
    obtain rfl := hnext
    refine h.setArea rfl ((h.area k).postNew ?_ (by cases k <;> rfl) rfl) (fun j hj => ?_) rfl rfl
    · simp
    · exact (h.area j).owner (if_neg (Ne.symm hj)).symm (by cases j <;> rfl)
        (by cases j <;> simp) (by simp)
  case unlocking | unlockingEnd =>
    obtain rfl := hnext
    refine h.walk rfl (fun k => by cases k <;> simp) (by simp) rfl ?_
    simp only [OwnerPC.inside, Bool.toNat_false] at hmutex ⊢
    omega
  case readingAuto | readingPickup =>
    -- the counters are read without the mutex, and a counter that is 0 stays 0
    obtain rfl := hnext
    split
    · next hfree =>
        exact h.goto rfl (fun _ => rfl) (fun k => by cases k <;> rfl)
          (fun k => by cases k <;> simp [hfree]) (by simp) rfl rfl
    · exact h.walk rfl (fun k => by cases k <;> simp) (by simp) rfl rfl
  case settingEnd =>
    obtain rfl := hnext
    exact h.goto rfl (fun _ => rfl) (fun k => by cases k <;> rfl)
      (fun k => by cases k <;> simp) (fun _ => .inr rfl) rfl rfl
  case postingAuto =>
    obtain rfl := hnext
    refine h.setArea rfl ((h.area .auto).postNew rfl rfl rfl) (fun j hj => ?_) rfl rfl
    cases j with
    | auto => exact absurd rfl hj
    | pickup => exact (h.area .pickup).owner rfl rfl (h.area .pickup).full (h.area .pickup).noCar
  case postingPickup =>
    obtain rfl := hnext
    refine h.setArea rfl ((h.area .pickup).postNew rfl rfl rfl) (fun j hj => ?_) rfl rfl
    cases j with
    | auto => exact (h.area .auto).owner rfl rfl (h.area .auto).full (h.area .auto).noCar
    | pickup => exact absurd rfl hj

theorem lotInv_reachable {maxAmount : Kind → ℕ} {s : State}
    (h : (parkingMachine maxAmount).Reachable s) : LotInv maxAmount s := by
  refine h.invariant ?_ ?_
  · rintro s rfl
    exact lotInv_init maxAmount
  · intro s turn s' _ hinv hnext
    cases turn with
    | owner kind => exact hinv.owner hnext
    | attendantAuto => exact hinv.attendant (show carAttendant .auto s = some s' from hnext)
    | attendantPickup => exact hinv.attendant (show carAttendant .pickup s = some s' from hnext)

/-! ## What the counters say -/

/-- The arrivals posted and not yet taken. After the end of the simulation a post stands for no
    car. -/
def carsWaiting (kind : Kind) (s : State) : ℕ :=
  if s.simulationEnd then 0 else (s.area kind).newCar

/-- The car that the attendant holds. -/
def carsHeld (kind : Kind) (s : State) : ℕ :=
  if s.simulationEnd then 0 else (s.area kind).attendant.taken

/-- The owner's program point has no part in the count while the mutex is free. -/
theorem LotInv.in_flight {maxAmount : Kind → ℕ} {s : State} (h : LotInv maxAmount s)
    (hfree : s.parkingLotMutex = false) (kind : Kind) :
    (s.area kind).accepted = (s.area kind).parked + carsWaiting kind s + carsHeld kind s := by
  have hmutex := h.mutex
  rw [hfree, Bool.toNat_false] at hmutex
  obtain ⟨-, -, -, hle, hroom, hposts, hfull, -⟩ := h.area kind
  have hletIn : s.owner.letIn kind = 0 := by
    cases hpc : s.owner
    case posting k =>
      rw [hpc, OwnerPC.inside] at hmutex
      omega
    all_goals rfl
  rw [carsWaiting, carsHeld, h.flag]
  cases hend : s.owner.ended with
  | true =>
      have hseen : s.owner.seenFull kind = true := by
        cases hpc : s.owner <;> rw [hpc] at hend <;> cases kind <;> first | rfl | cases hend
      have := hfull hseen
      simp only [if_true]
      omega
  | false =>
      have := s.owner.finalPosts_le kind
      rw [hend, Bool.toNat_false] at this
      simp only [Bool.false_eq_true, if_false]
      omega

/-- **The accounting of the parking lot**, for any capacities and in every reachable state. No
    counter leaves its range, and an attendant about to park finds a real place free. While the
    mutex is free, the temporary places in use are the accepted cars not yet parked: the arrivals
    posted and not yet taken and the car that the attendant holds. -/
theorem parking_accounting {maxAmount : Kind → ℕ} {s : State}
    (h : (parkingMachine maxAmount).Reachable s) (kind : Kind) :
    (0 ≤ (s.area kind).mFreeTemp ∧ (s.area kind).mFreeTemp ≤ maxAmount kind ∧
      0 ≤ (s.area kind).mFree ∧ (s.area kind).mFree ≤ maxAmount kind) ∧
    ((s.area kind).attendant = .takingPlace → 0 < (s.area kind).mFree) ∧
    (s.parkingLotMutex = false →
      (maxAmount kind : ℤ) ≤ (s.area kind).mFreeTemp + (s.area kind).mFree ∧
      (maxAmount kind : ℤ) - (s.area kind).mFreeTemp
        = (s.area kind).accepted - (s.area kind).parked ∧
      (maxAmount kind : ℤ) - (s.area kind).mFreeTemp = carsWaiting kind s + carsHeld kind s) := by
  have hinv := lotInv_reachable h
  have hlt := (hinv.area kind).parked_lt
  have hhalf := (hinv.area kind).halfParked_le
  obtain ⟨-, htemp, hfree, hle, hroom, -, -, -⟩ := hinv.area kind
  refine ⟨?_, ?_, ?_⟩
  · omega
  · intro hpc
    have := hlt (by rw [hpc]; rfl)
    omega
  · intro hmutex
    have hflight := hinv.in_flight hmutex kind
    have hpc := (s.area kind).attendant.halfParked_le
    have hinside := hinv.mutex
    rw [hmutex, Bool.toNat_false] at hinside
    have : (s.area kind).attendant.inside = 0 := by cases kind <;> omega
    omega

/-- The owner lets an automobile in and the attendant takes it. -/
theorem parking_accounting_taken : ∃ s : State,
    (parkingMachine fun _ => 2).exec (init fun _ => 2)
      [.owner .auto, .owner .auto, .owner .auto, .owner .auto, .owner .auto, .owner .auto,
        .attendantAuto] = some s ∧
    s.parkingLotMutex = false ∧ carsHeld .auto s = 1 ∧
    (0 ≤ (s.area .auto).mFreeTemp ∧ (s.area .auto).mFreeTemp ≤ (2 : ℕ) ∧
      0 ≤ (s.area .auto).mFree ∧ (s.area .auto).mFree ≤ (2 : ℕ)) ∧
    ((s.area .auto).attendant = .takingPlace → 0 < (s.area .auto).mFree) ∧
    (s.parkingLotMutex = false →
      ((2 : ℕ) : ℤ) ≤ (s.area .auto).mFreeTemp + (s.area .auto).mFree ∧
      ((2 : ℕ) : ℤ) - (s.area .auto).mFreeTemp
        = (s.area .auto).accepted - (s.area .auto).parked ∧
      ((2 : ℕ) : ℤ) - (s.area .auto).mFreeTemp = carsWaiting .auto s + carsHeld .auto s) := by
  obtain ⟨s, hs, hmutex, hheld⟩ : ∃ s : State,
      (parkingMachine fun _ => 2).exec (init fun _ => 2)
        [.owner .auto, .owner .auto, .owner .auto, .owner .auto, .owner .auto, .owner .auto,
          .attendantAuto] = some s ∧ s.parkingLotMutex = false ∧ carsHeld .auto s = 1 :=
    ⟨_, rfl, rfl, rfl⟩
  have hreach : (parkingMachine fun _ => 2).Reachable s := (Machine.Reachable.init rfl).exec _ hs
  exact ⟨s, hs, hmutex, hheld, parking_accounting hreach .auto⟩

end SystemProgramming.Parking
