import Mathlib.Algebra.Order.Group.Multiset
import SystemProgramming.Copy.Pipeline

set_option autoImplicit false

/-! # Nothing is left uncopied

`FlowInv` follows the items: popped, stored, pushed and still to push are the items of the manager
in order, and what has been popped is finished with or in the hands of one worker. `BarrierInv` and
`JoinInv` say what a thread past the barrier and a `main` past its joins know about the others.
Together they give `AllCopied` behind both. -/

namespace SystemProgramming.Copy

open Function

variable {α : Type*} {W : ℕ}

/-! ## The flow of the items -/

/-- The item in the hands of worker `i`, tagged with `i`. -/
def heldBy (i : Fin W) (pc : WorkerPC α) : Multiset (Fin W × α) := pc.held.map (Prod.mk i)

/-- Where the items are. -/
structure FlowInv (items : List α) (s : CopyState W α) : Prop where
  stores : Stores s.buffer s.buffer.stored
  flow : s.popped.map Prod.snd ++ s.buffer.stored = s.pushed
  rest : s.pushed ++ s.manager.rest = items
  done_eq : s.buffer.done = s.manager.isPast
  /-- A worker has seen a pop fail only after the last item was popped. -/
  ended : ∀ i, (s.workers i).isEnded = true → s.buffer.done = true ∧ s.buffer.stored = []
  held : (s.popped : Multiset (Fin W × α)) = s.closed + sumAt heldBy s.workers

theorem flowInv_init {size : ℤ} (hsize : 1 ≤ size) (items : List α) (memory : ℤ → α) :
    FlowInv (W := W) items
      ⟨initBuffer memory size, .pushing items, fun _ => .popping, 0, 0, [], [], []⟩ := by
  have hstores := initBuffer_stores memory hsize
  refine ⟨?_, ?_, rfl, rfl, fun i hi => by simp [WorkerPC.isEnded] at hi, ?_⟩
  · rwa [hstores.stored_eq]
  · rw [hstores.stored_eq]
    rfl
  · simp [sumAt, heldBy, WorkerPC.held]

/-- A step that leaves the buffer and the histories alone, and the hands of the workers. -/
theorem FlowInv.of_eq {items : List α} {s s' : CopyState W α} (h : FlowInv items s)
    (hbuffer : s'.buffer = s.buffer) (hpushed : s'.pushed = s.pushed)
    (hpopped : s'.popped = s.popped) (hclosed : s'.closed = s.closed)
    (hrest : s'.manager.rest = s.manager.rest) (hpast : s'.manager.isPast = s.manager.isPast)
    (hended : ∀ i, (s'.workers i).isEnded = true →
      s.buffer.done = true ∧ s.buffer.stored = [])
    (hheld : sumAt heldBy s'.workers = sumAt heldBy s.workers) : FlowInv items s' := by
  obtain ⟨hstores, hflow, hr, hdone, -, hh⟩ := h
  refine ⟨?_, ?_, ?_, ?_, ?_, ?_⟩
  · rwa [hbuffer]
  · rw [hpopped, hbuffer, hpushed, hflow]
  · rw [hpushed, hrest, hr]
  · rw [hbuffer, hpast, hdone]
  · rwa [hbuffer]
  · rw [hpopped, hclosed, hheld, hh]

/-- A worker moves to a program point with the same item in its hands. -/
theorem sumAt_heldBy_update {workers : Fin W → WorkerPC α} {i : Fin W} {x : WorkerPC α}
    (h : x.held = (workers i).held) :
    sumAt heldBy (update workers i x) = sumAt heldBy workers := by
  have hupdate := sumAt_update heldBy workers i x
  simp only [heldBy, h] at hupdate
  exact add_right_cancel hupdate

/-- A worker moves to a program point that is no end, or is one rightly. -/
theorem ended_update {workers : Fin W → WorkerPC α} {P : Prop} {i : Fin W} {x : WorkerPC α}
    (h : ∀ j, (workers j).isEnded = true → P) (hx : x.isEnded = true → P) :
    ∀ j, (update workers i x j).isEnded = true → P :=
  (forall_update_iff workers fun _ y => y.isEnded = true → P).2 ⟨hx, fun j _ => h j⟩

theorem WorkerPC.isEnded_wake (x : WorkerPC α) : x.wake.isEnded = x.isEnded := by
  cases x <;> rfl

theorem WorkerPC.held_wake (x : WorkerPC α) : x.wake.held = x.held := by
  cases x <;> rfl

theorem FlowInv.step {v : Version} {items : List α} {s s' : CopyState W α} (h : FlowInv items s)
    (hstep : CopyStep v s s') : FlowInv items s' := by
  obtain ⟨hstores, hflow, hrest, hdone, hended, hheld⟩ := h
  have hinv : FlowInv items s := ⟨hstores, hflow, hrest, hdone, hended, hheld⟩
  cases hstep with
  | managerSleeps item rest hm hpush =>
      exact hinv.of_eq rfl rfl rfl rfl (by simp [hm, ManagerPC.rest]) (by simp [hm, ManagerPC.isPast])
        hended rfl
  | managerPushes item rest b woken workers hm hpush hsignal =>
      obtain ⟨hstores', hdone', -⟩ := bufferPush_spec hstores hpush
      have hpast : s.buffer.done = false := by rw [hdone, hm]; rfl
      have hstored' := hstores'.stored_eq
      refine ⟨by rwa [hstored'], ?_, ?_, ?_, fun i hi => ?_, ?_⟩
      · rw [hstored', ← hflow, List.append_assoc]
      · rw [← hrest, hm, List.append_assoc]
        rfl
      · rw [hdone', hpast]
        rfl
      · -- nobody has ended while the manager still pushes
        rw [signal_congr WorkerPC.isEnded_wake hsignal] at hi
        exact absurd (hended i hi).1 (by simp [hpast])
      · rw [hheld]
        congr 1
        refine (sumAt_congr fun i => ?_).symm
        rw [heldBy, signal_congr WorkerPC.held_wake hsignal, heldBy]
  | managerSetsDone hm =>
      have hstores' := bufferSetDone_stores hstores
      have hstored' : (bufferSetDone s.buffer).stored = s.buffer.stored := rfl
      refine ⟨by rwa [hstored'], by rw [hstored', hflow], ?_, ?_, fun i hi => ?_, ?_⟩
      · rw [← hrest, hm]
        cases v <;> rfl
      · cases v <;> rfl
      · rw [broadcast_congr WorkerPC.isEnded_wake] at hi
        exact ⟨rfl, (hended i hi).2⟩
      · rw [hheld]
        congr 1
        refine (sumAt_congr fun i => ?_).symm
        rw [heldBy, broadcast_congr WorkerPC.held_wake, heldBy]
  | managerArrives hm =>
      exact hinv.of_eq rfl rfl rfl rfl (by rw [hm]; rfl) (by rw [hm]; rfl) hended rfl
  | managerLeaves hm hall =>
      exact hinv.of_eq rfl rfl rfl rfl (by rw [hm]; rfl) (by rw [hm]; rfl) hended rfl
  | managerWakes rest hm =>
      exact hinv.of_eq rfl rfl rfl rfl (by rw [hm]; rfl) (by rw [hm]; rfl) hended rfl
  | workerSleeps i hi hpop =>
      exact hinv.of_eq rfl rfl rfl rfl rfl rfl (ended_update hended nofun)
        (sumAt_heldBy_update (by rw [hi]; rfl))
  | workerFails i hi hpop =>
      have hspec := bufferPop_spec hstores
      rw [hpop] at hspec
      exact hinv.of_eq rfl rfl rfl rfl rfl rfl (ended_update hended fun _ => ⟨hspec.2, hspec.1⟩)
        (sumAt_heldBy_update (by rw [hi]; rfl))
  | workerPops i item b hi hpop =>
      have hspec := bufferPop_spec hstores
      rw [hpop] at hspec
      obtain ⟨rest, hcons, hstores', hdone', -⟩ := hspec
      have hstored' := hstores'.stored_eq
      refine ⟨by rwa [hstored'], ?_, ?_, ?_, ?_, ?_⟩
      · rw [hstored', List.map_append, List.append_assoc, ← hflow, hcons]
        rfl
      · rw [← hrest]
        cases s.manager <;> rfl
      · rw [hdone', hdone]
        cases s.manager <;> rfl
      · refine ended_update (fun j hj => ?_) nofun
        -- nobody has ended while there is an item to pop
        have := (hended j hj).2
        rw [hcons] at this
        exact absurd this (by simp)
      · have hupdate := sumAt_update heldBy s.workers i (.copying item)
        rw [hi] at hupdate
        have hnone : heldBy i (WorkerPC.popping : WorkerPC α) = 0 := rfl
        rw [hnone, add_zero] at hupdate
        rw [hupdate, ← add_assoc, ← hheld, ← Multiset.coe_add]
        rfl
  | workerEnds i hi hdoneb =>
      refine hinv.of_eq rfl rfl rfl rfl rfl rfl (ended_update hended fun _ => ?_)
        (sumAt_heldBy_update (by rw [hi]; cases v <;> rfl))
      exact hended i (by rw [hi]; rfl)
  | workerNaps i hi hdoneb =>
      exact hinv.of_eq rfl rfl rfl rfl rfl rfl (ended_update hended nofun)
        (sumAt_heldBy_update (by rw [hi]; rfl))
  | workerRetries i hi =>
      exact hinv.of_eq rfl rfl rfl rfl rfl rfl (ended_update hended nofun)
        (sumAt_heldBy_update (by rw [hi]; rfl))
  | workerCopies i item hi =>
      exact hinv.of_eq rfl rfl rfl rfl rfl rfl (ended_update hended nofun)
        (sumAt_heldBy_update (by rw [hi]; rfl))
  | workerClosesSrc i item hi =>
      exact hinv.of_eq rfl rfl rfl rfl rfl rfl (ended_update hended nofun)
        (sumAt_heldBy_update (by rw [hi]; rfl))
  | workerClosesDest i item hi =>
      refine ⟨hstores, hflow, hrest, hdone, ended_update hended nofun, ?_⟩
      have hupdate := sumAt_update heldBy s.workers i .popping
      rw [hi] at hupdate
      have hitem : heldBy i (WorkerPC.closingDest item) = {(i, item)} := rfl
      have hnone : heldBy i (WorkerPC.popping : WorkerPC α) = 0 := rfl
      rw [hnone, add_zero, hitem] at hupdate
      rw [hheld, ← hupdate, ← Multiset.coe_add, add_assoc]
      congr 1
      exact add_comm _ _
  | workerArrives i hi =>
      exact hinv.of_eq rfl rfl rfl rfl rfl rfl
        (ended_update hended fun _ => hended i (by rw [hi]; rfl))
        (sumAt_heldBy_update (by rw [hi]; rfl))
  | workerLeaves i hi hall =>
      exact hinv.of_eq rfl rfl rfl rfl rfl rfl
        (ended_update hended fun _ => hended i (by rw [hi]; rfl))
        (sumAt_heldBy_update (by rw [hi]; rfl))
  | workerWakes i hi =>
      exact hinv.of_eq rfl rfl rfl rfl rfl rfl (ended_update hended nofun)
        (sumAt_heldBy_update (by rw [hi]; rfl))
  | joinsManager hm hzero => exact hinv.of_eq rfl rfl rfl rfl rfl rfl hended rfl
  | joinsWorker i hi hji => exact hinv.of_eq rfl rfl rfl rfl rfl rfl hended rfl

theorem flowInv_reachable {v : Version} {size : ℤ} (hsize : 1 ≤ size) {items : List α}
    {s : CopyState W α} (h : (copyMachine v W size items).Reachable s) : FlowInv items s :=
  copy_invariant (flowInv_init hsize items) (fun _ _ _ hi hs => hi.step hs) h

/-! ## Behind the barrier and behind the joins -/

/-- A thread that has finished stays finished. -/
theorem CopyStep.manager_finished {v : Version} {s s' : CopyState W α} (hstep : CopyStep v s s')
    (h : s.manager = .finished) : s'.manager = .finished := by
  cases hstep <;> simp_all [ManagerPC.wake]

theorem update_finished {workers : Fin W → WorkerPC α} {i j : Fin W} {x : WorkerPC α}
    (h : workers i = .finished) (hj : workers j ≠ .finished) :
    update workers j x i = .finished := by
  rw [update_of_ne, h]
  rintro rfl
  exact hj h

theorem CopyStep.worker_finished {v : Version} {s s' : CopyState W α} (hstep : CopyStep v s s')
    {i : Fin W} (h : s.workers i = .finished) : s'.workers i = .finished := by
  cases hstep with
  | managerPushes item rest b woken workers hm hpush hsignal =>
      rcases signal_cases hsignal with ⟨j, hj, rfl⟩ | ⟨-, rfl⟩
      · exact update_finished h (by rintro hj'; simp [hj', WorkerPC.isAsleep] at hj)
      · exact h
  | managerSetsDone hm => simp [broadcast, h, WorkerPC.isAsleep]
  | workerSleeps j hj | workerFails j hj | workerPops j _ _ hj | workerEnds j hj
  | workerNaps j hj | workerRetries j hj | workerCopies j _ hj | workerClosesSrc j _ hj
  | workerClosesDest j _ hj | workerArrives j hj | workerLeaves j hj | workerWakes j hj =>
      exact update_finished h (by rw [hj]; nofun)
  | managerSleeps | managerArrives | managerLeaves | managerWakes | joinsManager | joinsWorker =>
      exact h

/-- What `main` knows after its first `joined` joins. -/
structure JoinInv (s : CopyState W α) : Prop where
  le : s.joined ≤ W + 1
  manager : 0 < s.joined → s.manager = .finished
  workers : ∀ i : Fin W, i.val + 1 < s.joined → s.workers i = .finished

theorem JoinInv.step {v : Version} {s s' : CopyState W α} (h : JoinInv s)
    (hstep : CopyStep v s s') : JoinInv s' := by
  -- only the joins count up
  have hjoined : s'.joined = s.joined → JoinInv s' := fun heq =>
    ⟨heq ▸ h.le, fun hpos => hstep.manager_finished (h.manager (heq ▸ hpos)),
      fun i hi => hstep.worker_finished (h.workers i (heq ▸ hi))⟩
  cases hstep with
  | joinsManager hm hzero =>
      exact ⟨by show 1 ≤ W + 1; omega, fun _ => hm, fun i hi => absurd hi (by simp)⟩
  | joinsWorker i hi hji =>
      refine ⟨?_, fun _ => h.manager (by omega), fun j hj => ?_⟩
      · show s.joined + 1 ≤ W + 1
        omega
      · change j.val + 1 < s.joined + 1 at hj
        by_cases hij : j = i
        · rw [hij, hi]
        · have : j.val ≠ i.val := fun heq => hij (Fin.ext heq)
          exact h.workers j (by omega)
  | _ => exact hjoined rfl

theorem joinInv_reachable {v : Version} {size : ℤ} {items : List α} {s : CopyState W α}
    (h : (copyMachine v W size items).Reachable s) : JoinInv s :=
  copy_invariant (fun _ => ⟨Nat.zero_le _, fun hpos => absurd hpos (by simp),
    fun i hi => absurd hi (by simp)⟩) (fun _ _ _ hi hs => hi.step hs) h

/-- What the barrier of HW5 knows. -/
structure BarrierInv (s : CopyState W α) : Prop where
  arrived_eq : s.arrived = countAt WorkerPC.isArrived s.workers + s.manager.isArrived.toNat
  manager : s.manager = .finished → W + 1 ≤ s.arrived
  workers : ∀ i, (s.workers i).isFinished = true → W + 1 ≤ s.arrived

/-- A worker moves without passing through the barrier. -/
theorem BarrierInv.of_update {s s' : CopyState W α} (h : BarrierInv s) {i : Fin W} {x : WorkerPC α}
    (hworkers : s'.workers = update s.workers i x) (harrived : s'.arrived = s.arrived)
    (hmanager : s'.manager.isArrived = s.manager.isArrived)
    (hfinished : s'.manager = .finished → s.manager = .finished)
    (hx : x.isArrived = (s.workers i).isArrived) (hxf : x.isFinished = true → W + 1 ≤ s.arrived) :
    BarrierInv s' := by
  have hupdate := countAt_update WorkerPC.isArrived s.workers i x
  have harr := h.arrived_eq
  rw [hx] at hupdate
  refine ⟨?_, fun hf => harrived ▸ h.manager (hfinished hf), ?_⟩
  · rw [harrived, hworkers, hmanager]
    omega
  · rw [harrived, hworkers]
    exact (forall_update_iff s.workers fun _ y => y.isFinished = true → _).2 ⟨hxf, fun j _ => h.workers j⟩

theorem WorkerPC.isArrived_wake (x : WorkerPC α) : x.wake.isArrived = x.isArrived := by
  cases x <;> rfl

/-- The manager moves without passing through the barrier, and may wake sleepers. -/
theorem BarrierInv.of_wake {s s' : CopyState W α} (h : BarrierInv s)
    (harrived : s'.arrived = s.arrived)
    (hworkers : ∀ i, (s'.workers i).isArrived = (s.workers i).isArrived)
    (hwf : ∀ i, (s'.workers i).isFinished = (s.workers i).isFinished)
    (hmanager : s'.manager.isArrived = s.manager.isArrived)
    (hfinished : s'.manager = .finished → W + 1 ≤ s.arrived) : BarrierInv s' := by
  refine ⟨?_, fun hf => harrived ▸ hfinished hf, fun i hi => harrived ▸ h.workers i (hwf i ▸ hi)⟩
  rw [harrived, hmanager, h.arrived_eq]
  congr 1
  exact (sumAt_congr fun i => by rw [hworkers i]).symm

theorem WorkerPC.isFinished_wake (x : WorkerPC α) : x.wake.isFinished = x.isFinished := by
  cases x <;> rfl

theorem BarrierInv.step {s s' : CopyState W α} (h : BarrierInv s) (hstep : CopyStep .hw5 s s') :
    BarrierInv s' := by
  have harr := h.arrived_eq
  cases hstep with
  | managerSleeps item rest hm hpush =>
      exact h.of_wake rfl (fun _ => rfl) (fun _ => rfl) (by rw [hm]; rfl) nofun
  | managerPushes item rest b woken workers hm hpush hsignal =>
      exact h.of_wake rfl (signal_congr WorkerPC.isArrived_wake hsignal)
        (signal_congr WorkerPC.isFinished_wake hsignal)
        (by rw [hm]; rfl) nofun
  | managerSetsDone hm =>
      exact h.of_wake rfl (broadcast_congr WorkerPC.isArrived_wake s.workers)
        (broadcast_congr WorkerPC.isFinished_wake s.workers)
        (by rw [hm]; rfl) nofun
  | managerArrives hm =>
      have hnot : s.manager.isArrived.toNat = 0 := by rw [hm]; rfl
      refine ⟨?_, nofun, fun i hi => ?_⟩
      · show s.arrived + 1 = countAt WorkerPC.isArrived s.workers + 1
        omega
      · have := h.workers i hi
        show W + 1 ≤ s.arrived + 1
        omega
  | managerLeaves hm hall =>
      exact h.of_wake rfl (fun _ => rfl) (fun _ => rfl) (by rw [hm]; rfl) fun _ => hall.ge
  | managerWakes rest hm =>
      exact h.of_wake rfl (fun _ => rfl) (fun _ => rfl) (by rw [hm]; rfl) nofun
  | workerPops i item b hi hpop =>
      exact h.of_update rfl rfl (by cases s.manager <;> rfl)
        (fun hf => by cases hm : s.manager <;> simp_all [ManagerPC.wake]) (by rw [hi]; rfl) nofun
  | workerArrives i hi =>
      have hupdate := countAt_update WorkerPC.isArrived s.workers i .waiting
      rw [hi] at hupdate
      simp only [WorkerPC.isArrived, Bool.toNat_false, Bool.toNat_true, add_zero] at hupdate
      refine ⟨?_, fun hm => ?_, ?_⟩
      · show s.arrived + 1 = countAt _ (update s.workers i .waiting) + s.manager.isArrived.toNat
        omega
      · have := h.manager hm
        show W + 1 ≤ s.arrived + 1
        omega
      · refine (forall_update_iff s.workers fun _ y => y.isFinished = true → W + 1 ≤ s.arrived + 1).2
          ⟨nofun, fun j _ hj => ?_⟩
        have := h.workers j hj
        omega
  | workerLeaves i hi hall =>
      exact h.of_update rfl rfl rfl id (by rw [hi]; rfl) fun _ => hall.ge
  | workerSleeps i hi | workerFails i hi | workerEnds i hi | workerNaps i hi | workerRetries i hi
  | workerCopies i _ hi | workerClosesSrc i _ hi | workerClosesDest i _ hi | workerWakes i hi =>
      exact h.of_update rfl rfl rfl id (by rw [hi]; rfl) nofun
  | joinsManager hm hzero => exact ⟨harr, h.manager, h.workers⟩
  | joinsWorker i hi hji => exact ⟨harr, h.manager, h.workers⟩

theorem barrierInv_reachable {size : ℤ} {items : List α} {s : CopyState W α}
    (h : (copyMachine .hw5 W size items).Reachable s) : BarrierInv s := by
  refine copy_invariant (fun memory => ⟨?_, nofun, nofun⟩) (fun _ _ _ hi hs => hi.step hs) h
  have : countAt (ι := Fin W) (WorkerPC.isArrived (α := α)) (fun _ => .popping) = 0 :=
    countAt_eq_zero.2 fun _ => rfl
  rw [this]
  rfl

/-- Behind the barrier all threads have arrived at it. -/
theorem BarrierInv.all_arrived {s : CopyState W α} (h : BarrierInv s) (hall : W + 1 ≤ s.arrived)
    (i : Fin W) : (s.workers i).isArrived = true := by
  have harr := h.arrived_eq
  have hle := Bool.toNat_le s.manager.isArrived
  refine forall_of_card_le_countAt ?_ i
  rw [Fintype.card_fin]
  omega

/-! ## Nothing is left uncopied -/

/-- Every item was popped, in order and by one worker each, and the worker that popped it has
    copied it and closed both descriptors: the histories record the steps that do so, and in the
    descriptor table both are closed then (`DescriptorInv.closed_of_allCopied`). -/
def AllCopied (items : List α) (s : CopyState W α) : Prop :=
  s.popped.map Prod.snd = items ∧ s.closed.Perm s.popped

/-- A worker that has seen a pop fail knows that every item was popped. -/
theorem FlowInv.all_popped {items : List α} {s : CopyState W α} (h : FlowInv items s)
    {i : Fin W} (hi : (s.workers i).isEnded = true) :
    s.buffer.done = true ∧ s.pushed = items ∧ s.popped.map Prod.snd = items := by
  obtain ⟨hdone, hempty⟩ := h.ended i hi
  have hrest : s.manager.rest = [] := by
    have hpast := h.done_eq
    rw [hdone] at hpast
    cases hm : s.manager <;> simp [hm, ManagerPC.isPast, ManagerPC.rest] at hpast ⊢
  have hpushed : s.pushed = items := by rw [← h.rest, hrest, List.append_nil]
  have hpopped : s.popped.map Prod.snd = s.pushed := by rw [← h.flow, hempty, List.append_nil]
  exact ⟨hdone, hpushed, hpopped.trans hpushed⟩

/-- When all workers have seen a pop fail, everything is copied. -/
theorem FlowInv.allCopied {items : List α} {s : CopyState W α} (h : FlowInv items s) (hW : 1 ≤ W)
    (hended : ∀ i, (s.workers i).isEnded = true) : AllCopied items s := by
  refine ⟨(h.all_popped (hended ⟨0, hW⟩)).2.2, ?_⟩
  have hnone : sumAt heldBy s.workers = 0 := by
    refine Finset.sum_eq_zero ?_
    intro i _
    have hi := hended i
    rw [heldBy]
    cases hpc : s.workers i <;> simp [hpc, WorkerPC.isEnded, WorkerPC.held] at hi ⊢
  have hheld := h.held
  rw [hnone, add_zero] at hheld
  exact (Multiset.coe_eq_coe.1 hheld).symm

/-- **Nothing is left uncopied.** A pop fails only when `done` is set and every item was popped; and
    when a thread is past the barrier of HW5, or `main` is past its joins, every item was popped by
    one worker and that worker has finished with it. -/
theorem copy_complete {v : Version} {size : ℤ} {items : List α} (hW : 1 ≤ W) (hsize : 1 ≤ size)
    {s : CopyState W α} (h : (copyMachine v W size items).Reachable s) :
    (∀ i s', s.workers i = .popping → (copyMachine v W size items).next s (.worker i) = some s' →
      s'.workers i = .failed → s.buffer.done = true ∧ s.manager.isPast = true ∧ s.pushed = items ∧
        s.popped.map Prod.snd = items) ∧
    (v = .hw5 → (s.manager = .finished ∨ ∃ i, s.workers i = .finished) → AllCopied items s) ∧
    (s.joined = W + 1 → AllCopied items s) := by
  have hflow := flowInv_reachable hsize h
  refine ⟨fun i s' hi hnext hfailed => ?_, ?_, fun hjoined => ?_⟩
  · -- the failed pop leaves the buffer and the histories as they are
    have hflow' := flowInv_reachable hsize (h.step hnext)
    obtain ⟨hdone', hpushed', hpopped'⟩ := hflow'.all_popped (i := i) (by rw [hfailed]; rfl)
    have hsame : s'.buffer = s.buffer ∧ s'.pushed = s.pushed ∧ s'.popped = s.popped := by
      simp only [copyMachine, workerTurn, hi] at hnext
      split at hnext <;> obtain rfl := Option.some.inj hnext
      · simp at hfailed
      · exact ⟨rfl, rfl, rfl⟩
      · simp at hfailed
    obtain ⟨hbuffer, hpushed, hpopped⟩ := hsame
    rw [hbuffer] at hdone'
    rw [hpushed] at hpushed'
    rw [hpopped] at hpopped'
    exact ⟨hdone', hflow.done_eq ▸ hdone', hpushed', hpopped'⟩
  · rintro rfl hfin
    have hbarrier := barrierInv_reachable h
    have hall : W + 1 ≤ s.arrived := by
      rcases hfin with hm | ⟨i, hi⟩
      · exact hbarrier.manager hm
      · exact hbarrier.workers i (by rw [hi]; rfl)
    refine hflow.allCopied hW ?_
    intro i
    have hi := hbarrier.all_arrived hall i
    cases hpc : s.workers i <;> simp [hpc, WorkerPC.isArrived, WorkerPC.isEnded] at hi ⊢
  · refine hflow.allCopied hW ?_
    intro i
    rw [(joinInv_reachable h).workers i (by omega)]
    rfl

/-- A whole run of HW5 with one worker and one item, to the last join. -/
theorem copy_complete_joined :
    ∃ s : CopyState 1 ℕ, (copyMachine .hw5 1 1 [7]).Reachable s ∧ s.joined = 2 ∧
      s.manager = .finished ∧ AllCopied [7] s := by
  obtain ⟨s, hs, hjoined, hm⟩ : ∃ s, (copyMachine .hw5 1 1 [7]).exec
      ⟨initBuffer (fun _ => 0) 1, .pushing [7], fun _ => .popping, 0, 0, [], [], []⟩
      [.manager none, .worker 0, .worker 0, .worker 0, .worker 0, .manager none, .worker 0,
        .worker 0, .worker 0, .manager none, .manager none, .worker 0, .join, .join] = some s ∧
      s.joined = 2 ∧ s.manager = .finished := ⟨_, rfl, rfl, rfl⟩
  have hreach : (copyMachine .hw5 1 1 [7]).Reachable s :=
    Machine.Reachable.exec _ (.init ⟨fun _ => 0, rfl⟩) hs
  exact ⟨s, hreach, hjoined, hm, (copy_complete (by decide) (by decide) hreach).2.2 hjoined⟩

end SystemProgramming.Copy
