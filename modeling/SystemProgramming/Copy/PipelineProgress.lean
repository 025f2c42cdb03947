import SystemProgramming.Copy.PipelineSafety

set_option autoImplicit false

/-! # No wake-up is lost

`buffer_push` and `buffer_pop` signal one sleeper each, and only the manager broadcasts, once, on
one of the two condition variables. `WakeInv` says why this is enough: while workers sleep, the
stored items are at most as many as the workers awake, so a full buffer has somebody to empty it. -/

namespace SystemProgramming.Copy

open Function

variable {α : Type*} {W : ℕ}

/-- Who can be asleep when. -/
structure WakeInv (s : CopyState W α) : Prop where
  /-- Nobody sleeps on `empty` after the broadcast of `buffer_set_done`. -/
  done : s.buffer.done = true → countAt WorkerPC.isAsleep s.workers = 0
  /-- Each push has woken a sleeper, as long as there was one. -/
  signalled : 0 < countAt WorkerPC.isAsleep s.workers →
    s.buffer.stored.length + countAt WorkerPC.isAsleep s.workers ≤ W
  /-- The manager sleeps on `full` only while the buffer is full. -/
  full : ∀ rest, s.manager = .asleep rest → s.buffer.capacity ≤ s.buffer.count

theorem WorkerPC.isAsleep_wake (x : WorkerPC α) : x.wake.isAsleep = false := by
  cases x <;> rfl

/-- A worker moves, and does not fall asleep. -/
theorem WakeInv.of_update {s s' : CopyState W α} (h : WakeInv s) {i : Fin W} {x : WorkerPC α}
    (hworkers : s'.workers = update s.workers i x) (hbuffer : s'.buffer = s.buffer)
    (hmanager : s'.manager = s.manager) (hx : x.isAsleep = false) : WakeInv s' := by
  have hupdate := countAt_update WorkerPC.isAsleep s.workers i x
  rw [hx, Bool.toNat_false, add_zero] at hupdate
  refine ⟨fun hdone => ?_, fun hpos => ?_, ?_⟩
  · have := h.done (hbuffer ▸ hdone)
    rw [hworkers]
    omega
  · rw [hworkers] at hpos ⊢
    have := h.signalled (by omega)
    rw [hbuffer]
    omega
  · rw [hbuffer, hmanager]
    exact h.full

/-- The manager moves, and does not fall asleep. -/
theorem WakeInv.of_manager {s s' : CopyState W α} (h : WakeInv s)
    (hworkers : s'.workers = s.workers) (hbuffer : s'.buffer = s.buffer)
    (hmanager : ∀ rest, s'.manager = .asleep rest → s.buffer.capacity ≤ s.buffer.count) :
    WakeInv s' := by
  refine ⟨?_, ?_, ?_⟩
  · rw [hworkers, hbuffer]
    exact h.done
  · rw [hworkers, hbuffer]
    exact h.signalled
  · rwa [hbuffer]

theorem WakeInv.step {v : Version} {items : List α} {s s' : CopyState W α} (h : WakeInv s)
    (hflow : FlowInv items s) (hstep : CopyStep v s s') : WakeInv s' := by
  have hstores := hflow.stores
  cases hstep with
  | managerSleeps item rest hm hpush =>
      exact h.of_manager rfl rfl fun _ _ => bufferPush_eq_none.1 hpush
  | managerPushes item rest b woken workers hm hpush hsignal =>
      obtain ⟨hstores', hdone', -⟩ := bufferPush_spec hstores hpush
      have hcount := countAt_signal WorkerPC.isAsleep_wake hsignal
      have hpast : s.buffer.done = false := by rw [hflow.done_eq, hm]; rfl
      refine ⟨fun hdone => ?_, fun hpos => ?_, nofun⟩
      · change b.done = true at hdone
        rw [hdone', hpast] at hdone
        exact absurd hdone Bool.false_ne_true
      · -- one item more, one sleeper less
        change 0 < countAt WorkerPC.isAsleep workers at hpos
        have := h.signalled (by omega)
        show b.stored.length + countAt WorkerPC.isAsleep workers ≤ W
        rw [hstores'.stored_eq, List.length_append, List.length_singleton]
        omega
  | managerSetsDone hm =>
      have hcount := countAt_broadcast WorkerPC.isAsleep_wake s.workers
      refine ⟨fun _ => hcount, fun hpos => absurd hpos (by simp [hcount]), ?_⟩
      cases v <;> exact nofun
  | managerArrives hm => exact h.of_manager rfl rfl nofun
  | managerLeaves hm hall => exact h.of_manager rfl rfl nofun
  | managerWakes rest hm => exact h.of_manager rfl rfl nofun
  | workerSleeps i hi hpop =>
      have hspec := bufferPop_spec hstores
      rw [hpop] at hspec
      obtain ⟨hempty, hdone⟩ := hspec
      refine ⟨fun hd => ?_, fun _ => ?_, h.full⟩
      · change s.buffer.done = true at hd
        rw [hdone] at hd
        exact absurd hd Bool.false_ne_true
      · -- the buffer is empty, and there are only `W` workers
        have hle := countAt_le_card WorkerPC.isAsleep (update s.workers i .asleep)
        rw [Fintype.card_fin] at hle
        simpa [hempty] using hle
  | workerPops i item b hi hpop =>
      have hspec := bufferPop_spec hstores
      rw [hpop] at hspec
      obtain ⟨rest, hcons, hstores', hdone', -⟩ := hspec
      have hupdate := countAt_update WorkerPC.isAsleep s.workers i (.copying item)
      rw [hi] at hupdate
      simp only [WorkerPC.isAsleep, Bool.toNat_false, add_zero] at hupdate
      refine ⟨fun hd => ?_, fun hpos => ?_, fun rest hm => ?_⟩
      · exact hupdate.trans (h.done (hdone' ▸ hd))
      · change 0 < countAt WorkerPC.isAsleep (update s.workers i (.copying item)) at hpos
        have := h.signalled (by omega)
        rw [hcons, List.length_cons] at this
        show b.stored.length + countAt WorkerPC.isAsleep (update s.workers i (.copying item)) ≤ W
        rw [hstores'.stored_eq]
        omega
      · -- the signal on `full` has woken the manager
        cases hs : s.manager <;> simp [hs, ManagerPC.wake] at hm
  | workerEnds i hi => exact h.of_update rfl rfl rfl (by cases v <;> rfl)
  | workerFails i hi | workerNaps i hi | workerRetries i hi | workerCopies i _ hi
  | workerClosesSrc i _ hi | workerClosesDest i _ hi | workerArrives i hi | workerLeaves i hi
  | workerWakes i hi => exact h.of_update rfl rfl rfl rfl
  | joinsManager hm hzero => exact ⟨h.done, h.signalled, h.full⟩
  | joinsWorker i hi hji => exact ⟨h.done, h.signalled, h.full⟩

theorem wakeInv_reachable {v : Version} {size : ℤ} (hsize : 1 ≤ size) {items : List α}
    {s : CopyState W α} (h : (copyMachine v W size items).Reachable s) : WakeInv s := by
  refine copy_invariant (fun memory => ?_)
    (fun _ _ hr hi hs => hi.step (flowInv_reachable hsize hr) hs) h
  have hzero : countAt (ι := Fin W) (WorkerPC.isAsleep (α := α)) (fun _ => .popping) = 0 :=
    countAt_eq_zero.2 fun _ => rfl
  exact ⟨fun _ => hzero, fun hpos => absurd hpos (by simp [hzero]), nofun⟩

/-! ## HW4 has no barrier -/

/-- The worker is about to arrive at the barrier, or waits there. -/
def WorkerPC.isAtBarrier : WorkerPC α → Bool
  | arriving | waiting => true
  | _ => false

/-- The manager is about to arrive at the barrier, or waits there. -/
def ManagerPC.isAtBarrier : ManagerPC α → Bool
  | arriving | waiting => true
  | _ => false

theorem WorkerPC.isAtBarrier_wake (x : WorkerPC α) : x.wake.isAtBarrier = x.isAtBarrier := by
  cases x <;> rfl

/-- No thread of HW4 is at a barrier. -/
def NoBarrier (s : CopyState W α) : Prop :=
  s.manager.isAtBarrier = false ∧ ∀ i, (s.workers i).isAtBarrier = false

theorem NoBarrier.step {s s' : CopyState W α} (h : NoBarrier s) (hstep : CopyStep .hw4 s s') :
    NoBarrier s' := by
  obtain ⟨hmanager, hworkers⟩ := h
  have hupdate : ∀ (i : Fin W) (x : WorkerPC α), x.isAtBarrier = false →
      ∀ j, (update s.workers i x j).isAtBarrier = false := fun i x hx =>
    (forall_update_iff s.workers fun _ y => y.isAtBarrier = false).2 ⟨hx, fun j _ => hworkers j⟩
  cases hstep with
  | managerPushes item rest b woken workers hm hpush hsignal =>
      refine ⟨rfl, fun i => ?_⟩
      rw [signal_congr WorkerPC.isAtBarrier_wake hsignal, hworkers i]
  | managerSetsDone hm =>
      refine ⟨rfl, fun i => ?_⟩
      rw [broadcast_congr WorkerPC.isAtBarrier_wake, hworkers i]
  | managerArrives hm | managerLeaves hm => simp [hm, ManagerPC.isAtBarrier] at hmanager
  | managerSleeps | managerWakes => exact ⟨rfl, hworkers⟩
  | workerPops i => exact ⟨by cases hm : s.manager <;> simp_all [ManagerPC.wake, ManagerPC.isAtBarrier],
      hupdate i _ rfl⟩
  | workerArrives i hi | workerLeaves i hi =>
      have := hworkers i
      simp [hi, WorkerPC.isAtBarrier] at this
  | workerSleeps i | workerFails i | workerEnds i | workerNaps i | workerRetries i | workerCopies i
  | workerClosesSrc i | workerClosesDest i | workerWakes i => exact ⟨hmanager, hupdate i _ rfl⟩
  | joinsManager | joinsWorker => exact ⟨hmanager, hworkers⟩

theorem noBarrier_reachable {size : ℤ} {items : List α} {s : CopyState W α}
    (h : (copyMachine .hw4 W size items).Reachable s) : NoBarrier s :=
  copy_invariant (fun _ => ⟨rfl, fun _ => rfl⟩) (fun _ _ _ hi hs => hi.step hs) h

/-! ## Progress -/

/-- The manager is asleep on `full`, or at a barrier that is short of arrivals. -/
def ManagerWaits (s : CopyState W α) : Prop :=
  (∃ rest, s.manager = .asleep rest) ∨ (s.manager = .waiting ∧ s.arrived ≠ W + 1)

/-- Worker `i` is asleep on `empty`, or at a barrier that is short of arrivals. -/
def WorkerWaits (s : CopyState W α) (i : Fin W) : Prop :=
  s.workers i = .asleep ∨ (s.workers i = .waiting ∧ s.arrived ≠ W + 1)

/-- The manager has not finished and does not wait, and it can move. -/
def ManagerMoves (v : Version) (size : ℤ) (items : List α) (s : CopyState W α) : Prop :=
  s.manager ≠ .finished ∧ ¬ ManagerWaits s ∧
    ∃ woken s', (copyMachine v W size items).next s (.manager woken) = some s'

/-- Worker `i` has not finished and does not wait, and it can move. -/
def WorkerMoves (v : Version) (size : ℤ) (items : List α) (s : CopyState W α) (i : Fin W) : Prop :=
  s.workers i ≠ .finished ∧ ¬ WorkerWaits s i ∧
    ∃ s', (copyMachine v W size items).next s (.worker i) = some s'

theorem managerMoves {v : Version} {size : ℤ} {items : List α} {s : CopyState W α}
    (hfin : s.manager ≠ .finished) (hwaits : ¬ ManagerWaits s) : ManagerMoves v size items s := by
  refine ⟨hfin, hwaits, ?_⟩
  simp only [ManagerWaits, not_or, not_exists, not_and, not_not] at hwaits
  obtain ⟨hasleep, hbarrier⟩ := hwaits
  simp only [copyMachine, managerTurn]
  cases hm : s.manager with
  | pushing todo =>
      cases todo with
      | nil => exact ⟨none, _, rfl⟩
      | cons item rest =>
          cases hpush : bufferPush s.buffer item with
          | none => simp [hpush]
          | some b =>
              obtain ⟨who, workers, hsignal⟩ :=
                exists_signal WorkerPC.isAsleep WorkerPC.wake s.workers
              exact ⟨who, by simp [hpush, hsignal]⟩
  | asleep rest => exact absurd hm (hasleep rest)
  | arriving => exact ⟨none, _, rfl⟩
  | waiting => simp [hbarrier hm]
  | finished => exact absurd hm hfin

theorem workerMoves {v : Version} {size : ℤ} {items : List α} {s : CopyState W α} {i : Fin W}
    (hfin : s.workers i ≠ .finished) (hwaits : ¬ WorkerWaits s i) :
    WorkerMoves v size items s i := by
  refine ⟨hfin, hwaits, ?_⟩
  simp only [WorkerWaits, not_or, not_and, not_not] at hwaits
  obtain ⟨hasleep, hbarrier⟩ := hwaits
  simp only [copyMachine, workerTurn]
  cases hi : s.workers i with
  | popping => cases hpop : bufferPop s.buffer <;> exact ⟨_, rfl⟩
  | failed => cases hdone : bufferIsDone s.buffer <;> exact ⟨_, rfl⟩
  | asleep => exact absurd hi hasleep
  | waiting => simp [hbarrier hi]
  | finished => exact absurd hi hfin
  | _ => exact ⟨_, rfl⟩

/-- The manager sleeps on a full buffer, so some worker is awake and has not seen a pop fail. -/
theorem worker_awake {items : List α} {s : CopyState W α} (hW : 1 ≤ W) (hflow : FlowInv items s)
    (hwake : WakeInv s) {rest : List α} (hm : s.manager = .asleep rest) :
    ∃ i, (s.workers i).isAsleep = false ∧ (s.workers i).isEnded = false := by
  have hpast : s.buffer.done = false := by rw [hflow.done_eq, hm]; rfl
  have hstores := hflow.stores
  have hroom : 0 < s.buffer.stored.length := by
    have := hwake.full rest hm
    have := hstores.count_eq
    have := hstores.capacity_pos
    omega
  by_contra hnone
  have hasleep : ∀ i, (s.workers i).isAsleep = true := by
    intro i
    by_contra hi
    refine hnone ⟨i, by simpa using hi, ?_⟩
    by_contra hended
    have := (hflow.ended i (by simpa using hended)).1
    rw [hpast] at this
    exact Bool.false_ne_true this
  have hall := countAt_eq_card hasleep
  rw [Fintype.card_fin] at hall
  have := hwake.signalled (by omega)
  omega

/-- After `buffer_set_done` only a barrier keeps a worker that has not finished from moving. -/
theorem workerMoves_of_past {v : Version} {size : ℤ} {items : List α} {s : CopyState W α}
    (hflow : FlowInv items s) (hwake : WakeInv s) (hpast : s.manager.isPast = true) {i : Fin W}
    (hfin : s.workers i ≠ .finished) (hbarrier : s.workers i = .waiting → s.arrived = W + 1) :
    WorkerMoves v size items s i := by
  refine workerMoves hfin ?_
  rintro (hi | ⟨hi, hshort⟩)
  · have hzero := hwake.done (hflow.done_eq ▸ hpast)
    have : 0 < countAt WorkerPC.isAsleep s.workers := countAt_pos_of (i := i) (by rw [hi]; rfl)
    omega
  · exact hshort (hbarrier hi)

/-- The manager waits at a barrier that is short of arrivals, so a worker has not arrived. -/
theorem worker_not_arrived {s : CopyState W α} (hbarrier : BarrierInv s)
    (hm : s.manager = .waiting) (hshort : s.arrived ≠ W + 1) :
    ∃ i, (s.workers i).isArrived = false := by
  by_contra hnone
  have hall : ∀ i, (s.workers i).isArrived = true := by simpa using hnone
  have hcount := countAt_eq_card hall
  have harr := hbarrier.arrived_eq
  rw [Fintype.card_fin] at hcount
  rw [hcount, hm] at harr
  exact hshort harr

/-- The manager has finished, so nobody waits at a barrier that is short of arrivals. -/
theorem not_short_of_finished {v : Version} {size : ℤ} {items : List α} {s : CopyState W α}
    (h : (copyMachine v W size items).Reachable s) (hm : s.manager = .finished) {i : Fin W}
    (hi : s.workers i = .waiting) : s.arrived = W + 1 := by
  cases v with
  | hw4 =>
      have := (noBarrier_reachable h).2 i
      simp [hi, WorkerPC.isAtBarrier] at this
  | hw5 =>
      have hbarrier := barrierInv_reachable h
      have harr := hbarrier.arrived_eq
      have hle := countAt_le_card WorkerPC.isArrived s.workers
      have hge := hbarrier.manager hm
      rw [hm] at harr
      rw [Fintype.card_fin] at hle
      simp only [ManagerPC.isArrived, Bool.toNat_true] at harr
      omega

/-- **No wake-up is lost.** While a thread has not finished, some thread that has not finished
    neither sleeps nor waits at a barrier short of arrivals, and can move. The manager and all
    workers are never asleep at once, and in HW5 the threads are never all at a barrier that is
    still short of arrivals. -/
theorem copy_progress {v : Version} {size : ℤ} {items : List α} (hW : 1 ≤ W) (hsize : 1 ≤ size)
    {s : CopyState W α} (h : (copyMachine v W size items).Reachable s) :
    ((s.manager ≠ .finished ∨ ∃ i, s.workers i ≠ .finished) →
      ManagerMoves v size items s ∨ ∃ i, WorkerMoves v size items s i) ∧
    ¬ ((∃ rest, s.manager = .asleep rest) ∧ ∀ i, s.workers i = .asleep) ∧
    (v = .hw5 → ¬ (s.arrived < W + 1 ∧ (s.manager = .finished ∨ s.manager = .waiting) ∧
      ∀ i, s.workers i = .finished ∨ s.workers i = .waiting)) := by
  have hflow := flowInv_reachable hsize h
  have hwake := wakeInv_reachable hsize h
  refine ⟨fun hlive => ?_, ?_, ?_⟩
  · by_cases hmoves : s.manager ≠ .finished ∧ ¬ ManagerWaits s
    · exact Or.inl (managerMoves hmoves.1 hmoves.2)
    refine Or.inr ?_
    cases hm : s.manager with
    | pushing rest => exact absurd ⟨by simp [hm], by simp [ManagerWaits, hm]⟩ hmoves
    | arriving => exact absurd ⟨by simp [hm], by simp [ManagerWaits, hm]⟩ hmoves
    | asleep rest =>
        -- the buffer is full, so that a worker is awake and has something to pop
        obtain ⟨i, hawake, hended⟩ := worker_awake hW hflow hwake hm
        refine ⟨i, workerMoves ?_ ?_⟩
        · rintro hi
          simp [hi, WorkerPC.isEnded] at hended
        · rintro (hi | ⟨hi, -⟩)
          · simp [hi, WorkerPC.isAsleep] at hawake
          · simp [hi, WorkerPC.isEnded] at hended
    | waiting =>
        -- only HW5 has a barrier
        have hshort : s.arrived ≠ W + 1 := by simpa [hm, ManagerWaits] using hmoves
        cases v with
        | hw4 =>
            have := (noBarrier_reachable h).1
            simp [hm, ManagerPC.isAtBarrier] at this
        | hw5 =>
            obtain ⟨i, hi⟩ := worker_not_arrived (barrierInv_reachable h) hm hshort
            refine ⟨i, workerMoves_of_past hflow hwake (by rw [hm]; rfl) ?_ ?_⟩
            · rintro hf
              simp [hf, WorkerPC.isArrived] at hi
            · rintro hw
              simp [hw, WorkerPC.isArrived] at hi
    | finished =>
        obtain ⟨i, hi⟩ : ∃ i, s.workers i ≠ .finished := hlive.resolve_left (absurd hm)
        exact ⟨i, workerMoves_of_past hflow hwake (by rw [hm]; rfl) hi (not_short_of_finished h hm)⟩
  · rintro ⟨⟨rest, hm⟩, hall⟩
    obtain ⟨i, hawake, -⟩ := worker_awake hW hflow hwake hm
    simp [hall i, WorkerPC.isAsleep] at hawake
  · rintro rfl ⟨hshort, hmanager, hall⟩
    have harr := (barrierInv_reachable h).arrived_eq
    have hcount : countAt WorkerPC.isArrived s.workers = Fintype.card (Fin W) :=
      countAt_eq_card fun i => by rcases hall i with hi | hi <;> rw [hi] <;> rfl
    have hone : s.manager.isArrived = true := by
      rcases hmanager with hm | hm <;> rw [hm] <;> rfl
    rw [hcount, Fintype.card_fin, hone, Bool.toNat_true] at harr
    omega

/-- A full buffer: the manager sleeps on `full`, and its first push has woken the worker. -/
theorem copy_progress_full : ∃ s : CopyState 1 ℕ, (copyMachine .hw5 1 1 [7, 8]).Reachable s ∧
    s.manager = .asleep [8] ∧
    (((s.manager ≠ .finished ∨ ∃ i, s.workers i ≠ .finished) →
      ManagerMoves .hw5 1 [7, 8] s ∨ ∃ i, WorkerMoves .hw5 1 [7, 8] s i) ∧
    ¬ ((∃ rest, s.manager = .asleep rest) ∧ ∀ i, s.workers i = .asleep) ∧
    (Version.hw5 = .hw5 → ¬ (s.arrived < 1 + 1 ∧ (s.manager = .finished ∨ s.manager = .waiting) ∧
      ∀ i, s.workers i = .finished ∨ s.workers i = .waiting))) := by
  obtain ⟨s, hs, hm⟩ : ∃ s : CopyState 1 ℕ, (copyMachine .hw5 1 1 [7, 8]).exec
      ⟨initBuffer (fun _ => 0) 1, .pushing [7, 8], fun _ => .popping, 0, 0, [], [], []⟩
      [.worker 0, .manager (some 0), .manager none] = some s ∧ s.manager = .asleep [8] :=
    ⟨_, rfl, rfl⟩
  have hreach : (copyMachine .hw5 1 1 [7, 8]).Reachable s :=
    Machine.Reachable.exec _ (.init ⟨fun _ => 0, rfl⟩) hs
  exact ⟨s, hreach, hm, copy_progress (by decide) (by decide) hreach⟩

end SystemProgramming.Copy
