import SystemProgramming.Copy.Buffer
import SystemProgramming.Lib.CondVar
import SystemProgramming.Lib.Machine
import SystemProgramming.Lib.Threads

set_option autoImplicit false

/-! # The copy pipeline

One manager pushes the files it finds, then calls `buffer_set_done`; the workers pop, copy and close
until a pop fails with `done` set; `main` joins them all. HW5 adds a barrier for the workers and the
manager, which each thread passes before it returns.

`copyMachine` interleaves these threads. A turn inside the mutex is one step, as in
`BoundedBuffer`, and so is every step outside it that another thread could see: the unlocked read of
`done`, each of the two `close` calls, the arrival at the barrier and the departure from it, each
`pthread_join`. The copy loop of a worker touches nothing shared and is one step. `CopyStep` lists
what a step can do, once and for all; every invariant is a case analysis over it. -/

namespace SystemProgramming.Copy

open Function

/-- The two homeworks: HW5 has the barrier. -/
inductive Version
  | hw4
  | hw5
deriving DecidableEq

/-- Where a worker is in `worker_function`. -/
inductive WorkerPC (α : Type*)
  /-- in `buffer_pop`, about to test its condition -/
  | popping
  /-- in `buffer_pop`, asleep on `empty` -/
  | asleep
  /-- `buffer_pop` has returned 0 -/
  | failed
  /-- in `usleep` -/
  | napping
  | copying (item : α)
  | closingSrc (item : α)
  | closingDest (item : α)
  /-- about to enter `pthread_barrier_wait` -/
  | arriving
  /-- in `pthread_barrier_wait` -/
  | waiting
  | finished

/-- Where the manager is: pushing the items that are left (`buffer_set_done` is next when there are
    none), asleep on `full`, or at the end of `manager_function`. -/
inductive ManagerPC (α : Type*)
  | pushing (rest : List α)
  | asleep (rest : List α)
  | arriving
  | waiting
  | finished

variable {α : Type*} {W : ℕ}

namespace WorkerPC

/-- The worker sleeps on the condition variable in `buffer_pop`. -/
def isAsleep : WorkerPC α → Bool
  | asleep => true
  | _ => false

/-- A sleeping worker goes back to the test of its loop. -/
def wake : WorkerPC α → WorkerPC α
  | asleep => popping
  | pc => pc

/-- The barrier has counted the thread (HW5), or the thread has returned. -/
def isArrived : WorkerPC α → Bool
  | waiting | finished => true
  | _ => false

/-- The thread has returned. -/
def isFinished : WorkerPC α → Bool
  | finished => true
  | _ => false

/-- The worker has seen a pop fail. -/
def isEnded : WorkerPC α → Bool
  | failed | arriving | waiting | finished => true
  | _ => false

/-- The item a worker has popped and not yet finished with. -/
def held : WorkerPC α → Multiset α
  | copying item | closingSrc item | closingDest item => {item}
  | _ => 0

end WorkerPC

namespace ManagerPC

/-- The signal on `full`: nobody but the manager can sleep there. -/
def wake : ManagerPC α → ManagerPC α
  | asleep rest => pushing rest
  | pc => pc

/-- The items the manager has not pushed yet. -/
def rest : ManagerPC α → List α
  | pushing rest | asleep rest => rest
  | _ => []

/-- `buffer_set_done` has been called. -/
def isPast : ManagerPC α → Bool
  | pushing _ | asleep _ => false
  | _ => true

/-- The manager has arrived at the barrier. -/
def isArrived : ManagerPC α → Bool
  | waiting | finished => true
  | _ => false

end ManagerPC

/-- The shared state, the threads, and the histories: the items of the completed pushes, and who
    popped and who finished with which item. -/
structure CopyState (W : ℕ) (α : Type*) where
  buffer : Buffer α
  manager : ManagerPC α
  workers : Fin W → WorkerPC α
  /-- the threads the barrier has counted -/
  arrived : ℕ
  /-- the joins of `main` that have returned: first the manager's, then the workers' in order -/
  joined : ℕ
  pushed : List α
  popped : List (Fin W × α)
  closed : List (Fin W × α)

/-- A step of the manager (with the worker its signal wakes), of a worker or of `main`, or a
    spurious wake-up. -/
inductive CopyMove (W : ℕ)
  | manager (woken : Option (Fin W))
  | worker (i : Fin W)
  | join
  | spuriousManager
  | spuriousWorker (i : Fin W)

/-- Where `manager_function` and `worker_function` go when their work is over. -/
def Version.lastStep {β : Type*} : Version → β → β → β
  | .hw4, _, finished => finished
  | .hw5, arriving, _ => arriving

/-- A step of the manager in `buffer_push`, in `buffer_set_done` or at the barrier; a signal wakes
    one sleeping worker, if there is one. -/
def managerTurn (v : Version) (s : CopyState W α) (woken : Option (Fin W)) :
    Option (CopyState W α) :=
  match s.manager with
  | .pushing (item :: rest) =>
      match bufferPush s.buffer item with
      | none => some { s with manager := .asleep (item :: rest) }
      | some b =>
          (signal WorkerPC.isAsleep WorkerPC.wake s.workers woken).map fun workers =>
            { s with buffer := b, manager := .pushing rest, workers := workers,
                     pushed := s.pushed ++ [item] }
  | .pushing [] =>
      some { s with
        buffer := bufferSetDone s.buffer
        workers := broadcast WorkerPC.isAsleep WorkerPC.wake s.workers
        manager := v.lastStep .arriving .finished }
  | .arriving => some { s with manager := .waiting, arrived := s.arrived + 1 }
  | .waiting => if s.arrived = W + 1 then some { s with manager := .finished } else none
  | .asleep _ | .finished => none

/-- A step of a worker in `worker_function`. -/
def workerTurn (v : Version) (s : CopyState W α) (i : Fin W) : Option (CopyState W α) :=
  match s.workers i with
  | .popping =>
      match bufferPop s.buffer with
      | .wait => some { s with workers := update s.workers i .asleep }
      | .failed => some { s with workers := update s.workers i .failed }
      | .popped item b =>
          some { s with buffer := b, manager := s.manager.wake,
                        workers := update s.workers i (.copying item),
                        popped := s.popped ++ [(i, item)] }
  | .failed =>
      if bufferIsDone s.buffer then
        some { s with workers := update s.workers i (v.lastStep .arriving .finished) }
      else some { s with workers := update s.workers i .napping }
  | .napping => some { s with workers := update s.workers i .popping }
  | .copying item => some { s with workers := update s.workers i (.closingSrc item) }
  | .closingSrc item => some { s with workers := update s.workers i (.closingDest item) }
  | .closingDest item =>
      some { s with workers := update s.workers i .popping, closed := s.closed ++ [(i, item)] }
  | .arriving =>
      some { s with workers := update s.workers i .waiting, arrived := s.arrived + 1 }
  | .waiting =>
      if s.arrived = W + 1 then some { s with workers := update s.workers i .finished } else none
  | .asleep | .finished => none

/-- The joins at the end of `main`, in its order. -/
def joinTurn (s : CopyState W α) : Option (CopyState W α) :=
  if s.joined = 0 then
    match s.manager with
    | .finished => some { s with joined := 1 }
    | _ => none
  else if h : s.joined - 1 < W then
    match s.workers ⟨s.joined - 1, h⟩ with
    | .finished => some { s with joined := s.joined + 1 }
    | _ => none
  else none

/-- The copy program with `W` workers on a buffer of the given size, when the manager finds
    `items`. -/
def copyMachine (v : Version) (W : ℕ) (size : ℤ) (items : List α) :
    Machine (CopyState W α) (CopyMove W) where
  init s := ∃ memory, s = ⟨initBuffer memory size, .pushing items, fun _ => .popping, 0, 0, [], [], []⟩
  next s
    | .manager woken => managerTurn v s woken
    | .worker i => workerTurn v s i
    | .join => joinTurn s
    | .spuriousManager =>
        match s.manager with
        | .asleep rest => some { s with manager := .pushing rest }
        | _ => none
    | .spuriousWorker i =>
        match s.workers i with
        | .asleep => some { s with workers := update s.workers i .popping }
        | _ => none

/-! ## What a step can do -/

/-- The steps of the copy program, one constructor for each way a step can go. -/
inductive CopyStep (v : Version) (s : CopyState W α) : CopyState W α → Prop
  | managerSleeps (item : α) (rest : List α) (h : s.manager = .pushing (item :: rest))
      (hpush : bufferPush s.buffer item = none) :
      CopyStep v s { s with manager := .asleep (item :: rest) }
  | managerPushes (item : α) (rest : List α) (b : Buffer α) (woken : Option (Fin W))
      (workers : Fin W → WorkerPC α) (h : s.manager = .pushing (item :: rest))
      (hpush : bufferPush s.buffer item = some b)
      (hsignal : signal WorkerPC.isAsleep WorkerPC.wake s.workers woken = some workers) :
      CopyStep v s { s with buffer := b, manager := .pushing rest, workers := workers,
                            pushed := s.pushed ++ [item] }
  | managerSetsDone (h : s.manager = .pushing []) :
      CopyStep v s { s with buffer := bufferSetDone s.buffer,
                            workers := broadcast WorkerPC.isAsleep WorkerPC.wake s.workers,
                            manager := v.lastStep .arriving .finished }
  | managerArrives (h : s.manager = .arriving) :
      CopyStep v s { s with manager := .waiting, arrived := s.arrived + 1 }
  | managerLeaves (h : s.manager = .waiting) (hall : s.arrived = W + 1) :
      CopyStep v s { s with manager := .finished }
  | managerWakes (rest : List α) (h : s.manager = .asleep rest) :
      CopyStep v s { s with manager := .pushing rest }
  | workerSleeps (i : Fin W) (h : s.workers i = .popping) (hpop : bufferPop s.buffer = .wait) :
      CopyStep v s { s with workers := update s.workers i .asleep }
  | workerFails (i : Fin W) (h : s.workers i = .popping) (hpop : bufferPop s.buffer = .failed) :
      CopyStep v s { s with workers := update s.workers i .failed }
  | workerPops (i : Fin W) (item : α) (b : Buffer α) (h : s.workers i = .popping)
      (hpop : bufferPop s.buffer = .popped item b) :
      CopyStep v s { s with buffer := b, manager := s.manager.wake,
                            workers := update s.workers i (.copying item),
                            popped := s.popped ++ [(i, item)] }
  | workerEnds (i : Fin W) (h : s.workers i = .failed) (hdone : s.buffer.done = true) :
      CopyStep v s { s with workers := update s.workers i (v.lastStep .arriving .finished) }
  | workerNaps (i : Fin W) (h : s.workers i = .failed) (hdone : s.buffer.done = false) :
      CopyStep v s { s with workers := update s.workers i .napping }
  | workerRetries (i : Fin W) (h : s.workers i = .napping) :
      CopyStep v s { s with workers := update s.workers i .popping }
  | workerCopies (i : Fin W) (item : α) (h : s.workers i = .copying item) :
      CopyStep v s { s with workers := update s.workers i (.closingSrc item) }
  | workerClosesSrc (i : Fin W) (item : α) (h : s.workers i = .closingSrc item) :
      CopyStep v s { s with workers := update s.workers i (.closingDest item) }
  | workerClosesDest (i : Fin W) (item : α) (h : s.workers i = .closingDest item) :
      CopyStep v s { s with workers := update s.workers i .popping,
                            closed := s.closed ++ [(i, item)] }
  | workerArrives (i : Fin W) (h : s.workers i = .arriving) :
      CopyStep v s { s with workers := update s.workers i .waiting, arrived := s.arrived + 1 }
  | workerLeaves (i : Fin W) (h : s.workers i = .waiting) (hall : s.arrived = W + 1) :
      CopyStep v s { s with workers := update s.workers i .finished }
  | workerWakes (i : Fin W) (h : s.workers i = .asleep) :
      CopyStep v s { s with workers := update s.workers i .popping }
  | joinsManager (h : s.manager = .finished) (hzero : s.joined = 0) :
      CopyStep v s { s with joined := 1 }
  | joinsWorker (i : Fin W) (h : s.workers i = .finished) (hi : s.joined = i.val + 1) :
      CopyStep v s { s with joined := s.joined + 1 }

theorem copyStep_of_managerTurn {v : Version} {s s' : CopyState W α} {woken : Option (Fin W)}
    (h : managerTurn v s woken = some s') : CopyStep v s s' := by
  unfold managerTurn at h
  split at h
  · next item rest hm =>
      split at h
      · next hpush =>
          obtain rfl := Option.some.inj h
          exact .managerSleeps item rest hm hpush
      · next b hpush =>
          obtain ⟨workers, hsignal, rfl⟩ := Option.map_eq_some_iff.1 h
          exact .managerPushes item rest b woken workers hm hpush hsignal
  · next hm =>
      obtain rfl := Option.some.inj h
      exact .managerSetsDone hm
  · next hm =>
      obtain rfl := Option.some.inj h
      exact .managerArrives hm
  · next hm =>
      obtain ⟨hall, h⟩ := Option.ite_none_right_eq_some.1 h
      obtain rfl := Option.some.inj h
      exact .managerLeaves hm hall
  · exact absurd h (by simp)
  · exact absurd h (by simp)

theorem copyStep_of_workerTurn {v : Version} {s s' : CopyState W α} {i : Fin W}
    (h : workerTurn v s i = some s') : CopyStep v s s' := by
  unfold workerTurn at h
  split at h
  · next hi =>
      split at h
      · next hpop =>
          obtain rfl := Option.some.inj h
          exact .workerSleeps i hi hpop
      · next hpop =>
          obtain rfl := Option.some.inj h
          exact .workerFails i hi hpop
      · next item b hpop =>
          obtain rfl := Option.some.inj h
          exact .workerPops i item b hi hpop
  · next hi =>
      split at h
      · next hdone =>
          obtain rfl := Option.some.inj h
          exact .workerEnds i hi hdone
      · next hdone =>
          obtain rfl := Option.some.inj h
          exact .workerNaps i hi (by simpa [bufferIsDone] using hdone)
  · next hi =>
      obtain rfl := Option.some.inj h
      exact .workerRetries i hi
  · next item hi =>
      obtain rfl := Option.some.inj h
      exact .workerCopies i item hi
  · next item hi =>
      obtain rfl := Option.some.inj h
      exact .workerClosesSrc i item hi
  · next item hi =>
      obtain rfl := Option.some.inj h
      exact .workerClosesDest i item hi
  · next hi =>
      obtain rfl := Option.some.inj h
      exact .workerArrives i hi
  · next hi =>
      obtain ⟨hall, h⟩ := Option.ite_none_right_eq_some.1 h
      obtain rfl := Option.some.inj h
      exact .workerLeaves i hi hall
  · exact absurd h (by simp)
  · exact absurd h (by simp)

theorem copyStep_of_joinTurn {v : Version} {s s' : CopyState W α}
    (h : joinTurn s = some s') : CopyStep v s s' := by
  unfold joinTurn at h
  split at h
  · next hzero =>
      split at h
      · next hm =>
          obtain rfl := Option.some.inj h
          exact .joinsManager hm hzero
      · exact absurd h (by simp)
  · next hpos =>
      split at h
      · next hlt =>
          split at h
          · next hi =>
              obtain rfl := Option.some.inj h
              exact .joinsWorker ⟨s.joined - 1, hlt⟩ hi (by simp only; omega)
          · exact absurd h (by simp)
      · exact absurd h (by simp)

theorem copyStep_of_next {v : Version} {size : ℤ} {items : List α} {s s' : CopyState W α}
    {a : CopyMove W} (h : (copyMachine v W size items).next s a = some s') : CopyStep v s s' := by
  cases a with
  | manager woken => exact copyStep_of_managerTurn h
  | worker i => exact copyStep_of_workerTurn h
  | join => exact copyStep_of_joinTurn h
  | spuriousManager =>
      simp only [copyMachine] at h
      split at h
      · next rest hm =>
          obtain rfl := Option.some.inj h
          exact .managerWakes rest hm
      · exact absurd h (by simp)
  | spuriousWorker i =>
      simp only [copyMachine] at h
      split at h
      · next hi =>
          obtain rfl := Option.some.inj h
          exact .workerWakes i hi
      · exact absurd h (by simp)

/-- An invariant of the copy program holds at the start and is kept by each way a step can go. -/
theorem copy_invariant {v : Version} {size : ℤ} {items : List α} {I : CopyState W α → Prop}
    (hinit : ∀ memory,
      I ⟨initBuffer memory size, .pushing items, fun _ => .popping, 0, 0, [], [], []⟩)
    (hstep : ∀ s s', (copyMachine v W size items).Reachable s → I s → CopyStep v s s' → I s')
    {s : CopyState W α} (h : (copyMachine v W size items).Reachable s) : I s := by
  refine h.invariant ?_ fun s a s' hs hi hn => hstep s s' hs hi (copyStep_of_next hn)
  rintro s ⟨memory, rfl⟩
  exact hinit memory

end SystemProgramming.Copy
