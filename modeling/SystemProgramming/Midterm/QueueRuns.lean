import SystemProgramming.Midterm.Queue
import SystemProgramming.Lib.Object

set_option autoImplicit false

/-! # Sequences of calls on the client queue

Every sequence of `enqueue` and `dequeue` calls on a new queue, whatever `malloc` answers, is a
sequence of operations on a list, and no call ever reads or writes outside the array or takes a
remainder by zero: `callChecked` is the same call with these tests made explicit, and the tests
never fail.

The slots outside the live part of the ring are another matter. `dequeue` and a failed `enqueue`
leave `NULL` there, but `resize_queue` leaves whatever `malloc` returned, and `queue_destructor`
walks the whole array. -/

namespace SystemProgramming.Server

open Function

variable {α : Type*}

/-- A call, with the results of `malloc` that it meets. -/
inductive QueueOp (α : Type*)
  | enqueue (item : α) (newElements : Option (ℕ → Slot α)) (newClient : Bool)
  | dequeue

/-- What a call returns: whether `enqueue` returned 0, the pointer `dequeue` returned. -/
inductive QueueResult (α : Type*)
  | stored (done : Bool)
  | removed (item : Slot α)

/-- A call on the queue. -/
def Queue.call (que : Queue α) : QueueOp α → QueueResult α × Queue α
  | .enqueue item newElements newClient =>
      (.stored (enqueue que item newElements newClient).1,
        (enqueue que item newElements newClient).2)
  | .dequeue => (.removed (dequeue que).1, (dequeue que).2)

/-- The queue after a sequence of calls on a new one. -/
def afterCalls (ops : List (QueueOp α)) : Queue α :=
  (runCalls Queue.call queueConstructor ops).2

/-! ## The list -/

/-- What a queue is for: `enqueue` appends, and fails only when `malloc` does; `dequeue` takes the
    oldest client. -/
inductive ListStep : List α → QueueOp α → QueueResult α → List α → Prop
  | stored (xs : List α) (item : α) (newElements : Option (ℕ → Slot α)) (newClient : Bool) :
      ListStep xs (.enqueue item newElements newClient) (.stored true) (xs ++ [item])
  | failed (xs : List α) (item : α) {newElements : Option (ℕ → Slot α)} {newClient : Bool}
      (h : newElements = none ∨ newClient = false) :
      ListStep xs (.enqueue item newElements newClient) (.stored false) xs
  | empty : ListStep [] .dequeue (.removed .null) []
  | oldest (x : α) (xs : List α) : ListStep (x :: xs) .dequeue (.removed (.client x)) xs

/-- One call of a well-formed queue is a step of the list it holds. -/
theorem call_listStep (que : Queue α) (xs : List α) (op : QueueOp α) (h : Holds que xs) :
    ∃ xs', ListStep xs op (que.call op).1 xs' ∧ Holds (que.call op).2 xs' := by
  cases op with
  | enqueue item newElements newClient =>
      have hspec := enqueue_spec h item newElements newClient
      refine ⟨_, ?_, hspec⟩
      show ListStep xs _ (.stored (enqueue que item newElements newClient).1) _
      cases hdone : (enqueue que item newElements newClient).1 with
      | true => exact .stored xs item newElements newClient
      | false =>
          refine .failed xs item ?_
          cases newElements with
          | none => exact .inl rfl
          | some memory =>
              cases newClient with
              | true =>
                  rw [enqueue_succeeds] at hdone
                  cases hdone
              | false => exact .inr rfl
  | dequeue =>
      cases xs with
      | nil =>
          have hempty : dequeue que = (.null, que) := dequeue_spec h
          refine ⟨[], ?_, ?_⟩
          · show ListStep [] .dequeue (.removed (dequeue que).1) []
            rw [hempty]
            exact .empty
          · show Holds (dequeue que).2 []
            rw [hempty]
            exact h
      | cons x rest =>
          obtain ⟨que', hque', hrest⟩ := dequeue_spec h
          refine ⟨rest, ?_, ?_⟩
          · show ListStep (x :: rest) .dequeue (.removed (dequeue que).1) rest
            rw [hque']
            exact .oldest x rest
          · show Holds (dequeue que).2 rest
            rw [hque']
            exact hrest

/-- Every call keeps a queue well formed. -/
theorem call_holds (que : Queue α) (op : QueueOp α) (h : ∃ xs, Holds que xs) :
    ∃ xs, Holds (que.call op).2 xs := by
  obtain ⟨xs, hxs⟩ := h
  obtain ⟨xs', -, hxs'⟩ := call_listStep que xs op hxs
  exact ⟨xs', hxs'⟩

/-! ## The accesses to the array -/

/-- `elements[i]`, which has no meaning outside the array. -/
def Queue.slotAt (que : Queue α) (i : ℕ) : Option (Slot α) :=
  if i < que.capacity then some (que.elements i) else none

/-- `elements[i] = slot`. -/
def Queue.setSlot (que : Queue α) (i : ℕ) (slot : Slot α) : Option (Queue α) :=
  if i < que.capacity then some { que with elements := update que.elements i slot } else none

/-- `a % b`, which has no meaning for `b = 0`. -/
def checkedMod (a b : ℕ) : Option ℕ :=
  if b = 0 then none else some (a % b)

/-- `dequeue` with its accesses tested. -/
def dequeueChecked (que : Queue α) : Option (Slot α × Queue α) :=
  if que.size = 0 then some (.null, que)
  else do
    let item ← que.slotAt que.front
    let que ← que.setSlot que.front .null
    some (item, { que with
      front := if que.front = que.capacity - 1 then 0 else que.front + 1
      size := que.size - 1 })

/-- The copying loop of `resize_queue` from index `i` on, with `left` iterations to go. -/
def copyElements (que : Queue α) (newCapa : ℕ) : ℕ → ℕ → (ℕ → Slot α) → Option (ℕ → Slot α)
  | 0, _, newElements => some newElements
  | left + 1, i, newElements =>
      (checkedMod (que.front + i) que.capacity).bind fun j => (que.slotAt j).bind fun slot =>
        if i < newCapa then copyElements que newCapa left (i + 1) (update newElements i slot)
        else none

/-- `resize_queue` with its loop and its accesses tested; the inner `none` is the return value -1.
    -/
def resizeQueueChecked (que : Queue α) (newElements : Option (ℕ → Slot α)) :
    Option (Option (Queue α)) :=
  match newElements with
  | none => some none
  | some memory =>
      (copyElements que (if que.capacity = 0 then 1 else 2 * que.capacity) que.size 0 memory).map
        fun elements => some { que with
          elements := elements
          capacity := if que.capacity = 0 then 1 else 2 * que.capacity
          front := 0
          rear := que.size }

/-- `enqueue` with its accesses tested. -/
def enqueueChecked (que : Queue α) (item : α) (newElements : Option (ℕ → Slot α))
    (newClient : Bool) : Option (Bool × Queue α) :=
  (if que.size = que.capacity then resizeQueueChecked que newElements
    else some (some que)).bind fun grown =>
  match grown with
  | none => some (false, que)
  | some que =>
      if newClient then (que.setSlot que.rear (.client item)).map fun que => (true, { que with
        rear := if que.rear = que.capacity - 1 then 0 else que.rear + 1
        size := que.size + 1 })
      else (que.setSlot que.rear .null).map fun que => (false, que)

/-- A call on the queue, if all its accesses are inside the array. -/
def Queue.callChecked (que : Queue α) : QueueOp α → Option (QueueResult α × Queue α)
  | .enqueue item newElements newClient =>
      (enqueueChecked que item newElements newClient).map fun r => (.stored r.1, r.2)
  | .dequeue => (dequeueChecked que).map fun r => (.removed r.1, r.2)

theorem setSlot_of_lt {que : Queue α} {i : ℕ} (h : i < que.capacity) (slot : Slot α) :
    que.setSlot i slot = some { que with elements := update que.elements i slot } := if_pos h

theorem dequeueChecked_eq {que : Queue α} {xs : List α} (h : Holds que xs) :
    dequeueChecked que = some (dequeue que) := by
  unfold dequeueChecked dequeue
  split
  · rfl
  · next hsize =>
      have hfront := h.front_lt (by have := h.size_le; omega)
      rw [Queue.slotAt, if_pos hfront, setSlot_of_lt hfront]
      rfl

/-- The loop copies the live part and leaves the rest of the new memory as it is. -/
theorem copyElements_eq {que : Queue α} {newCapa : ℕ} (hcap : 0 < que.capacity) (left i : ℕ)
    (hroom : i + left ≤ newCapa) (newElements : ℕ → Slot α) :
    copyElements que newCapa left i newElements = some fun k =>
      if i ≤ k ∧ k < i + left then que.elements ((que.front + k) % que.capacity)
      else newElements k := by
  induction left generalizing i newElements with
  | zero =>
      rw [copyElements, Option.some_inj]
      funext k
      rw [if_neg (by omega)]
  | succ left ih =>
      have hmod : checkedMod (que.front + i) que.capacity
          = some ((que.front + i) % que.capacity) := if_neg (by omega)
      have hslot : que.slotAt ((que.front + i) % que.capacity)
          = some (que.elements ((que.front + i) % que.capacity)) := if_pos (Nat.mod_lt _ hcap)
      rw [copyElements, hmod, Option.bind_some, hslot, Option.bind_some, if_pos (by omega),
        ih (i + 1) (by omega), Option.some_inj]
      funext k
      by_cases hk : k = i
      · rw [hk, if_neg (by omega), if_pos (by omega), update_self]
      · rw [update_of_ne hk]
        refine if_congr ?_ rfl rfl
        omega

theorem resizeQueueChecked_eq {que : Queue α} {xs : List α} (h : Holds que xs)
    (newElements : Option (ℕ → Slot α)) :
    resizeQueueChecked que newElements = some (resizeQueue que newElements) := by
  cases newElements with
  | none => rfl
  | some memory =>
      have hloop : copyElements que (if que.capacity = 0 then 1 else 2 * que.capacity) que.size 0
          memory = some fun i =>
            if i < que.size then que.elements ((que.front + i) % que.capacity) else memory i := by
        have hle := h.size_le
        cases hcap : que.capacity with
        | zero =>
            -- an array without slots: the loop does not run
            have hsize : que.size = 0 := by omega
            rw [hsize, copyElements, Option.some_inj]
            funext i
            rw [if_neg (by omega)]
        | succ cap =>
            rw [← hcap, copyElements_eq (by omega) que.size 0 (by split <;> omega),
              Option.some_inj]
            funext i
            refine if_congr ?_ rfl rfl
            omega
      unfold resizeQueueChecked
      simp only
      rw [hloop]
      rfl

theorem enqueueChecked_eq {que : Queue α} {xs : List α} (h : Holds que xs) (item : α)
    (newElements : Option (ℕ → Slot α)) (newClient : Bool) :
    enqueueChecked que item newElements newClient
      = some (enqueue que item newElements newClient) := by
  have hgrown : (if que.size = que.capacity then resizeQueueChecked que newElements
      else some (some que))
      = some (if que.size = que.capacity then resizeQueue que newElements else some que) := by
    split
    · exact resizeQueueChecked_eq h newElements
    · rfl
  unfold enqueueChecked enqueue
  rw [hgrown, Option.bind_some]
  cases hque : (if que.size = que.capacity then resizeQueue que newElements else some que) with
  | none => rfl
  | some que' =>
      obtain ⟨hholds, hroom⟩ := grown_holds h hque
      have hrear : que'.rear < que'.capacity := by
        rw [hholds.rear_eq (by omega)]
        exact Nat.mod_lt _ (by omega)
      simp only [setSlot_of_lt hrear]
      cases newClient <;> rfl

theorem callChecked_eq {que : Queue α} {xs : List α} (h : Holds que xs) (op : QueueOp α) :
    que.callChecked op = some (que.call op) := by
  cases op with
  | enqueue item newElements newClient =>
      rw [Queue.callChecked, enqueueChecked_eq h]
      rfl
  | dequeue =>
      rw [Queue.callChecked, dequeueChecked_eq h]
      rfl

/-- A call adds at most one client, and the array grows to twice the clients that are queued. -/
theorem call_capacity (que : Queue α) (op : QueueOp α) :
    (que.call op).2.size ≤ que.size + 1 ∧
      ((que.call op).2.capacity = que.capacity ∨ (que.call op).2.capacity ≤ 2 * que.size + 1) := by
  cases op with
  | dequeue =>
      simp only [Queue.call, dequeue]
      split
      · exact ⟨Nat.le_succ _, .inl rfl⟩
      · exact ⟨by dsimp only; omega, .inl rfl⟩
  | enqueue item newElements newClient =>
      simp only [Queue.call, enqueue]
      by_cases hfull : que.size = que.capacity
      · rw [if_pos hfull]
        cases newElements with
        | none => exact ⟨Nat.le_succ _, .inl rfl⟩
        | some memory =>
            have hgrown : (if que.capacity = 0 then 1 else 2 * que.capacity) ≤ 2 * que.size + 1 := by
              split <;> omega
            cases newClient with
            | true => exact ⟨Nat.le_refl _, .inr hgrown⟩
            | false => exact ⟨Nat.le_succ _, .inr hgrown⟩
      · rw [if_neg hfull]
        cases newClient with
        | true => exact ⟨Nat.le_refl _, .inl rfl⟩
        | false => exact ⟨Nat.le_succ _, .inl rfl⟩

/-- The capacity stays below twice the number of calls. -/
theorem capacity_le (ops : List (QueueOp α)) :
    (afterCalls ops).size ≤ ops.length ∧ (afterCalls ops).capacity ≤ 2 * ops.length := by
  induction ops using List.reverseRecOn with
  | nil => exact ⟨Nat.le_refl _, Nat.le_refl _⟩
  | append_singleton ops op ih =>
      have hlast : afterCalls (ops ++ [op]) = ((afterCalls ops).call op).2 := by
        rw [afterCalls, runCalls_append]
        rfl
      have hcall := call_capacity (afterCalls ops) op
      rw [hlast, List.length_append, List.length_singleton]
      omega

/-- **The client queue is a FIFO list.** Whatever sequence of `enqueue` and `dequeue` calls is made
    on a new queue and whatever `malloc` answers, the results are those of a list; the queue is well
    formed in the end, its indices are in the array, and no further call reads or writes outside the
    array or takes a remainder by zero. -/
theorem queue_refines_list (ops : List (QueueOp α)) :
    ∃ xs, SpecRun ListStep [] ops (runCalls Queue.call queueConstructor ops).1 xs ∧
      ringWindow (afterCalls ops).capacity (afterCalls ops).elements (afterCalls ops).front
        (afterCalls ops).size = xs.map .client ∧
      (afterCalls ops).size ≤ (afterCalls ops).capacity ∧
      (0 < (afterCalls ops).capacity →
        (afterCalls ops).front < (afterCalls ops).capacity ∧
        (afterCalls ops).rear < (afterCalls ops).capacity ∧
        (afterCalls ops).rear
          = ((afterCalls ops).front + (afterCalls ops).size) % (afterCalls ops).capacity) ∧
      ∀ op, (afterCalls ops).callChecked op = some ((afterCalls ops).call op) := by
  obtain ⟨xs, hrun, hholds⟩ := runCalls_refines call_listStep queueConstructor_holds ops
  refine ⟨xs, hrun, hholds.window, hholds.size_le, fun hcap => ⟨hholds.front_lt hcap, ?_,
    hholds.rear_eq hcap⟩, fun op => callChecked_eq hholds op⟩
  show (runCalls Queue.call queueConstructor ops).2.rear < _
  rw [hholds.rear_eq hcap]
  exact Nat.mod_lt _ hcap

end SystemProgramming.Server
