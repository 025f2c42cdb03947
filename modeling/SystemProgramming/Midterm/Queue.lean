import SystemProgramming.Lib.Ring

set_option autoImplicit false

/-! # The client queue of `structs.c`

A growing ring of pointers to clients. The queue owns what its pointers point to (`enqueue` copies
the client, `dequeue` hands the copy over), so that a slot is modelled by what it points to. The
results of `malloc` are arguments: `none` is `NULL`, a fresh array holds anything.

`Holds q xs` says that the queue is well formed and holds the list `xs`, oldest client first; the
specifications of the operations are about that list. -/

namespace SystemProgramming.Server

open Function

variable {α : Type*}

/-- A pointer in the array of a queue. -/
inductive Slot (α : Type*)
  | null
  /-- a client the queue has allocated -/
  | client (item : α)
  /-- whatever `malloc` left there -/
  | junk

/-- `struct Queue`. -/
structure Queue (α : Type*) where
  front : ℕ
  rear : ℕ
  capacity : ℕ
  size : ℕ
  elements : ℕ → Slot α

/-- `queue_constructor`; the array pointer is `NULL`, there is no slot. -/
def queueConstructor : Queue α :=
  { front := 0, rear := 0, capacity := 0, size := 0, elements := fun _ => .null }

/-- `dequeue`: the pointer it returns and the queue it leaves. -/
def dequeue (que : Queue α) : Slot α × Queue α :=
  if que.size = 0 then (.null, que)
  else (que.elements que.front, { que with
    elements := update que.elements que.front .null
    front := if que.front = que.capacity - 1 then 0 else que.front + 1
    size := que.size - 1 })

/-- `resize_queue`; `none` is the return value -1. -/
def resizeQueue (que : Queue α) (newElements : Option (ℕ → Slot α)) : Option (Queue α) :=
  newElements.map fun memory => { que with
    elements := fun i =>
      if i < que.size then que.elements ((que.front + i) % que.capacity) else memory i
    capacity := if que.capacity = 0 then 1 else 2 * que.capacity
    front := 0
    rear := que.size }

/-- `enqueue`, with the results of the two calls of `malloc`: whether it returns 0, and the queue it
    leaves. -/
def enqueue (que : Queue α) (item : α) (newElements : Option (ℕ → Slot α)) (newClient : Bool) :
    Bool × Queue α :=
  match if que.size = que.capacity then resizeQueue que newElements else some que with
  | none => (false, que)
  | some que =>
      if newClient then (true, { que with
        elements := update que.elements que.rear (.client item)
        rear := if que.rear = que.capacity - 1 then 0 else que.rear + 1
        size := que.size + 1 })
      else (false, { que with elements := update que.elements que.rear .null })

/-! ## The queue as a list -/

/-- A well-formed queue that holds the list `xs`. -/
structure Holds (que : Queue α) (xs : List α) : Prop where
  size_eq : que.size = xs.length
  size_le : que.size ≤ que.capacity
  front_lt : 0 < que.capacity → que.front < que.capacity
  rear_eq : 0 < que.capacity → que.rear = (que.front + que.size) % que.capacity
  window : ringWindow que.capacity que.elements que.front que.size = xs.map .client

theorem queueConstructor_holds : Holds (queueConstructor : Queue α) [] :=
  ⟨rfl, le_refl 0, fun h => absurd h (lt_irrefl 0), fun h => absurd h (lt_irrefl 0), rfl⟩

/-- The next index of a ring, as the code computes it. -/
theorem wrap_succ {i cap : ℕ} (h : i < cap) :
    (if i = cap - 1 then 0 else i + 1) = (i + 1) % cap := by
  split
  · next hlast =>
      rw [show i + 1 = cap by omega, Nat.mod_self]
  · next hlast =>
      rw [Nat.mod_eq_of_lt (by omega)]

/-- Without its oldest client, the queue holds the rest. -/
theorem holds_rest {que : Queue α} {x : α} {rest : List α} (h : Holds que (x :: rest)) :
    que.elements que.front = .client x ∧ Holds { que with
      elements := update que.elements que.front .null
      front := if que.front = que.capacity - 1 then 0 else que.front + 1
      size := que.size - 1 } rest := by
  obtain ⟨hsize, hle, hfront, hrear, hwindow⟩ := h
  rw [List.length_cons] at hsize
  have hcap : 0 < que.capacity := by omega
  have hlt := hfront hcap
  rw [hsize, ringWindow_pop, Nat.mod_eq_of_lt hlt, List.map_cons] at hwindow
  obtain ⟨hx, hrest⟩ := List.cons.inj hwindow
  rw [wrap_succ hlt]
  refine ⟨hx, ?_, ?_, fun _ => Nat.mod_lt _ hcap, fun _ => ?_, ?_⟩
  · show que.size - 1 = rest.length
    omega
  · show que.size - 1 ≤ que.capacity
    omega
  · show que.rear = ((que.front + 1) % que.capacity + (que.size - 1)) % que.capacity
    rw [hrear hcap, Nat.mod_add_mod]
    congr 1
    omega
  · -- the slot that is set to `NULL` is the one behind the window
    have hcell : ((que.front + 1) % que.capacity + (que.capacity - 1)) % que.capacity
        = que.front := by
      rw [Nat.mod_add_mod, show que.front + 1 + (que.capacity - 1) = que.front + que.capacity by
        omega, Nat.add_mod_right, Nat.mod_eq_of_lt hlt]
    have hkeep : ringWindow que.capacity (update que.elements
        (((que.front + 1) % que.capacity + (que.capacity - 1)) % que.capacity) .null)
        ((que.front + 1) % que.capacity) rest.length = rest.map .client :=
      (ringWindow_update que.elements (by omega) (by omega) .null).trans hrest
    rw [hcell] at hkeep
    show ringWindow que.capacity (update que.elements que.front .null) _ (que.size - 1) = _
    rw [show que.size - 1 = rest.length by omega, hkeep]

/-- `dequeue` returns `NULL` exactly on the empty queue and the oldest client otherwise. -/
theorem dequeue_spec {que : Queue α} {xs : List α} (h : Holds que xs) :
    match xs with
    | [] => dequeue que = (.null, que)
    | x :: rest => ∃ que', dequeue que = (.client x, que') ∧ Holds que' rest := by
  cases xs with
  | nil => exact if_pos h.size_eq
  | cons x rest =>
      obtain ⟨hx, hrest⟩ := holds_rest h
      have hsize := h.size_eq
      rw [List.length_cons] at hsize
      refine ⟨_, ?_, hrest⟩
      rw [dequeue, if_neg (by omega), hx]

/-- `resize_queue` keeps the list and makes room. -/
theorem resizeQueue_spec {que que' : Queue α} {xs : List α} {newElements : Option (ℕ → Slot α)}
    (h : Holds que xs) (hr : resizeQueue que newElements = some que') :
    Holds que' xs ∧ que'.size < que'.capacity := by
  obtain ⟨hsize, hle, hfront, hrear, hwindow⟩ := h
  obtain ⟨memory, -, rfl⟩ := Option.map_eq_some_iff.1 hr
  have hroom : que.size < if que.capacity = 0 then 1 else 2 * que.capacity := by
    split <;> omega
  refine ⟨⟨hsize, hroom.le, fun hcap => hcap, fun _ => ?_, ?_⟩, hroom⟩
  · show que.size = (0 + que.size) % _
    rw [Nat.zero_add, Nat.mod_eq_of_lt hroom]
  · rw [← hwindow]
    refine List.map_congr_left ?_
    intro k hk
    have hk := List.mem_range.1 hk
    change k < que.size at hk
    simp only [Nat.zero_add]
    rw [Nat.mod_eq_of_lt (hk.trans hroom), if_pos hk]

/-- With room in the array, the client goes behind the window. -/
theorem holds_append {que : Queue α} {xs : List α} (h : Holds que xs)
    (hroom : que.size < que.capacity) (item : α) :
    Holds { que with
      elements := update que.elements que.rear (.client item)
      rear := if que.rear = que.capacity - 1 then 0 else que.rear + 1
      size := que.size + 1 } (xs ++ [item]) := by
  obtain ⟨hsize, hle, hfront, hrear, hwindow⟩ := h
  have hcap : 0 < que.capacity := by omega
  have hrear := hrear hcap
  have hlt : que.rear < que.capacity := by
    rw [hrear]
    exact Nat.mod_lt _ hcap
  refine ⟨?_, hroom, hfront, fun _ => ?_, ?_⟩
  · rw [List.length_append, List.length_singleton, ← hsize]
  · show (if que.rear = que.capacity - 1 then 0 else que.rear + 1) = (que.front + (que.size + 1)) % _
    rw [wrap_succ hlt, hrear, Nat.mod_add_mod, Nat.add_assoc]
  · show ringWindow que.capacity (update que.elements que.rear (.client item)) que.front
      (que.size + 1) = _
    rw [hrear, ringWindow_push _ _ hroom, hwindow, List.map_append]
    rfl

/-- A failed allocation of the client leaves the list alone. -/
theorem holds_failed {que : Queue α} {xs : List α} (h : Holds que xs)
    (hroom : que.size < que.capacity) :
    Holds { que with elements := update que.elements que.rear .null } xs := by
  obtain ⟨hsize, hle, hfront, hrear, hwindow⟩ := h
  refine ⟨hsize, hle, hfront, hrear, ?_⟩
  show ringWindow que.capacity (update que.elements que.rear .null) que.front que.size = _
  rw [hrear (by omega), ringWindow_update _ hroom le_rfl, hwindow]

/-- The queue that `enqueue` stores into, grown or not, has room for one more. -/
theorem grown_holds {que que' : Queue α} {xs : List α} {newElements : Option (ℕ → Slot α)}
    (h : Holds que xs)
    (hque : (if que.size = que.capacity then resizeQueue que newElements else some que)
      = some que') :
    Holds que' xs ∧ que'.size < que'.capacity := by
  split at hque
  · exact resizeQueue_spec h hque
  · next hne =>
      obtain rfl := Option.some.inj hque
      exact ⟨h, lt_of_le_of_ne h.size_le hne⟩

/-- `enqueue` appends the client when it returns 0 and keeps the list otherwise. -/
theorem enqueue_spec {que : Queue α} {xs : List α} (h : Holds que xs) (item : α)
    (newElements : Option (ℕ → Slot α)) (newClient : Bool) :
    Holds (enqueue que item newElements newClient).2
      (if (enqueue que item newElements newClient).1 then xs ++ [item] else xs) := by
  unfold enqueue
  split
  · exact h
  · next que' hque =>
      have hroom := grown_holds h hque
      cases newClient with
      | true => exact holds_append hroom.1 hroom.2 item
      | false => exact holds_failed hroom.1 hroom.2

/-- When `malloc` succeeds, so does `enqueue`. -/
theorem enqueue_succeeds (que : Queue α) (item : α) (memory : ℕ → Slot α) :
    (enqueue que item (some memory) true).1 = true := by
  unfold enqueue
  split
  · next hnone =>
      split at hnone <;> simp [resizeQueue] at hnone
  · rfl

end SystemProgramming.Server
