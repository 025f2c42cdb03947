import SystemProgramming.Midterm.QueueRuns

set_option autoImplicit false

/-! # The slots that `queue_destructor` frees

`queue_destructor` frees whatever it finds in the array, up to the capacity and not up to the
size. It frees exactly the queued clients as long as every slot behind the live part of the ring is
`NULL`: `dequeue` sets the slot it vacates to `NULL` for that, and the test of the destructor relies
on it. Only `resize_queue` breaks it, which takes the upper half of the new array as
`malloc` returns it. -/

namespace SystemProgramming.Server

open Function

variable {α : Type*}

/-- The slot is `NULL`. -/
def Slot.isNull : Slot α → Bool
  | .null => true
  | _ => false

theorem Slot.isNull_iff {slot : Slot α} : slot.isNull = true ↔ slot = .null := by
  cases slot <;> simp [Slot.isNull]

/-- `queue_destructor`: the pointers it gives to `free`, besides the array itself. Without an array
    the capacity is 0. -/
def queueDestructor (que : Queue α) : List (Slot α) :=
  ((List.range que.capacity).map que.elements).filter fun slot => !slot.isNull

/-- A queue that can be destroyed: a slot is `NULL` or holds a queued client, and the destructor
    frees each queued client once and nothing else. -/
def Safe (que : Queue α) : Prop :=
  ∃ xs, Holds que xs ∧
    (∀ i < que.capacity, que.elements i = .null ∨ ∃ x ∈ xs, que.elements i = .client x) ∧
    (queueDestructor que).Perm (xs.map .client)

/-- The slots behind the live part of the ring are `NULL`. -/
def Vacant (que : Queue α) : Prop :=
  ∀ k, que.size ≤ k → k < que.capacity →
    que.elements ((que.front + k) % que.capacity) = .null

/-- The pointers of the whole array are those of the live part and those behind it. -/
theorem queueDestructor_perm {que : Queue α} {xs : List α} (h : Holds que xs) :
    (queueDestructor que).Perm (xs.map .client ++
      (ringWindow que.capacity que.elements (que.front + que.size)
        (que.capacity - que.size)).filter fun slot => !slot.isNull) := by
  have hslots : ((List.range que.capacity).map que.elements).Perm
      (ringWindow que.capacity que.elements que.front que.capacity) := by
    cases hcap : que.capacity with
    | zero => exact List.Perm.refl _
    | succ cap => exact (ringWindow_perm (Nat.succ_pos cap) _ _).symm
  have hsplit : ringWindow que.capacity que.elements que.front que.capacity
      = xs.map .client ++ ringWindow que.capacity que.elements (que.front + que.size)
        (que.capacity - que.size) := by
    have happend := ringWindow_append que.capacity que.elements que.front que.size
      (que.capacity - que.size)
    rwa [Nat.add_sub_cancel' h.size_le, h.window] at happend
  have hclients : (xs.map Slot.client).filter (fun slot => !slot.isNull) = xs.map .client := by
    refine List.filter_eq_self.2 ?_
    intro slot hslot
    obtain ⟨x, -, rfl⟩ := List.mem_map.1 hslot
    rfl
  have hfilter := hslots.filter fun slot => !slot.isNull
  rwa [hsplit, List.filter_append, hclients] at hfilter

/-- A well-formed queue is safe exactly when the slots behind its live part are `NULL`. -/
theorem safe_iff_vacant {que : Queue α} {xs : List α} (h : Holds que xs) :
    Safe que ↔ Vacant que := by
  constructor
  · rintro ⟨ys, hys, -, hperm⟩ k hk hcap
    have hlen := ((queueDestructor_perm hys).symm.trans hperm).length_eq
    rw [List.length_append, Nat.add_eq_left, List.length_eq_zero_iff, List.filter_eq_nil_iff] at hlen
    have hmem : que.elements ((que.front + k) % que.capacity) ∈
        ringWindow que.capacity que.elements (que.front + que.size)
          (que.capacity - que.size) := by
      refine List.mem_map.2 ⟨k - que.size, List.mem_range.2 (by omega), ?_⟩
      rw [show que.front + que.size + (k - que.size) = que.front + k by omega]
    have hnull := hlen _ hmem
    rw [Bool.not_eq_true', Bool.not_eq_false, Slot.isNull_iff] at hnull
    exact hnull
  · intro hvacant
    have hnil : (ringWindow que.capacity que.elements (que.front + que.size)
        (que.capacity - que.size)).filter (fun slot => !slot.isNull) = [] := by
      refine List.filter_eq_nil_iff.2 ?_
      intro slot hslot
      obtain ⟨k, hk, rfl⟩ := List.mem_map.1 hslot
      have hk := List.mem_range.1 hk
      rw [Nat.add_assoc, hvacant (que.size + k) (by omega) (by omega)]
      simp [Slot.isNull]
    have hperm := queueDestructor_perm h
    rw [hnil, List.append_nil] at hperm
    refine ⟨xs, h, fun i hi => ?_, hperm⟩
    by_cases hnull : que.elements i = .null
    · exact .inl hnull
    · right
      have hmem : que.elements i ∈ queueDestructor que := by
        refine List.mem_filter.2 ⟨List.mem_map_of_mem (List.mem_range.2 hi), ?_⟩
        rw [Bool.not_eq_true', ← Bool.not_eq_true, Slot.isNull_iff]
        exact hnull
      obtain ⟨x, hx, heq⟩ := List.mem_map.1 (hperm.subset hmem)
      exact ⟨x, hx, heq.symm⟩

/-! ## What one call does to the vacant slots -/

/-- The condition on a call: if it makes the array grow, the memory `malloc` returned is `NULL` in
    every slot above the one that takes the new client. -/
def GrowsClean (que : Queue α) : QueueOp α → Prop
  | .enqueue _ (some memory) _ => que.size = que.capacity →
      ∀ i, que.size < i → i < (if que.capacity = 0 then 1 else 2 * que.capacity) →
        memory i = .null
  | _ => True

/-- The slot that `dequeue` vacates is the last one behind the live part. -/
theorem dequeue_vacant {que : Queue α} (hfront : 0 < que.capacity → que.front < que.capacity)
    (h : Vacant que) : Vacant (dequeue que).2 := by
  unfold dequeue
  split
  · exact h
  · next hsize =>
      intro k hk hcap
      change que.size - 1 ≤ k at hk
      change k < que.capacity at hcap
      have hlt := hfront (by omega)
      show update que.elements que.front .null
        (((if que.front = que.capacity - 1 then 0 else que.front + 1) + k) % que.capacity) = .null
      rw [wrap_succ hlt, Nat.mod_add_mod, Nat.add_right_comm, Nat.add_assoc]
      by_cases hlast : k + 1 = que.capacity
      · rw [hlast, Nat.add_mod_right, Nat.mod_eq_of_lt hlt, update_self]
      · by_cases heq : (que.front + (k + 1)) % que.capacity = que.front
        · rw [heq, update_self]
        · rw [update_of_ne heq]
          exact h (k + 1) (by omega) (by omega)

/-- Storing a client, or `NULL`, in the first slot behind the live part: the slots above it decide.
    -/
theorem vacant_set_rear {que : Queue α} {xs : List α} (h : Holds que xs)
    (hroom : que.size < que.capacity) (slot : Slot α) {rear size : ℕ}
    (hsize : size = que.size + 1 ∨ size = que.size ∧ slot = .null) :
    Vacant { que with elements := update que.elements que.rear slot, rear := rear, size := size } ↔
      ∀ k, que.size < k → k < que.capacity →
        que.elements ((que.front + k) % que.capacity) = .null := by
  have hrear := h.rear_eq (by omega)
  have hother : ∀ k, que.size < k → k < que.capacity →
      update que.elements que.rear slot ((que.front + k) % que.capacity)
        = que.elements ((que.front + k) % que.capacity) := by
    intro k hk hcap
    refine update_of_ne ?_ _ _
    intro heq
    have := ring_index_inj hcap hroom (heq.trans hrear)
    omega
  constructor
  · intro hvacant k hk hcap
    rw [← hother k hk hcap]
    exact hvacant k (by show size ≤ k; omega) hcap
  · intro habove k hk hcap
    change size ≤ k at hk
    change k < que.capacity at hcap
    show update que.elements que.rear slot ((que.front + k) % que.capacity) = .null
    rcases Nat.lt_or_ge que.size k with hlt | hge
    · rw [hother k hlt hcap]
      exact habove k hlt hcap
    · obtain ⟨heq, rfl⟩ : k = que.size ∧ slot = .null := by
        rcases hsize with hsize | ⟨hsize, hslot⟩
        · omega
        · exact ⟨by omega, hslot⟩
      rw [heq, ← hrear, update_self]

/-- The array behind the live part after the growth that `enqueue` may make. -/
theorem grown_above {que que' : Queue α} {newElements : Option (ℕ → Slot α)} (item : α)
    (newClient : Bool) (hvacant : Vacant que)
    (hque : (if que.size = que.capacity then resizeQueue que newElements else some que)
      = some que') :
    (∀ k, que'.size < k → k < que'.capacity →
      que'.elements ((que'.front + k) % que'.capacity) = .null) ↔
      GrowsClean que (.enqueue item newElements newClient) := by
  split at hque
  · next hfull =>
      obtain ⟨memory, rfl, rfl⟩ := Option.map_eq_some_iff.1 hque
      have hcell : ∀ k, que.size < k → k < (if que.capacity = 0 then 1 else 2 * que.capacity) →
          (if (0 + k) % (if que.capacity = 0 then 1 else 2 * que.capacity) < que.size
            then que.elements ((que.front + (0 + k) % (if que.capacity = 0 then 1
              else 2 * que.capacity)) % que.capacity)
            else memory ((0 + k) % (if que.capacity = 0 then 1 else 2 * que.capacity)))
          = memory k := by
        intro k hk hcap
        rw [Nat.zero_add, Nat.mod_eq_of_lt hcap, if_neg (by omega)]
      constructor
      · intro habove _ k hk hcap
        rw [← hcell k hk hcap]
        exact habove k hk hcap
      · intro hclean k hk hcap
        exact (hcell k hk hcap).trans (hclean hfull k hk hcap)
  · next hroom =>
      obtain rfl := Option.some.inj hque
      constructor
      · intro _
        cases newElements with
        | none => trivial
        | some memory => exact fun hfull => absurd hfull hroom
      · intro _ k hk hcap
        exact hvacant k hk.le hcap

/-- One call keeps the vacant slots `NULL` exactly when it does not grow the array into other
    memory. -/
theorem call_vacant {que : Queue α} {xs : List α} (h : Holds que xs) (hvacant : Vacant que)
    (op : QueueOp α) : Vacant (que.call op).2 ↔ GrowsClean que op := by
  cases op with
  | dequeue => exact iff_of_true (dequeue_vacant h.front_lt hvacant) trivial
  | enqueue item newElements newClient =>
      show Vacant (enqueue que item newElements newClient).2 ↔ _
      unfold enqueue
      cases hque : (if que.size = que.capacity then resizeQueue que newElements
          else some que) with
      | none =>
          cases newElements with
          | none => exact iff_of_true hvacant trivial
          | some memory => split at hque <;> cases hque
      | some que' =>
          obtain ⟨hholds, hroom⟩ := grown_holds h hque
          rw [← grown_above item newClient hvacant hque]
          cases newClient with
          | true => exact vacant_set_rear hholds hroom _ (.inl rfl)
          | false => exact vacant_set_rear hholds hroom _ (.inr ⟨rfl, rfl⟩)

/-- **The array is safe to destroy exactly while it grows into clean memory.** Whatever `malloc`
    answers, every queue of a sequence of calls is safe if and only if each call that makes the
    array grow gets memory that is `NULL` above the new client. -/
theorem queue_safe_iff (ops : List (QueueOp α)) :
    (∀ n, Safe (afterCalls (ops.take n))) ↔
      ∀ n op, ops[n]? = some op → GrowsClean (afterCalls (ops.take n)) op := by
  have hempty : Vacant (queueConstructor : Queue α) := by
    intro k _ hk
    exact absurd hk (Nat.not_lt_zero k)
  refine runCalls_throughout (I := fun que => ∃ xs, Holds que xs) ⟨[], queueConstructor_holds⟩
    ((safe_iff_vacant queueConstructor_holds).2 hempty) call_holds ?_ ops
  rintro que op ⟨xs, hxs⟩ hsafe
  obtain ⟨xs', hxs'⟩ := call_holds que op ⟨xs, hxs⟩
  rw [safe_iff_vacant hxs']
  exact call_vacant hxs ((safe_iff_vacant hxs).1 hsafe) op

/-- Three clients in a row: the array grows to four slots, and the fourth holds what `malloc` left
    there. -/
theorem queue_unsafe_after_growth :
    ¬ Safe (afterCalls [.enqueue 1 (some fun _ => .junk) true,
      .enqueue 2 (some fun _ => .junk) true, .enqueue 3 (some fun _ => .junk) true]) := by
  intro hsafe
  obtain ⟨xs, -, hslots, -⟩ := hsafe
  rcases hslots 3 (by decide) with hnull | ⟨x, -, hclient⟩
  · cases hnull
  · cases hclient

end SystemProgramming.Server
