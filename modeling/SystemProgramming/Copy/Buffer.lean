import Mathlib.Tactic.Ring
import SystemProgramming.Lib.Ring

set_option autoImplicit false

/-! # The bounded buffer of `buffer.c`

The buffer of the copy programs (HW4 and HW5 share it, but for the barrier pointer HW5 stores in
it). `bufferPush`, `bufferPop` and `bufferSetDone` are the critical sections of the functions of
that name, from a test of the wait loop to the unlock: `bufferPush` answers `none` and `bufferPop`
answers `wait` where the loop calls `pthread_cond_wait`.

`Stores b xs` says that the buffer is well formed and holds the list `xs`, oldest item first. The
specifications of the three operations are about that list only, so no later module looks at the
array again. -/

namespace SystemProgramming.Copy

open Function

variable {α : Type*}

/-- `Buffer`, without its mutex and condition variables: the threads that hold or wait for these are
    part of the machines that use the buffer. -/
structure Buffer (α : Type*) where
  items : ℤ → α
  capacity : ℤ
  inIdx : ℤ
  outIdx : ℤ
  count : ℤ
  done : Bool

/-- `init_buffer`; the memory is what `malloc` left there. -/
def initBuffer (memory : ℤ → α) (size : ℤ) : Buffer α :=
  { items := memory, capacity := size, inIdx := 0, outIdx := 0, count := 0, done := false }

/-- `buffer_push` from the test of its loop on; `none` is `pthread_cond_wait(&buffer->full)`. -/
def bufferPush (b : Buffer α) (item : α) : Option (Buffer α) :=
  if b.count ≥ b.capacity then none
  else some { b with
    items := update b.items b.inIdx item
    inIdx := (b.inIdx + 1).tmod b.capacity
    count := b.count + 1 }

/-- What `buffer_pop` does once it has the mutex. -/
inductive PopResult (α : Type*)
  /-- `pthread_cond_wait(&buffer->empty)` -/
  | wait
  /-- `return 0` -/
  | failed
  /-- `return 1` -/
  | popped (item : α) (b : Buffer α)

/-- `buffer_pop` from the test of its loop on. -/
def bufferPop (b : Buffer α) : PopResult α :=
  if b.count ≤ 0 && !b.done then .wait
  else if b.count ≤ 0 && b.done then .failed
  else .popped (b.items b.outIdx) { b with
    outIdx := (b.outIdx + 1).tmod b.capacity
    count := b.count - 1 }

/-- `buffer_set_done`, without its broadcast. -/
def bufferSetDone (b : Buffer α) : Buffer α := { b with done := true }

/-- `buffer_is_done`. -/
def bufferIsDone (b : Buffer α) : Bool := b.done

/-! ## The stored list -/

/-- The `count` items stored from `out` onwards. -/
def Buffer.stored (b : Buffer α) : List α :=
  (List.range b.count.toNat).map fun k : ℕ => b.items ((b.outIdx + k).tmod b.capacity)

/-- A well-formed buffer that holds the list `xs`. -/
structure Stores (b : Buffer α) (xs : List α) : Prop where
  capacity_pos : 1 ≤ b.capacity
  out_nonneg : 0 ≤ b.outIdx
  out_lt : b.outIdx < b.capacity
  in_eq : b.inIdx = (b.outIdx + b.count).tmod b.capacity
  count_eq : b.count = xs.length
  count_le : b.count ≤ b.capacity
  stored_eq : b.stored = xs

theorem Stores.in_nonneg {b : Buffer α} {xs : List α} (h : Stores b xs) : 0 ≤ b.inIdx := by
  have := h.count_eq
  rw [h.in_eq]
  exact Int.tmod_nonneg _ (by have := h.out_nonneg; omega)

theorem Stores.in_lt {b : Buffer α} {xs : List α} (h : Stores b xs) : b.inIdx < b.capacity := by
  rw [h.in_eq]
  exact Int.tmod_lt_of_pos _ (by have := h.capacity_pos; omega)

/-- The indices of a well-formed buffer as natural numbers, and its list as a circular window. -/
theorem Stores.window {b : Buffer α} {xs : List α} (h : Stores b xs) :
    ∃ cap out : ℕ, b.capacity = cap ∧ b.outIdx = out ∧ out < cap ∧ xs.length ≤ cap ∧
      b.inIdx = ((out + xs.length) % cap : ℕ) ∧
      ringWindow cap (fun k => b.items k) out xs.length = xs := by
  obtain ⟨hcap, hout, hlt, hin, hcount, hle, hstored⟩ := h
  obtain ⟨cap, hcapn⟩ := Int.eq_ofNat_of_zero_le (show 0 ≤ b.capacity by omega)
  obtain ⟨out, houtn⟩ := Int.eq_ofNat_of_zero_le hout
  refine ⟨cap, out, hcapn, houtn, by omega, by omega, ?_, ?_⟩
  · rw [hin, houtn, hcapn, hcount]
    rfl
  · conv_rhs => rw [← hstored]
    simp only [ringWindow, Buffer.stored, hcount, Int.toNat_natCast, houtn, hcapn]
    rfl

/-- The converse of `Stores.window`. -/
theorem stores_of_window {b : Buffer α} {xs : List α} (cap out : ℕ) (hcap : b.capacity = cap)
    (hout : b.outIdx = out) (hlt : out < cap) (hle : xs.length ≤ cap)
    (hcount : b.count = xs.length) (hin : b.inIdx = ((out + xs.length) % cap : ℕ))
    (hxs : ringWindow cap (fun k => b.items k) out xs.length = xs) : Stores b xs := by
  refine ⟨by omega, by omega, by omega, ?_, hcount, by omega, ?_⟩
  · rw [hin, hout, hcap, hcount]
    rfl
  · conv_rhs => rw [← hxs]
    simp only [ringWindow, Buffer.stored, hcount, Int.toNat_natCast, hout, hcap]
    rfl

/-! ## Specifications -/

theorem initBuffer_stores (memory : ℤ → α) {size : ℤ} (h : 1 ≤ size) :
    Stores (initBuffer memory size) [] :=
  stores_of_window size.toNat 0 (by simp only [initBuffer]; omega) rfl
    (by omega) (Nat.zero_le _) rfl (by simp [initBuffer]) rfl

theorem bufferPush_eq_none {b : Buffer α} {x : α} : bufferPush b x = none ↔ b.capacity ≤ b.count := by
  simp [bufferPush]

/-- A push that does not wait appends its item. -/
theorem bufferPush_spec {b b' : Buffer α} {xs : List α} {x : α} (h : Stores b xs)
    (hp : bufferPush b x = some b') :
    Stores b' (xs ++ [x]) ∧ b'.done = b.done ∧ b'.capacity = b.capacity := by
  obtain ⟨cap, out, hcap, hout, hlt, hle, hin, hxs⟩ := h.window
  have hcount := h.count_eq
  simp only [bufferPush, Option.ite_none_left_eq_some, Option.some.injEq, not_le, ge_iff_le] at hp
  obtain ⟨hroom, rfl⟩ := hp
  refine ⟨stores_of_window cap out hcap hout hlt ?_ ?_ ?_ ?_, rfl, rfl⟩
  · simp only [List.length_append, List.length_singleton]
    omega
  · simp [hcount]
  · show (b.inIdx + 1).tmod b.capacity = _
    rw [hin, hcap, List.length_append, List.length_singleton, ← add_assoc,
      ← Nat.mod_add_mod (out + xs.length) cap 1]
    rfl
  · have hroom' : xs.length < cap := by omega
    have hpush := ringWindow_push (fun k : ℕ => b.items k) out hroom' x
    rw [hxs] at hpush
    rw [List.length_append, List.length_singleton, ← hpush]
    congr 1
    funext k
    simp only [update_apply, hin, Nat.cast_inj]

/-- A pop takes the oldest item; it waits or fails only on the empty buffer, as `done` says. -/
theorem bufferPop_spec {b : Buffer α} {xs : List α} (h : Stores b xs) :
    match bufferPop b with
    | .wait => xs = [] ∧ b.done = false
    | .failed => xs = [] ∧ b.done = true
    | .popped x b' => ∃ rest, xs = x :: rest ∧ Stores b' rest ∧ b'.done = b.done ∧
        b'.capacity = b.capacity := by
  obtain ⟨cap, out, hcap, hout, hlt, hle, hin, hxs⟩ := h.window
  have hcount := h.count_eq
  -- the list is empty exactly when the tests of the code see a count of 0
  cases xs with
  | nil =>
      simp only [List.length_nil, Nat.cast_zero] at hcount
      cases hdone : b.done <;> simp [bufferPop, hcount, hdone]
  | cons x rest =>
      have hpos : ¬ b.count ≤ 0 := by
        rw [hcount, List.length_cons]
        omega
      rw [List.length_cons, ringWindow_pop, Nat.mod_eq_of_lt hlt] at hxs
      obtain ⟨hx, hrest⟩ := List.cons.inj hxs
      rw [List.length_cons] at hle
      have hpop : bufferPop b = .popped (b.items b.outIdx) { b with
          outIdx := (b.outIdx + 1).tmod b.capacity
          count := b.count - 1 } := by
        simp [bufferPop, hpos]
      rw [hpop]
      refine ⟨rest, by rw [hout, hx], ?_, rfl, rfl⟩
      refine stores_of_window cap ((out + 1) % cap) hcap ?_
        (Nat.mod_lt _ (by omega)) (by omega) ?_ ?_ hrest
      · rw [hout, hcap]
        rfl
      · simp [hcount]
      · rw [hin, List.length_cons, Nat.mod_add_mod]
        congr 2
        omega

theorem bufferSetDone_stores {b : Buffer α} {xs : List α} (h : Stores b xs) :
    Stores (bufferSetDone b) xs :=
  ⟨h.capacity_pos, h.out_nonneg, h.out_lt, h.in_eq, h.count_eq, h.count_le, h.stored_eq⟩

end SystemProgramming.Copy
