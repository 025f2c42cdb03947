import SystemProgramming.Lib.Threads

set_option autoImplicit false

/-! # Condition variables

Sleeping on a condition variable is a program point: `asleep` tells which program points sleep on
the variable and `wake` where a woken thread goes on, namely back to the test of its wait loop
(Mesa semantics: being woken says nothing about the condition). `signal` wakes one sleeper if there
is one, chosen by its argument; `broadcast` wakes them all. -/

namespace SystemProgramming

open Function

variable {ι μ : Type*}

/-- `pthread_cond_signal`: wake the sleeper that `who` names; `none` is right only without
    sleepers. -/
def signal [Fintype ι] [DecidableEq ι] (asleep : μ → Bool) (wake : μ → μ) (pc : ι → μ) :
    Option ι → Option (ι → μ)
  | some j => if asleep (pc j) then some (update pc j (wake (pc j))) else none
  | none => if ∀ j, asleep (pc j) = false then some pc else none

/-- `pthread_cond_broadcast`. -/
def broadcast (asleep : μ → Bool) (wake : μ → μ) (pc : ι → μ) : ι → μ :=
  fun j => if asleep (pc j) then wake (pc j) else pc j

/-- A signal wakes exactly one sleeper, or there is none and nothing changes. -/
theorem signal_cases [Fintype ι] [DecidableEq ι] {asleep : μ → Bool} {wake : μ → μ}
    {pc pc' : ι → μ} {who : Option ι} (h : signal asleep wake pc who = some pc') :
    (∃ j, asleep (pc j) = true ∧ pc' = update pc j (wake (pc j))) ∨
      ((∀ j, asleep (pc j) = false) ∧ pc' = pc) := by
  cases who with
  | some j =>
      simp only [signal, Option.ite_none_right_eq_some, Option.some.injEq] at h
      exact Or.inl ⟨j, h.1, h.2.symm⟩
  | none =>
      simp only [signal, Option.ite_none_right_eq_some, Option.some.injEq] at h
      exact Or.inr ⟨h.1, h.2.symm⟩

/-- A signal is always possible: some choice of the woken thread is right. -/
theorem exists_signal [Fintype ι] [DecidableEq ι] (asleep : μ → Bool) (wake : μ → μ)
    (pc : ι → μ) : ∃ who pc', signal asleep wake pc who = some pc' := by
  by_cases h : ∃ j, asleep (pc j) = true
  · obtain ⟨j, hj⟩ := h
    exact ⟨some j, update pc j (wake (pc j)), if_pos hj⟩
  · have hnone : ∀ j, asleep (pc j) = false := by simpa using h
    exact ⟨none, pc, if_pos hnone⟩

/-- A signal keeps what waking up does not change. -/
theorem signal_congr [Fintype ι] [DecidableEq ι] {β : Type*} {asleep : μ → Bool} {wake : μ → μ}
    {f : μ → β} (hf : ∀ x, f (wake x) = f x) {pc pc' : ι → μ} {who : Option ι}
    (h : signal asleep wake pc who = some pc') (i : ι) : f (pc' i) = f (pc i) := by
  rcases signal_cases h with ⟨j, -, rfl⟩ | ⟨-, rfl⟩
  · by_cases hij : i = j
    · subst hij
      rw [update_self, hf]
    · rw [update_of_ne hij]
  · rfl

/-- A broadcast keeps what waking up does not change. -/
theorem broadcast_congr {β : Type*} {asleep : μ → Bool} {wake : μ → μ} {f : μ → β}
    (hf : ∀ x, f (wake x) = f x) (pc : ι → μ) (i : ι) :
    f (broadcast asleep wake pc i) = f (pc i) := by
  unfold broadcast
  split
  · exact hf _
  · rfl

/-- A signal takes one sleeper away, if there is one. -/
theorem countAt_signal [Fintype ι] [DecidableEq ι] {asleep : μ → Bool} {wake : μ → μ}
    (hwake : ∀ x, asleep (wake x) = false) {pc pc' : ι → μ} {who : Option ι}
    (h : signal asleep wake pc who = some pc') :
    countAt asleep pc' = countAt asleep pc - 1 := by
  rcases signal_cases h with ⟨j, hj, rfl⟩ | ⟨hnone, rfl⟩
  · have hupdate := countAt_update asleep pc j (wake (pc j))
    rw [hj, hwake] at hupdate
    simp only [Bool.toNat_true, Bool.toNat_false, add_zero] at hupdate
    omega
  · rw [countAt_eq_zero.2 hnone]

/-- A broadcast leaves no sleeper. -/
theorem countAt_broadcast [Fintype ι] {asleep : μ → Bool} {wake : μ → μ}
    (hwake : ∀ x, asleep (wake x) = false) (pc : ι → μ) :
    countAt asleep (broadcast asleep wake pc) = 0 := by
  refine countAt_eq_zero.2 ?_
  intro j
  unfold broadcast
  split
  · exact hwake _
  · next h => simpa using h

end SystemProgramming
