import Mathlib.Algebra.BigOperators.Fin
import Mathlib.Algebra.Order.BigOperators.Group.Finset
import Mathlib.Tactic.Abel

set_option autoImplicit false

/-! # Counting threads at program points

The invariants of programs run by any number of threads add up what each thread contributes at its
program point: `sumAt`. `sumAt_update` is what one step of one thread does to such a sum. The most
common one, `countAt p pc`, is the number of threads whose program point is in `p`; its update, a
linear equation over `ℕ`, feeds `omega`, so that a step lemma is a list of these equations and one
`omega`. -/

namespace SystemProgramming

open Finset Function

variable {ι μ : Type*} [Fintype ι]

/-- The contributions of all threads at their program points. -/
def sumAt {M : Type*} [AddCommMonoid M] (g : ι → μ → M) (pc : ι → μ) : M := ∑ i, g i (pc i)

theorem sumAt_update {M : Type*} [AddCommMonoid M] [DecidableEq ι] (g : ι → μ → M) (pc : ι → μ)
    (i : ι) (x : μ) : sumAt g (update pc i x) + g i (pc i) = sumAt g pc + g i x := by
  have hrest : ∑ j ∈ univ.erase i, g j (update pc i x j) = ∑ j ∈ univ.erase i, g j (pc j) :=
    sum_congr rfl fun j hj => by rw [update_of_ne (ne_of_mem_erase hj)]
  have hnew := add_sum_erase univ (fun j => g j (update pc i x j)) (mem_univ i)
  have hold := add_sum_erase univ (fun j => g j (pc j)) (mem_univ i)
  simp only [update_self, hrest] at hnew
  rw [sumAt, sumAt, ← hnew, ← hold]
  abel

theorem sumAt_congr {M : Type*} [AddCommMonoid M] {g : ι → μ → M} {pc pc' : ι → μ}
    (h : ∀ i, g i (pc' i) = g i (pc i)) : sumAt g pc' = sumAt g pc :=
  sum_congr rfl fun i _ => h i

/-- What the threads hold without repetition is held by one of them only. -/
theorem eq_of_nodup_sumAt [DecidableEq ι] {α : Type*} {g : ι → μ → Multiset α} {pc : ι → μ}
    (h : (sumAt g pc).Nodup) {a : α} {i j : ι} (hi : a ∈ g i (pc i)) (hj : a ∈ g j (pc j)) :
    i = j := by
  classical
  by_contra hne
  have hsub : ∑ k ∈ {i, j}, Multiset.count a (g k (pc k)) ≤ ∑ k, Multiset.count a (g k (pc k)) :=
    sum_le_sum_of_subset (subset_univ _)
  rw [sum_pair hne, ← Multiset.count_sum'] at hsub
  have hone := Multiset.nodup_iff_count_le_one.1 h a
  have hposi := Multiset.count_pos.2 hi
  have hposj := Multiset.count_pos.2 hj
  have hle : Multiset.count a (g i (pc i)) + Multiset.count a (g j (pc j)) ≤ 1 := hsub.trans hone
  omega

/-- The number of threads whose program point is in `p`. -/
def countAt (p : μ → Bool) (pc : ι → μ) : ℕ := ∑ i, (p (pc i)).toNat

theorem countAt_update [DecidableEq ι] (p : μ → Bool) (pc : ι → μ) (i : ι) (x : μ) :
    countAt p (update pc i x) + (p (pc i)).toNat = countAt p pc + (p x).toNat :=
  sumAt_update (fun _ y => (p y).toNat) pc i x

theorem countAt_eq_zero {p : μ → Bool} {pc : ι → μ} :
    countAt p pc = 0 ↔ ∀ i, p (pc i) = false := by
  simp [countAt, sum_eq_zero_iff]

theorem countAt_pos {p : μ → Bool} {pc : ι → μ} :
    0 < countAt p pc ↔ ∃ i, p (pc i) = true := by
  rw [Nat.pos_iff_ne_zero, ne_eq, countAt_eq_zero]
  simp

theorem countAt_pos_of {p : μ → Bool} {pc : ι → μ} {i : ι} (h : p (pc i) = true) :
    0 < countAt p pc :=
  countAt_pos.2 ⟨i, h⟩

theorem countAt_mono {p q : μ → Bool} (h : ∀ x, p x = true → q x = true) (pc : ι → μ) :
    countAt p pc ≤ countAt q pc := by
  refine sum_le_sum ?_
  intro i _
  cases hp : p (pc i) with
  | false => simp
  | true => simp [h _ hp]

/-- All threads are in `p`. -/
theorem countAt_eq_card {p : μ → Bool} {pc : ι → μ} (h : ∀ i, p (pc i) = true) :
    countAt p pc = Fintype.card ι := by
  simp [countAt, h]

theorem countAt_le_card (p : μ → Bool) (pc : ι → μ) : countAt p pc ≤ Fintype.card ι := by
  have hall : countAt (fun _ => true) pc = Fintype.card ι := countAt_eq_card fun _ => rfl
  exact hall ▸ countAt_mono (fun _ _ => rfl) pc

/-- If as many threads are in `p` as there are threads, all are. -/
theorem forall_of_card_le_countAt [DecidableEq ι] {p : μ → Bool} {pc : ι → μ}
    (h : Fintype.card ι ≤ countAt p pc) (i : ι) : p (pc i) = true := by
  have hrest : ∑ j ∈ univ.erase i, (p (pc j)).toNat ≤ (univ.erase i).card := by
    rw [card_eq_sum_ones]
    exact sum_le_sum fun j _ => Bool.toNat_le _
  have hsplit : (p (pc i)).toNat + ∑ j ∈ univ.erase i, (p (pc j)).toNat = countAt p pc :=
    add_sum_erase univ (fun j => (p (pc j)).toNat) (mem_univ i)
  rw [card_erase_of_mem (mem_univ i), card_univ] at hrest
  have hpos := Fintype.card_pos_iff.2 ⟨i⟩
  cases hp : p (pc i) with
  | true => rfl
  | false =>
      simp only [hp, Bool.toNat_false, zero_add] at hsplit
      omega

/-- Two different threads in `p` count twice. -/
theorem two_le_countAt [DecidableEq ι] {p : μ → Bool} {pc : ι → μ} {i j : ι} (hne : i ≠ j)
    (hi : p (pc i) = true) (hj : p (pc j) = true) : 2 ≤ countAt p pc := by
  have hsub : ∑ k ∈ {i, j}, (p (pc k)).toNat ≤ countAt p pc :=
    sum_le_sum_of_subset (subset_univ _)
  rw [sum_pair hne, hi, hj] at hsub
  simpa using hsub

theorem eq_of_countAt_le_one [DecidableEq ι] {p : μ → Bool} {pc : ι → μ} {i j : ι}
    (h : countAt p pc ≤ 1) (hi : p (pc i) = true) (hj : p (pc j) = true) : i = j := by
  by_contra hne
  have := two_le_countAt hne hi hj
  omega

end SystemProgramming
