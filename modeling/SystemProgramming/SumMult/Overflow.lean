import SystemProgramming.SumMult.Delivery

set_option autoImplicit false

/-! # The results as numbers

The children compute in `int`. `product` and `total` are the mathematical results; the product of
entries that are not 0 only grows, so what matters is whether the last value fits
(`withinInt_iff`), and nine entries up to 10 are the most that always fit. -/

namespace SystemProgramming.SumMult

/-- `INT_MAX`. -/
def intMax : ℕ := 2147483647

/-- The product that child 2 computes from the array. -/
def arrayProduct (array : List (BitVec 32)) : BitVec 32 := array.foldl (· * ·) 1

/-- The mathematical product of the entries. -/
def product : List (BitVec 32) → ℕ
  | [] => 1
  | x :: array => x.toNat * product array

/-- The mathematical sum of the entries. -/
def total : List (BitVec 32) → ℕ
  | [] => 0
  | x :: array => x.toNat + total array

/-- An array as `main` fills it, with `rand() % 10 + 1`, for a size that it accepts. -/
structure Generated where
  array : List (BitVec 32)
  size_pos : 0 < array.length
  size_le : array.length ≤ intMax
  entries : ∀ x ∈ array, 1 ≤ x.toNat ∧ x.toNat ≤ 10

/-- No value that the children compute exceeds `INT_MAX`, and what is printed is the mathematical
    product and sum. -/
def WithinInt (array : List (BitVec 32)) : Prop :=
  (∀ i ≤ array.length, product (array.take i) ≤ intMax ∧ total (array.take i) ≤ intMax) ∧
    (arrayProduct array).toInt = product array ∧ (arraySum array).toInt = total array

/-! ## Wrapped and mathematical results -/

theorem toNat_foldl_mul (array : List (BitVec 32)) (acc : BitVec 32) :
    (array.foldl (· * ·) acc).toNat = acc.toNat * product array % 2 ^ 32 := by
  induction array generalizing acc with
  | nil => rw [List.foldl_nil, product, Nat.mul_one, Nat.mod_eq_of_lt acc.isLt]
  | cons x array ih =>
      rw [List.foldl_cons, ih, BitVec.toNat_mul, Nat.mod_mul_mod, product, Nat.mul_assoc]

theorem toNat_foldl_add (array : List (BitVec 32)) (acc : BitVec 32) :
    (array.foldl (· + ·) acc).toNat = (acc.toNat + total array) % 2 ^ 32 := by
  induction array generalizing acc with
  | nil => rw [List.foldl_nil, total, Nat.add_zero, Nat.mod_eq_of_lt acc.isLt]
  | cons x array ih =>
      rw [List.foldl_cons, ih, BitVec.toNat_add, Nat.mod_add_mod, total, Nat.add_assoc]

/-- A result that fits is the mathematical one. -/
theorem toInt_of_le {x : BitVec 32} {n : ℕ} (hx : x.toNat = n % 2 ^ 32) (hn : n ≤ intMax) :
    x.toInt = n := by
  have hlt : n < 2 ^ 31 := Nat.lt_succ_of_le hn
  have hsame : x.toNat = n := by rw [hx, Nat.mod_eq_of_lt (by omega)]
  rw [BitVec.toInt_eq_toNat_of_lt (by omega), hsame]

/-! ## What fits -/

theorem product_append (array array' : List (BitVec 32)) :
    product (array ++ array') = product array * product array' := by
  induction array with
  | nil => rw [List.nil_append, product, Nat.one_mul]
  | cons x array ih => rw [List.cons_append, product, ih, product, Nat.mul_assoc]

theorem total_append (array array' : List (BitVec 32)) :
    total (array ++ array') = total array + total array' := by
  induction array with
  | nil => rw [List.nil_append, total, Nat.zero_add]
  | cons x array ih => rw [List.cons_append, total, ih, total, Nat.add_assoc]

theorem product_pos {array : List (BitVec 32)} (h : ∀ x ∈ array, 1 ≤ x.toNat) :
    1 ≤ product array := by
  induction array with
  | nil => exact Nat.le_refl 1
  | cons x array ih =>
      obtain ⟨hx, harray⟩ := List.forall_mem_cons.1 h
      exact Nat.mul_pos hx (ih harray)

/-- The values only grow. -/
theorem take_le {array : List (BitVec 32)} (h : ∀ x ∈ array, 1 ≤ x.toNat) (i : ℕ) :
    product (array.take i) ≤ product array ∧ total (array.take i) ≤ total array := by
  have hsplit := List.take_append_drop i array
  have hrest : 1 ≤ product (array.drop i) :=
    product_pos fun x hx => h x (List.mem_of_mem_drop hx)
  constructor
  · rw [← congrArg product hsplit, product_append]
    exact Nat.le_mul_of_pos_right _ hrest
  · rw [← congrArg total hsplit, total_append]
    exact Nat.le_add_right _ _

theorem withinInt_iff_of_pos {array : List (BitVec 32)} (h : ∀ x ∈ array, 1 ≤ x.toNat) :
    WithinInt array ↔ product array ≤ intMax ∧ total array ≤ intMax := by
  constructor
  · rintro ⟨hfits, -⟩
    simpa using hfits array.length (Nat.le_refl _)
  · rintro ⟨hproduct, htotal⟩
    refine ⟨fun i _ => ?_, toInt_of_le ?_ hproduct, toInt_of_le ?_ htotal⟩
    · obtain ⟨hp, ht⟩ := take_le h i
      exact ⟨hp.trans hproduct, ht.trans htotal⟩
    · rw [arrayProduct, toNat_foldl_mul, show (1 : BitVec 32).toNat = 1 from rfl, Nat.one_mul]
    · rw [arraySum, toNat_foldl_add, show (0 : BitVec 32).toNat = 0 from rfl, Nat.zero_add]

/-- Entries up to 10 make at most a power of 10 and a multiple of 10. -/
theorem le_of_entries {array : List (BitVec 32)} (h : ∀ x ∈ array, x.toNat ≤ 10) :
    product array ≤ 10 ^ array.length ∧ total array ≤ 10 * array.length := by
  induction array with
  | nil => exact ⟨Nat.le_refl 1, Nat.le_refl 0⟩
  | cons x array ih =>
      obtain ⟨hx, harray⟩ := List.forall_mem_cons.1 h
      obtain ⟨hp, ht⟩ := ih harray
      rw [List.length_cons, product, total]
      constructor
      · rw [Nat.pow_succ, Nat.mul_comm (10 ^ array.length)]
        exact Nat.mul_le_mul hx hp
      · omega

theorem product_replicate (n : ℕ) : product (List.replicate n 10) = 10 ^ n := by
  induction n with
  | zero => rfl
  | succ n ih => rw [List.replicate_succ, product, ih, Nat.pow_succ, Nat.mul_comm]; rfl

/-- The array of this size with all entries 10. -/
def allTens (size : ℕ) (hpos : 0 < size) (hmax : size ≤ intMax) : Generated where
  array := List.replicate size 10
  size_pos := by rwa [List.length_replicate]
  size_le := by rwa [List.length_replicate]
  entries x hx := by
    rw [List.eq_of_mem_replicate hx]
    decide

theorem Generated.one_le (a : Generated) : ∀ x ∈ a.array, 1 ≤ x.toNat :=
  fun x hx => (a.entries x hx).1

/-- **What HW2 computes within `int`.** An array goes well exactly if its product and its sum are at
    most `INT_MAX`. -/
theorem withinInt_iff (a : Generated) :
    WithinInt a.array ↔ product a.array ≤ intMax ∧ total a.array ≤ intMax :=
  withinInt_iff_of_pos a.one_le

/-- All arrays of a size go well exactly if the size is at most 9. -/
theorem all_withinInt_iff {size : ℕ} (hpos : 0 < size) (hmax : size ≤ intMax) :
    (∀ a : Generated, a.array.length = size → WithinInt a.array) ↔ size ≤ 9 := by
  constructor
  · intro hall
    by_contra hbig
    have htens := hall (allTens size hpos hmax) List.length_replicate
    obtain ⟨hfits, -⟩ := (withinInt_iff_of_pos (allTens size hpos hmax).one_le).1 htens
    have hpow : 10 ^ 10 ≤ 10 ^ size := Nat.pow_le_pow_right (by decide) (by omega)
    have hproduct : product (allTens size hpos hmax).array = 10 ^ size := product_replicate size
    rw [hproduct, intMax] at hfits
    omega
  · intro hsmall a hlength
    obtain ⟨hproduct, htotal⟩ := le_of_entries fun x hx => (a.entries x hx).2
    rw [hlength] at hproduct htotal
    have hpow : 10 ^ size ≤ 10 ^ 9 := Nat.pow_le_pow_right (by decide) hsmall
    refine (withinInt_iff_of_pos a.one_le).2 ⟨?_, ?_⟩
    · rw [intMax]
      omega
    · rw [intMax]
      omega

/-- Ten entries 10 do not fit. -/
theorem not_always_withinInt : ¬ ∀ a : Generated, WithinInt a.array := by
  intro hall
  have htens := hall (allTens 10 (by decide) (by decide))
  have hfits := (htens.1 10 (Nat.le_refl 10)).1
  exact absurd hfits (by decide)

end SystemProgramming.SumMult
