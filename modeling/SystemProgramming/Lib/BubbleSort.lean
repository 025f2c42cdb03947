import Mathlib.Data.List.Basic

set_option autoImplicit false

/-! # Bubble sort

`bubbleSort` is the pair of loops with the shrinking inner bound, over the first elements of a list
that stands for the array; `swaps` is the test of the inner loop. One inner loop carries an element
along and drops it for each one that stays behind it: `carry`. That keeps the elements, and the
order of those that are never swapped for each other. Where the test is an order of the elements
(`Orders`), the last element is one that the test puts behind all others, so that the outer loop
grows a sorted end (`SortInv`). -/

namespace SystemProgramming

variable {α : Type*}

/-- One step of the inner loop: `data[j]` and `data[j + 1]` change places if the test says so. -/
def compareSwap (swaps : α → α → Bool) (data : List α) (j : ℕ) : List α :=
  match data[j]?, data[j + 1]? with
  | some a, some b => if swaps a b then (data.set j b).set (j + 1) a else data
  | _, _ => data

/-- `for (j = 0; j < bound; j++)` -/
def innerLoop (swaps : α → α → Bool) (data : List α) (bound : ℕ) : List α :=
  (List.range bound).foldl (compareSwap swaps) data

/-- `for (i = 0; i < length - 1; i++)` around `for (j = 0; j < length - i - 1; j++)` -/
def bubbleSort (swaps : α → α → Bool) (data : List α) (length : ℕ) : List α :=
  (List.range (length - 1)).foldl (fun data i => innerLoop swaps data (length - i - 1)) data

/-! ## One inner loop -/

/-- Carry `a` along the list. -/
def carry (swaps : α → α → Bool) : α → List α → List α
  | a, [] => [a]
  | a, b :: l => if swaps a b then b :: carry swaps a l else a :: carry swaps b l

variable {swaps : α → α → Bool}

theorem compareSwap_zero (a b : α) (l : List α) :
    compareSwap swaps (a :: b :: l) 0 = if swaps a b then b :: a :: l else a :: b :: l := rfl

theorem compareSwap_succ (x : α) (l : List α) (j : ℕ) :
    compareSwap swaps (x :: l) (j + 1) = x :: compareSwap swaps l j := by
  simp only [compareSwap, List.getElem?_cons_succ]
  cases l[j]? with
  | none => rfl
  | some a =>
      cases l[j + 1]? with
      | none => rfl
      | some b =>
          dsimp only
          split <;> rfl

theorem foldl_compareSwap_succ (x : α) (l : List α) (js : List ℕ) :
    (js.map Nat.succ).foldl (compareSwap swaps) (x :: l) = x :: js.foldl (compareSwap swaps) l := by
  induction js generalizing l with
  | nil => rfl
  | cons j js ih =>
      rw [List.map_cons, List.foldl_cons, List.foldl_cons, compareSwap_succ]
      exact ih _

/-- The inner loop carries the first element along as many others as its bound says. -/
theorem innerLoop_eq_carry (a : α) (l rest : List α) :
    innerLoop swaps (a :: (l ++ rest)) l.length = carry swaps a l ++ rest := by
  induction l generalizing a with
  | nil => rfl
  | cons b l ih =>
      rw [innerLoop, List.length_cons, List.range_succ_eq_map, List.foldl_cons, List.cons_append,
        compareSwap_zero, carry]
      by_cases h : swaps a b = true
      · rw [if_pos h, if_pos h, foldl_compareSwap_succ]
        exact congrArg _ (ih a)
      · rw [if_neg h, if_neg h, foldl_compareSwap_succ]
        exact congrArg _ (ih b)

theorem carry_perm (a : α) (l : List α) : (carry swaps a l).Perm (a :: l) := by
  induction l generalizing a with
  | nil => exact .refl _
  | cons b l ih =>
      rw [carry]
      split
      · exact ((ih a).cons b).trans (.swap a b l)
      · exact (ih b).cons a

/-- Elements that are never swapped for each other stay in their order. -/
theorem carry_filter {q : α → Bool} (hq : ∀ a b, q a = true → q b = true → swaps a b = false)
    (a : α) (l : List α) : (carry swaps a l).filter q = (a :: l).filter q := by
  induction l generalizing a with
  | nil => rfl
  | cons b l ih =>
      rw [carry]
      by_cases h : swaps a b = true
      · rw [if_pos h, List.filter_cons, ih a, List.filter_cons, List.filter_cons, List.filter_cons]
        -- at most one of the two is among them
        by_cases ha : q a = true
        · have hb : ¬ q b = true := fun hb => by simp [hq a b ha hb] at h
          rw [if_pos ha, if_pos ha, if_neg hb, if_neg hb]
        · rw [if_neg ha, if_neg ha]
      · rw [if_neg h, List.filter_cons, ih b, List.filter_cons (x := a)]

/-- The test is an order: of two elements at most one is to be behind the other, and what need not
    be behind is passed on. -/
structure Orders (swaps : α → α → Bool) : Prop where
  asymm : ∀ a b, swaps a b = true → swaps b a = false
  trans : ∀ a b c, swaps a b = false → swaps b c = false → swaps a c = false

theorem Orders.refl (h : Orders swaps) (a : α) : swaps a a = false := by
  by_contra hne
  have hself : swaps a a = true := by simpa using hne
  rw [h.asymm a a hself] at hself
  cases hself

/-- The last element is behind all others. -/
theorem carry_last (horder : Orders swaps) (a : α) (l : List α) :
    ∃ front m, carry swaps a l = front ++ [m] ∧ ∀ x ∈ front, swaps x m = false := by
  induction l generalizing a with
  | nil => exact ⟨[], a, rfl, nofun⟩
  | cons b l ih =>
      -- what is carried on need not be behind the last element
      have hcarried : ∀ c front m, carry swaps c l = front ++ [m] →
          (∀ x ∈ front, swaps x m = false) → swaps c m = false := by
        intro c front m hcarry hfront
        have hc : c ∈ front ++ [m] := hcarry ▸ (carry_perm c l).mem_iff.2 List.mem_cons_self
        rcases List.mem_append.1 hc with hc | hc
        · exact hfront c hc
        · rw [List.mem_singleton.1 hc]
          exact horder.refl m
      rw [carry]
      by_cases h : swaps a b = true
      · obtain ⟨front, m, hcarry, hfront⟩ := ih a
        have ham := hcarried a front m hcarry hfront
        refine ⟨b :: front, m, by rw [if_pos h, hcarry]; rfl, List.forall_mem_cons.2 ⟨?_, hfront⟩⟩
        exact horder.trans b a m (horder.asymm a b h) ham
      · obtain ⟨front, m, hcarry, hfront⟩ := ih b
        have hbm := hcarried b front m hcarry hfront
        refine ⟨a :: front, m, by rw [if_neg h, hcarry]; rfl, List.forall_mem_cons.2 ⟨?_, hfront⟩⟩
        exact horder.trans a b m (by simpa using h) hbm

/-! ## The outer loop -/

/-- Behind `i` inner loops: the last `i` of the first elements are sorted, and no element in front
    of them is to be behind one of them. -/
structure SortInv (swaps : α → α → Bool) (items rest : List α) (i : ℕ) (data : List α) : Prop where
  split : ∃ front back, data = front ++ back ++ rest ∧ back.length = i ∧
    (front ++ back).Perm items ∧
    (∀ q : α → Bool, (∀ a b, q a = true → q b = true → swaps a b = false) →
      (front ++ back).filter q = items.filter q) ∧
    (back.Pairwise fun a b => swaps a b = false) ∧ ∀ x ∈ front, ∀ y ∈ back, swaps x y = false

theorem SortInv.init (swaps : α → α → Bool) (items rest : List α) :
    SortInv swaps items rest 0 (items ++ rest) :=
  ⟨items, [], by simp, rfl, by simp, fun _ _ => by simp, .nil, fun _ _ _ hy => nomatch hy⟩

theorem SortInv.step (horder : Orders swaps) {items rest data : List α} {i : ℕ}
    (h : SortInv swaps items rest i data) (hi : i + 1 ≤ items.length) :
    SortInv swaps items rest (i + 1) (innerLoop swaps data (items.length - i - 1)) := by
  obtain ⟨front, back, rfl, hback, hperm, hfilter, hsorted, hbehind⟩ := h.split
  have hlength := hperm.length_eq
  rw [List.length_append] at hlength
  obtain ⟨a, l, rfl⟩ : ∃ a l, front = a :: l :=
    List.exists_cons_of_length_pos (by omega)
  have hbound : items.length - i - 1 = l.length := by
    rw [List.length_cons] at hlength
    omega
  obtain ⟨front', m, hcarry, hlast⟩ := carry_last horder a l
  have hmem : ∀ x, x ∈ front' ++ [m] ↔ x ∈ a :: l := fun x =>
    hcarry ▸ (carry_perm a l).mem_iff
  have hregroup : front' ++ m :: back = carry swaps a l ++ back := by
    rw [hcarry, List.append_assoc, List.singleton_append]
  refine ⟨front', m :: back, ?_, by rw [List.length_cons, hback], ?_, fun q hq => ?_, ?_, ?_⟩
  · rw [hbound, hregroup, List.append_assoc, List.cons_append, innerLoop_eq_carry,
      List.append_assoc]
  · rw [hregroup]
    exact ((carry_perm a l).append_right back).trans hperm
  · rw [hregroup, ← hfilter q hq, List.filter_append, carry_filter hq, ← List.filter_append]
  · refine List.pairwise_cons.2 ⟨fun y hy => ?_, hsorted⟩
    exact hbehind m ((hmem m).1 (by simp)) y hy
  · intro x hx y hy
    rcases List.mem_cons.1 hy with rfl | hy
    · exact hlast x hx
    · exact hbehind x ((hmem x).1 (by simp [hx])) y hy

/-- **Bubble sort.** The first elements are permuted until the test finds nothing to swap in any two
    of them, those that it never swaps for each other stay in their order, and what is behind them
    stays as it is. -/
theorem bubbleSort_spec (horder : Orders swaps) (items rest : List α) :
    ∃ sorted, bubbleSort swaps (items ++ rest) items.length = sorted ++ rest ∧
      sorted.Perm items ∧ (sorted.Pairwise fun a b => swaps a b = false) ∧
      ∀ q : α → Bool, (∀ a b, q a = true → q b = true → swaps a b = false) →
        sorted.filter q = items.filter q := by
  have hloop : ∀ i ≤ items.length - 1, SortInv swaps items rest i
      ((List.range i).foldl (fun data i => innerLoop swaps data (items.length - i - 1))
        (items ++ rest)) := by
    intro i
    induction i with
    | zero => exact fun _ => .init swaps items rest
    | succ i ih =>
        intro hi
        rw [List.range_succ, List.foldl_append]
        exact (ih (by omega)).step horder (by omega)
  obtain ⟨front, back, hdata, hback, hperm, hfilter, hsorted, hbehind⟩ :=
    (hloop _ (Nat.le_refl _)).split
  refine ⟨front ++ back, hdata, hperm, ?_, hfilter⟩
  -- at most one element is left in front
  have hfront : front.length ≤ 1 := by
    have := hperm.length_eq
    rw [List.length_append] at this
    omega
  refine List.pairwise_append.2 ⟨?_, hsorted, hbehind⟩
  match front, hfront with
  | [], _ => exact .nil
  | [x], _ => exact List.pairwise_singleton _ x

end SystemProgramming
