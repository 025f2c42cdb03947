import SystemProgramming.Lib.BubbleSort

set_option autoImplicit false

/-! # Stable sorting

For a test that orders the elements there is one sorted list in which elements that are never
swapped keep their order. So all stable sorts are one, bubble sort among them. -/

namespace SystemProgramming

variable {α : Type*} {swaps : α → α → Bool}

/-- Elements that are never swapped for each other. -/
def Tied (swaps : α → α → Bool) (q : α → Bool) : Prop :=
  ∀ a b, q a = true → q b = true → swaps a b = false

/-- The elements that are never swapped for `a`. -/
def tiedWith (swaps : α → α → Bool) (a x : α) : Bool := !swaps a x && !swaps x a

theorem tiedWith_iff {a x : α} :
    tiedWith swaps a x = true ↔ swaps a x = false ∧ swaps x a = false := by
  simp [tiedWith]

namespace Orders

theorem tiedWith_self (h : Orders swaps) (a : α) : tiedWith swaps a a = true :=
  tiedWith_iff.2 ⟨h.refl a, h.refl a⟩

theorem tied_tiedWith (h : Orders swaps) (a : α) : Tied swaps (tiedWith swaps a) :=
  fun x y hx hy => h.trans x a y (tiedWith_iff.1 hx).2 (tiedWith_iff.1 hy).1

theorem mem_iff_of_filter (h : Orders swaps) {s t : List α}
    (hfilter : ∀ q, Tied swaps q → s.filter q = t.filter q) (a : α) : a ∈ s ↔ a ∈ t := by
  have hclass := hfilter _ (h.tied_tiedWith a)
  have hiff : a ∈ s.filter (tiedWith swaps a) ↔ a ∈ t.filter (tiedWith swaps a) := by rw [hclass]
  simpa [h.tiedWith_self a] using hiff

/-- Nothing in front of the head of a list is swapped for what is in the list. -/
theorem head_le (h : Orders swaps) {a b : α} {s : List α} (hs : ∀ x ∈ s, swaps a x = false)
    (hb : b ∈ a :: s) : swaps a b = false := by
  rcases List.mem_cons.1 hb with rfl | hb
  · exact h.refl b
  · exact hs b hb

/-- A sorted list is determined by the order of what is tied. -/
theorem eq_of_filter (h : Orders swaps) {s t : List α}
    (hs : s.Pairwise fun a b => swaps a b = false) (ht : t.Pairwise fun a b => swaps a b = false)
    (hfilter : ∀ q, Tied swaps q → s.filter q = t.filter q) : s = t := by
  have hmem := h.mem_iff_of_filter hfilter
  induction s generalizing t with
  | nil => exact (List.eq_nil_iff_forall_not_mem.2 fun b hb => by simpa using (hmem b).2 hb).symm
  | cons a s ih =>
      cases t with
      | nil => exact absurd ((hmem a).1 List.mem_cons_self) List.not_mem_nil
      | cons b t =>
          rw [List.pairwise_cons] at hs ht
          have hab := h.head_le hs.1 ((hmem b).2 List.mem_cons_self)
          have hba := h.head_le ht.1 ((hmem a).1 List.mem_cons_self)
          -- the two heads are the first of what is tied with them
          have hhead := hfilter _ (h.tied_tiedWith a)
          rw [List.filter_cons_of_pos (h.tiedWith_self a),
            List.filter_cons_of_pos (tiedWith_iff.2 ⟨hab, hba⟩)] at hhead
          obtain rfl : a = b := (List.cons.inj hhead).1
          have hrest : ∀ q, Tied swaps q → s.filter q = t.filter q := by
            intro q hq
            have hcons := hfilter q hq
            by_cases ha : q a = true
            · rw [List.filter_cons_of_pos ha, List.filter_cons_of_pos ha] at hcons
              exact (List.cons.inj hcons).2
            · rwa [List.filter_cons_of_neg ha, List.filter_cons_of_neg ha] at hcons
          rw [ih hs.2 ht.2 hrest (h.mem_iff_of_filter hrest)]

/-! ## mergeSort -/

theorem le_trans (h : Orders swaps) (a b c : α) (hab : (!swaps a b) = true)
    (hbc : (!swaps b c) = true) : (!swaps a c) = true := by
  simpa using h.trans a b c (by simpa using hab) (by simpa using hbc)

theorem le_total (h : Orders swaps) (a b : α) : (!swaps a b || !swaps b a) = true := by
  cases hab : swaps a b with
  | false => rfl
  | true => simp [h.asymm a b hab]

theorem pairwise_mergeSort (h : Orders swaps) (items : List α) :
    (items.mergeSort fun a b => !swaps a b).Pairwise fun a b => swaps a b = false := by
  refine (List.pairwise_mergeSort h.le_trans h.le_total items).imp ?_
  intro a b hab
  simpa using hab

theorem filter_mergeSort (h : Orders swaps) (items : List α) {q : α → Bool} (hq : Tied swaps q) :
    (items.mergeSort fun a b => !swaps a b).filter q = items.filter q := by
  have hsorted : (items.filter q).Pairwise fun a b => (!swaps a b) = true := by
    refine List.pairwise_of_forall_mem_list fun a ha b hb => ?_
    rw [hq a b (List.mem_filter.1 ha).2 (List.mem_filter.1 hb).2]
    rfl
  have hsub := (List.sublist_mergeSort h.le_trans h.le_total hsorted List.filter_sublist).filter q
  have hidem : (items.filter q).filter q = items.filter q := by
    rw [List.filter_filter]
    exact List.filter_congr fun a _ => Bool.and_self _
  rw [hidem] at hsub
  exact (hsub.eq_of_length ((List.mergeSort_perm items _).filter q).length_eq.symm).symm

end Orders

/-- **Bubble sort is the stable sort.** -/
theorem bubbleSort_eq_mergeSort (h : Orders swaps) (items : List α) :
    bubbleSort swaps items items.length = items.mergeSort fun a b => !swaps a b := by
  obtain ⟨sorted, hbubble, -, hsorted, hfilter⟩ := bubbleSort_spec h items []
  rw [List.append_nil, List.append_nil] at hbubble
  rw [hbubble]
  refine h.eq_of_filter hsorted (h.pairwise_mergeSort items) fun q hq => ?_
  rw [hfilter q hq, h.filter_mergeSort items hq]

end SystemProgramming
