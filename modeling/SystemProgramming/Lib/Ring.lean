import Mathlib.Data.Nat.ModEq
import Mathlib.Logic.Function.Basic
import Mathlib.Data.List.Range
import Mathlib.Data.List.Perm.Subperm
import Mathlib.Data.List.Nodup

set_option autoImplicit false

/-! # Circular windows

`ringWindow cap f start len` reads `len` cells of the memory `f` from `start` on, wrapping at `cap`.
Writing the cell after the window extends the list at its end, moving `start` by one drops the
head: with these two lemmas a ring buffer is a FIFO list. Nothing here assumes that `start < cap`,
so that a wrapped index (`if` or `%`) needs no special form. -/

namespace SystemProgramming

open Function

variable {α : Type*}

/-- The cells from `start` on, `len` of them, in a memory that wraps at `cap`. -/
def ringWindow (cap : ℕ) (f : ℕ → α) (start len : ℕ) : List α :=
  (List.range len).map fun k => f ((start + k) % cap)

/-- Two different offsets below `cap` are two different cells. -/
theorem ring_index_inj {cap start i j : ℕ} (hi : i < cap) (hj : j < cap)
    (h : (start + i) % cap = (start + j) % cap) : i = j :=
  (Nat.ModEq.add_left_cancel' start h).eq_of_lt_of_lt hi hj

/-- Only the cells of the window matter. -/
theorem ringWindow_congr {cap : ℕ} {f g : ℕ → α} {start len : ℕ}
    (h : ∀ k < len, f ((start + k) % cap) = g ((start + k) % cap)) :
    ringWindow cap f start len = ringWindow cap g start len := by
  unfold ringWindow
  exact List.map_congr_left fun k hk => h k (List.mem_range.1 hk)

/-- A write to a cell outside the window. -/
theorem ringWindow_update {cap : ℕ} (f : ℕ → α) {start len k : ℕ} (hk : k < cap)
    (hlen : len ≤ k) (x : α) :
    ringWindow cap (update f ((start + k) % cap) x) start len = ringWindow cap f start len := by
  refine ringWindow_congr fun j hj => update_of_ne ?_ _ _
  intro he
  have := ring_index_inj (by omega) hk he
  omega

/-- Writing the first free cell appends. -/
theorem ringWindow_push {cap : ℕ} (f : ℕ → α) (start : ℕ) {len : ℕ} (hlen : len < cap) (x : α) :
    ringWindow cap (update f ((start + len) % cap) x) start (len + 1)
      = ringWindow cap f start len ++ [x] := by
  rw [← ringWindow_update f hlen le_rfl x]
  simp [ringWindow, List.range_succ]

/-- Moving the start by one cell drops the head. -/
theorem ringWindow_pop (cap : ℕ) (f : ℕ → α) (start len : ℕ) :
    ringWindow cap f start (len + 1)
      = f (start % cap) :: ringWindow cap f ((start + 1) % cap) len := by
  unfold ringWindow
  rw [List.range_succ_eq_map, List.map_cons, List.map_map, add_zero]
  congr 1
  refine List.map_congr_left ?_
  intro k _
  rw [comp_apply, Nat.mod_add_mod]
  congr 2
  omega

theorem ringWindow_append (cap : ℕ) (f : ℕ → α) (start m n : ℕ) :
    ringWindow cap f start (m + n) = ringWindow cap f start m ++ ringWindow cap f (start + m) n := by
  unfold ringWindow
  rw [List.range_add, List.map_append, List.map_map]
  congr 1
  refine List.map_congr_left ?_
  intro k _
  rw [comp_apply, Nat.add_assoc]

/-- A window over the whole memory is the memory in another order. -/
theorem ringWindow_perm {cap : ℕ} (hcap : 0 < cap) (f : ℕ → α) (start : ℕ) :
    (ringWindow cap f start cap).Perm ((List.range cap).map f) := by
  have hindices : ((List.range cap).map fun k => (start + k) % cap).Perm (List.range cap) := by
    refine List.Subperm.perm_of_length_le (List.subperm_of_subset ?_ ?_) (by simp)
    · refine List.Nodup.map_on ?_ List.nodup_range
      intro i hi j hj hij
      exact ring_index_inj (List.mem_range.1 hi) (List.mem_range.1 hj) hij
    · intro i hi
      obtain ⟨k, -, rfl⟩ := List.mem_map.1 hi
      exact List.mem_range.2 (Nat.mod_lt _ hcap)
  have hmap := hindices.map f
  rwa [List.map_map] at hmap

end SystemProgramming
