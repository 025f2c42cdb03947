import Mathlib.Data.List.Basic

set_option autoImplicit false

/-! # Objects and sequences of calls

An object is a function that takes a state and a call and gives a result and the next state. What it
is for is a relation between abstract states: `SpecRun` is a sequence of calls and results that the
relation allows. An object whose every call keeps a relation to an abstract state refines it over
every sequence of calls; a property of its states holds throughout a sequence exactly when each step
meets the condition under which one step keeps it. -/

namespace SystemProgramming

variable {σ τ ω ρ : Type*}

/-- The results of a sequence of calls and the state it leaves. -/
def runCalls (call : σ → ω → ρ × σ) : σ → List ω → List ρ × σ
  | s, [] => ([], s)
  | s, op :: ops =>
      ((call s op).1 :: (runCalls call (call s op).2 ops).1, (runCalls call (call s op).2 ops).2)

/-- The calls, with these results, that take one abstract state to another. -/
inductive SpecRun (spec : τ → ω → ρ → τ → Prop) : τ → List ω → List ρ → τ → Prop
  | nil (t : τ) : SpecRun spec t [] [] t
  | cons {t t' t'' : τ} {op : ω} {r : ρ} {ops : List ω} {rs : List ρ} (h : spec t op r t')
      (hrest : SpecRun spec t' ops rs t'') : SpecRun spec t (op :: ops) (r :: rs) t''

/-- If every call keeps `R` to an abstract state by a step of the specification, so does every
    sequence of calls. -/
theorem runCalls_refines {call : σ → ω → ρ × σ} {spec : τ → ω → ρ → τ → Prop} {R : σ → τ → Prop}
    (hcall : ∀ s t op, R s t → ∃ t', spec t op (call s op).1 t' ∧ R (call s op).2 t')
    {s : σ} {t : τ} (h : R s t) (ops : List ω) :
    ∃ t', SpecRun spec t ops (runCalls call s ops).1 t' ∧ R (runCalls call s ops).2 t' := by
  induction ops generalizing s t with
  | nil => exact ⟨t, .nil t, h⟩
  | cons op rest ih =>
      obtain ⟨t₁, hstep, h₁⟩ := hcall s t op h
      obtain ⟨t₂, hrest, h₂⟩ := ih h₁
      exact ⟨t₂, .cons hstep hrest, h₂⟩

theorem runCalls_invariant {call : σ → ω → ρ × σ} {I : σ → Prop}
    (hcall : ∀ s op, I s → I (call s op).2) {s : σ} (h : I s) (ops : List ω) :
    I (runCalls call s ops).2 := by
  induction ops generalizing s with
  | nil => exact h
  | cons op rest ih => exact ih (hcall s op h)

theorem runCalls_append (call : σ → ω → ρ × σ) (s : σ) (ops ops' : List ω) :
    runCalls call s (ops ++ ops') =
      ((runCalls call s ops).1 ++ (runCalls call (runCalls call s ops).2 ops').1,
        (runCalls call (runCalls call s ops).2 ops').2) := by
  induction ops generalizing s with
  | nil => rfl
  | cons first rest ih => simp only [List.cons_append, runCalls, ih]

/-- The state after `n + 1` calls of a sequence. -/
theorem runCalls_take_succ (call : σ → ω → ρ × σ) (s : σ) {ops : List ω} {n : ℕ} {op : ω}
    (h : ops[n]? = some op) :
    (runCalls call s (ops.take (n + 1))).2 = (call (runCalls call s (ops.take n)).2 op).2 := by
  rw [List.take_add_one, h, Option.toList_some, runCalls_append]
  rfl

/-- Under an invariant `I`, if one call keeps `P` exactly when it meets `C`, then `P` holds after
    every call of a sequence exactly when every call of the sequence meets `C`. -/
theorem runCalls_throughout {call : σ → ω → ρ × σ} {I P : σ → Prop} {C : σ → ω → Prop} {s : σ}
    (hI : I s) (hP : P s) (hcallI : ∀ s op, I s → I (call s op).2)
    (hcall : ∀ s op, I s → P s → (P (call s op).2 ↔ C s op)) (ops : List ω) :
    (∀ n, P (runCalls call s (ops.take n)).2) ↔
      ∀ n op, ops[n]? = some op → C (runCalls call s (ops.take n)).2 op := by
  have hinv : ∀ ops : List ω, I (runCalls call s ops).2 := fun ops =>
    runCalls_invariant hcallI hI ops
  constructor
  · intro h n op hop
    have hnext := h (n + 1)
    rw [runCalls_take_succ call s hop] at hnext
    exact (hcall _ op (hinv _) (h n)).1 hnext
  · intro h n
    induction n with
    | zero => exact hP
    | succ n ih =>
        cases hop : ops[n]? with
        | none =>
            have hlen := List.getElem?_eq_none_iff.1 hop
            rw [List.take_of_length_le (by omega), ← List.take_of_length_le hlen]
            exact ih
        | some op =>
            rw [runCalls_take_succ call s hop]
            exact (hcall _ op (hinv _) ih).2 (h n op hop)

end SystemProgramming
