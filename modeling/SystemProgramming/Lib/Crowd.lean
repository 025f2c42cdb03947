import Mathlib.Data.DFinsupp.WellFounded
import Mathlib.SetTheory.Ordinal.Rank
import SystemProgramming.Lib.Machine
import SystemProgramming.Lib.Prog

set_option autoImplicit false

/-! # Programs side by side

Several programs make their calls on one world, in any order. A call may take several steps of the
world before it returns, and may have to wait. A program that has returned takes up the next one, as
long as the world has one for it.

What holds of one of them in every such run is proved from its text alone, as long as the steps of
the others are such as it relies on: `Behaves` is this proof, with a ghost state beside the world
that keeps in mind what the world does not show. `Joint` puts the proofs of all programs
together. -/

namespace SystemProgramming

open Function

/-- A world, and what is left of the programs that run on it. -/
structure Crowd (κ : Type*) (ω : Type*) (ι : Type) (ρ : ι → Type) where
  world : ω
  programs : κ → Prog ι ρ Unit

variable {κ ω γ : Type*} {ι : Type} {ρ : ι → Type} {α β : Type}

/-- The programs on a world that answers their calls and has the next ones for them; a label says
    who goes on. A step of a call without a reply is not its last. -/
def crowd [DecidableEq κ] (answer : κ → ω → (c : ι) → Option (Option (ρ c) × ω))
    (take : κ → ω → Option (Prog ι ρ Unit × ω)) (w : ω) : Machine (Crowd κ ω ι ρ) κ where
  init x := x = ⟨w, fun _ => pure ()⟩
  next x j :=
    match x.programs j with
    | .ret _ => (take j x.world).map fun step => ⟨step.2, update x.programs j step.1⟩
    | .call c k => (answer j x.world c).map fun step =>
        ⟨step.2, match step.1 with
          | none => x.programs
          | some r => update x.programs j (k r)⟩
    | _ => none

/-- What the programs can rely on: what each step keeps, what a step of another keeps, and when a
    program has to wait. -/
structure Reliance (κ σ : Type*) where
  common : σ → σ → Prop
  keeps : κ → σ → σ → Prop
  waits : κ → σ → Prop

namespace Reliance

variable {σ : Type*} (R : Reliance κ σ)

/-- A step of `j`. -/
def Moves (j : κ) (s s' : σ) : Prop := R.common s s' ∧ ∀ i, i ≠ j → R.keeps i s s'

/-- The others cannot make it false for `j`. -/
def Stable (j : κ) (P : σ → Prop) : Prop := ∀ s s', P s → R.common s s' → R.keeps j s s' → P s'

end Reliance

/-! ## One program -/

section Behaves

variable (R : Reliance κ (ω × γ)) (answer : κ → ω → (c : ι) → Option (Option (ρ c) × ω)) (j : κ)

/-- From `s` the program `j` only takes steps that the others can rely on, whatever they do in
    between, and waits only where it may; when it returns, `Q` holds. In each call an assertion
    holds that the others cannot make false. -/
def Behaves : Prog ι ρ α → (α → ω × γ → Prop) → ω × γ → Prop
  | .ret a, Q, s => ∃ P, P s ∧ R.Stable j P ∧ ∀ s, P s → Q a s
  | .call c k, Q, s => ∃ P, P s ∧ R.Stable j P ∧ ∀ w g, P (w, g) →
      (answer j w c = none → R.waits j (w, g)) ∧
      ∀ r w', answer j w c = some (r, w') → ∃ g', R.Moves j (w, g) (w', g') ∧
        match r with
        | none => P (w', g')
        | some r => Behaves (k r) Q (w', g')
  | .exit, _, _ | .undefined, _, _ => False

variable {R answer j} {Q Q' : α → ω × γ → Prop} {P : ω × γ → Prop} {s s' : ω × γ}

theorem behaves_ret {a : α} (hstable : R.Stable j (Q a)) (h : Q a s) :
    Behaves R answer j (pure a : Prog ι ρ α) Q s :=
  ⟨Q a, h, hstable, fun _ h => h⟩

/-- The steps of the others do not matter. -/
theorem Behaves.kept {p : Prog ι ρ α} (h : Behaves R answer j p Q s) (hcommon : R.common s s')
    (hkeeps : R.keeps j s s') : Behaves R answer j p Q s' := by
  cases p with
  | ret a | call c k =>
      obtain ⟨P, hP, hstable, hrest⟩ := h
      exact ⟨P, hstable s s' hP hcommon hkeeps, hstable, hrest⟩
  | exit | undefined => exact h

theorem Behaves.mono {p : Prog ι ρ α} (h : Behaves R answer j p Q s)
    (himp : ∀ a s, Q a s → Q' a s) : Behaves R answer j p Q' s := by
  induction p generalizing s with
  | ret a =>
      obtain ⟨P, hP, hstable, hQ⟩ := h
      exact ⟨P, hP, hstable, fun s hs => himp a s (hQ s hs)⟩
  | call c k ih =>
      obtain ⟨P, hP, hstable, hcall⟩ := h
      refine ⟨P, hP, hstable, fun w g hwg => ⟨(hcall w g hwg).1, fun r w' hanswer => ?_⟩⟩
      obtain ⟨g', hmoves, hrest⟩ := (hcall w g hwg).2 r w' hanswer
      refine ⟨g', hmoves, ?_⟩
      cases r with
      | none => exact hrest
      | some r => exact ih r hrest
  | exit | undefined => exact h

/-- A program and what follows it. -/
theorem behaves_bind {p : Prog ι ρ β} {f : β → Prog ι ρ α}
    (h : Behaves R answer j p (fun b s => Behaves R answer j (f b) Q s) s) :
    Behaves R answer j (p >>= f) Q s := by
  show Behaves R answer j (p.bind f) Q s
  induction p generalizing s with
  | ret b =>
      obtain ⟨P, hP, -, hrest⟩ := h
      exact hrest s hP
  | call c k ih =>
      obtain ⟨P, hP, hstable, hcall⟩ := h
      refine ⟨P, hP, hstable, fun w g hwg => ⟨(hcall w g hwg).1, fun r w' hanswer => ?_⟩⟩
      obtain ⟨g', hmoves, hrest⟩ := (hcall w g hwg).2 r w' hanswer
      refine ⟨g', hmoves, ?_⟩
      cases r with
      | none => exact hrest
      | some r => exact ih r hrest
  | exit | undefined => exact h

/-- A call, in steps. -/
theorem behaves_perform {c : ι} {Q : ρ c → ω × γ → Prop} (hP : P s) (hstable : R.Stable j P)
    (hcall : ∀ w g, P (w, g) → (answer j w c = none → R.waits j (w, g)) ∧
      ∀ r w', answer j w c = some (r, w') → ∃ g', R.Moves j (w, g) (w', g') ∧
        match r with
        | none => P (w', g')
        | some r => Q r (w', g') ∧ R.Stable j (Q r)) :
    Behaves R answer j (Prog.perform c) Q s := by
  refine ⟨P, hP, hstable, fun w g hwg => ⟨(hcall w g hwg).1, fun r w' hanswer => ?_⟩⟩
  obtain ⟨g', hmoves, hrest⟩ := (hcall w g hwg).2 r w' hanswer
  refine ⟨g', hmoves, ?_⟩
  cases r with
  | none => exact hrest
  | some r => exact behaves_ret hrest.2 hrest.1

/-- A call that is answered at once. -/
theorem behaves_answered {c : ι} {Q : ρ c → ω × γ → Prop} (hP : P s) (hstable : R.Stable j P)
    (hcall : ∀ w g, P (w, g) → ∃ r w' g', answer j w c = some (some r, w') ∧
      R.Moves j (w, g) (w', g') ∧ Q r (w', g') ∧ R.Stable j (Q r)) :
    Behaves R answer j (Prog.perform c) Q s := by
  refine behaves_perform hP hstable fun w g hwg => ?_
  obtain ⟨r, w', g', hanswer, hmoves, hQ⟩ := hcall w g hwg
  rw [hanswer]
  refine ⟨nofun, fun r' w'' heq => ?_⟩
  cases heq
  exact ⟨g', hmoves, hQ⟩

end Behaves

/-! ## All programs -/

section Joint

variable [DecidableEq κ] {R : Reliance κ (ω × γ)}
  {answer : κ → ω → (c : ι) → Option (Option (ρ c) × ω)}
  {take : κ → ω → Option (Prog ι ρ Unit × ω)} {between : κ → ω × γ → Prop} {w : ω}
  {x x' : Crowd κ ω ι ρ} {g : γ} {j : κ}

/-- Each program behaves, with the same ghost state, and comes to what holds `between` two. -/
def Joint (R : Reliance κ (ω × γ)) (answer : κ → ω → (c : ι) → Option (Option (ρ c) × ω))
    (between : κ → ω × γ → Prop) (x : Crowd κ ω ι ρ) (g : γ) : Prop :=
  ∀ i, Behaves R answer i (x.programs i) (fun _ => between i) (x.world, g)

/-- A program that is taken up behaves. -/
def Takes (R : Reliance κ (ω × γ)) (answer : κ → ω → (c : ι) → Option (Option (ρ c) × ω))
    (take : κ → ω → Option (Prog ι ρ Unit × ω)) (between : κ → ω × γ → Prop) : Prop :=
  ∀ j w g p w', between j (w, g) → take j w = some (p, w') →
    ∃ g', R.Moves j (w, g) (w', g') ∧ Behaves R answer j p (fun _ => between j) (w', g')

omit [DecidableEq κ] in
theorem Joint.returned (h : Joint R answer between x g) (hj : x.programs j = .ret ()) :
    between j (x.world, g) := by
  have hbehaves := h j
  rw [hj] at hbehaves
  obtain ⟨P, hP, -, hrest⟩ := hbehaves
  exact hrest _ hP

/-- One of them goes on. -/
theorem Joint.update (h : Joint R answer between x g) {w' : ω} {g' : γ} {p : Prog ι ρ Unit}
    (hmoves : R.Moves j (x.world, g) (w', g'))
    (hp : Behaves R answer j p (fun _ => between j) (w', g')) :
    Joint R answer between ⟨w', update x.programs j p⟩ g' := by
  intro i
  show Behaves R answer i (Function.update x.programs j p i) _ (w', g')
  by_cases hij : i = j
  · subst hij
    rw [update_self]
    exact hp
  · rw [update_of_ne hij]
    exact (h i).kept hmoves.1 (hmoves.2 i hij)

theorem Joint.step (htakes : Takes R answer take between) (h : Joint R answer between x g)
    (hnext : (crowd answer take w).next x j = some x') :
    ∃ g', R.Moves j (x.world, g) (x'.world, g') ∧ Joint R answer between x' g' := by
  cases hprogram : x.programs j with
  | ret u =>
      simp only [crowd, hprogram, Option.map_eq_some_iff] at hnext
      obtain ⟨⟨p, w'⟩, htake, rfl⟩ := hnext
      obtain ⟨g', hmoves, hp⟩ := htakes j _ _ p w' (h.returned hprogram) htake
      exact ⟨g', hmoves, h.update hmoves hp⟩
  | exit | undefined => simp only [crowd, hprogram, reduceCtorEq] at hnext
  | call c k =>
      simp only [crowd, hprogram, Option.map_eq_some_iff] at hnext
      obtain ⟨⟨r, w'⟩, hanswer, rfl⟩ := hnext
      have hj := h j
      rw [hprogram] at hj
      obtain ⟨P, hP, hstable, hcall⟩ := hj
      obtain ⟨g', hmoves, hrest⟩ := (hcall _ _ hP).2 r w' hanswer
      refine ⟨g', hmoves, ?_⟩
      cases r with
      | none =>
          have hsame : Function.update x.programs j (.call c k) = x.programs := by
            rw [← hprogram, update_eq_self]
          have hupdate := h.update (p := .call c k) hmoves ⟨P, hrest, hstable, hcall⟩
          rwa [hsame] at hupdate
      | some r => exact h.update hmoves hrest

theorem Joint.exec (htakes : Takes R answer take between) (labels : List κ)
    (h : Joint R answer between x g) (hexec : (crowd answer take w).exec x labels = some x') :
    ∃ g', Relation.ReflTransGen R.common (x.world, g) (x'.world, g') ∧
      Joint R answer between x' g' := by
  induction labels generalizing x g with
  | nil =>
      obtain rfl : x = x' := Option.some.inj hexec
      exact ⟨g, .refl, h⟩
  | cons j rest ih =>
      obtain ⟨y, hnext, hrest⟩ := Option.bind_eq_some_iff.1 hexec
      obtain ⟨g₁, hmoves, h₁⟩ := h.step htakes hnext
      obtain ⟨g', hcommon, h'⟩ := ih h₁ hrest
      exact ⟨g', .head hmoves.1 hcommon, h'⟩

/-- What has been proved of the programs holds in every run. -/
theorem Joint.reachable (htakes : Takes R answer take between)
    (h : Joint R answer between ⟨w, fun _ => pure ()⟩ g)
    (hx : (crowd answer take w).Reachable x) :
    ∃ g', Relation.ReflTransGen R.common (w, g) (x.world, g') ∧ Joint R answer between x g' := by
  refine Machine.Reachable.invariant (I := fun x => ∃ g', Relation.ReflTransGen R.common (w, g)
    (x.world, g') ∧ Joint R answer between x g') ?_ ?_ hx
  · rintro x rfl
    exact ⟨g, .refl, h⟩
  · rintro x j x' - ⟨g₁, hcommon, h₁⟩ hnext
    obtain ⟨g', hmoves, h'⟩ := h₁.step htakes hnext
    exact ⟨g', hcommon.tail hmoves.1, h'⟩

/-- Where no program can move, each has returned, and there is no next one, or waits. -/
theorem Joint.final (h : Joint R answer between x g) (hfinal : (crowd answer take w).Final x)
    (j : κ) : (x.programs j = .ret () ∧ take j x.world = none) ∨ R.waits j (x.world, g) := by
  have hj := h j
  have hnext := hfinal j
  cases hprogram : x.programs j with
  | ret u =>
      simp only [crowd, hprogram, Option.map_eq_none_iff] at hnext
      exact .inl ⟨rfl, hnext⟩
  | call c k =>
      rw [hprogram] at hj
      obtain ⟨P, hP, -, hcall⟩ := hj
      simp only [crowd, hprogram, Option.map_eq_none_iff] at hnext
      exact .inr ((hcall _ _ hP).1 hnext)
  | exit | undefined =>
      rw [hprogram] at hj
      exact hj.elim

end Joint

/-! ## Every run ends -/

namespace Prog

/-- What may be left of a program after a call. -/
def Below (p q : Prog ι ρ α) : Prop := ∃ c k r, q = .call c k ∧ p = k r

theorem below_wellFounded : WellFounded (Below : Prog ι ρ α → Prog ι ρ α → Prop) := by
  constructor
  intro p
  induction p with
  | call c k ih =>
      constructor
      rintro q ⟨c', k', r, heq, rfl⟩
      cases heq
      exact ih r
  | ret a | exit | undefined =>
      constructor
      rintro q ⟨c', k', r, heq, rfl⟩
      cases heq

instance : IsWellFounded (Prog ι ρ α) Below := ⟨below_wellFounded⟩

end Prog

/-- What is ahead of a program: the next ones, what is left of its text, and the steps of its
    call. -/
noncomputable def toDo (left ahead : κ → ω → ℕ) (x : Crowd κ ω ι ρ) (j : κ) :
    ℕ ×ₗ Ordinal.{0} ×ₗ ℕ :=
  toLex (left j x.world, toLex (IsWellFounded.rank Prog.Below (x.programs j), ahead j x.world))

/-- Programs end, as long as each call does and there are only so many to take up: what is ahead of
    a program changes with its own steps only. -/
theorem crowd_halts [Finite κ] [DecidableEq κ]
    {answer : κ → ω → (c : ι) → Option (Option (ρ c) × ω)}
    {take : κ → ω → Option (Prog ι ρ Unit × ω)} (left ahead : κ → ω → ℕ)
    (hleft : ∀ i j w c r w', answer j w c = some (r, w') → left i w' = left i w)
    (hown : ∀ j w c w', answer j w c = some (none, w') → ahead j w' < ahead j w)
    (hothers : ∀ i j w c r w', i ≠ j → answer j w c = some (r, w') → ahead i w' = ahead i w)
    (htake : ∀ j w p w', take j w = some (p, w') → left j w' < left j w ∧
      ∀ i, i ≠ j → left i w' = left i w ∧ ahead i w' = ahead i w)
    (w : ω) (x : Crowd κ ω ι ρ) : (crowd answer take w).Halts x := by
  refine Machine.halts_of_rank (P := fun i x => i = toDo left ahead x) ?_ rfl
  rintro _ x j x' rfl hnext
  refine ⟨toDo left ahead x', ?_, rfl⟩
  -- only what is ahead of `j` changes
  suffices h : toDo left ahead x' j < toDo left ahead x j ∧
      ∀ i, i ≠ j → toDo left ahead x' i = toDo left ahead x i by
    refine Pi.lt_def.2 ⟨fun i => ?_, j, h.1⟩
    by_cases hij : i = j
    · rw [hij]
      exact h.1.le
    · exact (h.2 i hij).le
  unfold toDo
  cases hprogram : x.programs j with
  | exit | undefined => simp only [crowd, hprogram, reduceCtorEq] at hnext
  | ret u =>
      simp only [crowd, hprogram, Option.map_eq_some_iff] at hnext
      obtain ⟨⟨p, w'⟩, htaken, rfl⟩ := hnext
      obtain ⟨hless, hsame⟩ := htake j _ p w' htaken
      refine ⟨Prod.Lex.toLex_lt_toLex.2 (.inl hless), fun i hij => ?_⟩
      dsimp only
      rw [update_of_ne hij, (hsame i hij).1, (hsame i hij).2]
  | call c k =>
      simp only [crowd, hprogram, Option.map_eq_some_iff] at hnext
      obtain ⟨⟨r, w'⟩, hanswer, rfl⟩ := hnext
      have hsame : ∀ i, left i w' = left i x.world := fun i => hleft i j _ c r w' hanswer
      have hahead : ∀ i, i ≠ j → ahead i w' = ahead i x.world := fun i hij =>
        hothers i j _ c r w' hij hanswer
      cases r with
      | none =>
          -- the call goes on
          dsimp only
          refine ⟨Prod.Lex.toLex_lt_toLex.2 (.inr ⟨hsame j, ?_⟩), fun i hij => by
            rw [hsame i, hahead i hij]⟩
          exact Prod.Lex.toLex_lt_toLex.2 (.inr ⟨by rw [hprogram], hown j _ c w' hanswer⟩)
      | some r =>
          -- the call returns, and less is left of its program
          have hbelow : Prog.Below (k r) (.call c k) := ⟨c, k, r, rfl, rfl⟩
          dsimp only
          refine ⟨Prod.Lex.toLex_lt_toLex.2 (.inr ⟨hsame j, ?_⟩), fun i hij => ?_⟩
          · rw [update_self]
            exact Prod.Lex.toLex_lt_toLex.2 (.inl (IsWellFounded.rank_lt_of_rel hbelow))
          · rw [hsame i, hahead i hij, update_of_ne hij]

end SystemProgramming
