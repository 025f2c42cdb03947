import Mathlib.Data.List.Basic

set_option autoImplicit false

/-! # Programs over system calls

A `Prog` is a program whose calls are left open: a tree that branches over the replies of each call.
Its paths are the behaviours of the program in all environments; a path ends by returning, by the
exit of the process, or in undefined behaviour.

`Shows obs p Q` says that `Q` holds of what every returning path of `p` shows, where `obs` picks
what is of interest in each call. The rules below compute it from the text of the program. -/

namespace SystemProgramming

/-- A program with calls `ι`, whose replies have the types `ρ`, that returns an `α`. -/
inductive Prog (ι : Type) (ρ : ι → Type) (α : Type)
  | ret (a : α)
  | exit
  | undefined
  | call (c : ι) (k : ρ c → Prog ι ρ α)

/-- A call and its reply. -/
structure Event (ι : Type) (ρ : ι → Type) where
  call : ι
  reply : ρ call

/-- How a path ends. -/
inductive Outcome (α : Type)
  | returned (a : α)
  | exited
  | undefined

namespace Prog

variable {ι : Type} {ρ : ι → Type} {α β : Type}

/-- A program, and another one behind it that uses its result. -/
def bind : Prog ι ρ α → (α → Prog ι ρ β) → Prog ι ρ β
  | ret a, f => f a
  | exit, _ => exit
  | undefined, _ => undefined
  | call c k, f => call c fun r => (k r).bind f

instance : Monad (Prog ι ρ) where
  pure := ret
  bind := bind

/-- The program that makes one call. -/
def perform (c : ι) : Prog ι ρ (ρ c) := call c ret

/-- The paths of a program: the calls with their replies, and the end. -/
inductive Runs : Prog ι ρ α → List (Event ι ρ) → Outcome α → Prop
  | ret (a : α) : Runs (ret a) [] (.returned a)
  | exit : Runs exit [] .exited
  | undefined : Runs undefined [] .undefined
  | call (c : ι) (k : ρ c → Prog ι ρ α) (r : ρ c) {t : List (Event ι ρ)} {o : Outcome α}
      (h : Runs (k r) t o) : Runs (call c k) (⟨c, r⟩ :: t) o

/-- The end of the program when its calls and their replies are these. -/
def follow [DecidableEq ι] : Prog ι ρ α → List (Event ι ρ) → Option (Outcome α)
  | ret a, [] => some (.returned a)
  | exit, [] => some .exited
  | undefined, [] => some .undefined
  | call c k, e :: t => if h : e.call = c then follow (k (h ▸ e.reply)) t else none
  | _, _ => none

theorem runs_iff_follow [DecidableEq ι] {p : Prog ι ρ α} {t : List (Event ι ρ)} {o : Outcome α} :
    Runs p t o ↔ follow p t = some o := by
  constructor
  · intro h
    induction h with
    | ret a => rfl
    | exit => rfl
    | undefined => rfl
    | call c k r _ ih =>
        rw [follow, dif_pos rfl]
        exact ih
  · intro h
    induction p generalizing t with
    | ret a =>
        cases t with
        | nil =>
            cases h
            exact .ret a
        | cons e t => cases h
    | exit =>
        cases t with
        | nil =>
            cases h
            exact .exit
        | cons e t => cases h
    | undefined =>
        cases t with
        | nil =>
            cases h
            exact .undefined
        | cons e t => cases h
    | call c k ih =>
        cases t with
        | nil => cases h
        | cons e t =>
            obtain ⟨c', r⟩ := e
            rw [follow] at h
            by_cases hc : c' = c
            · subst hc
              rw [dif_pos rfl] at h
              exact .call c' k r (ih r h)
            · rw [dif_neg hc] at h
              cases h

/-- The returning paths of a sequence are those of its parts, one after the other. -/
theorem runs_bind_returned {p : Prog ι ρ α} {f : α → Prog ι ρ β} {t : List (Event ι ρ)} {b : β} :
    Runs (p >>= f) t (.returned b) ↔
      ∃ t₁ a t₂, Runs p t₁ (.returned a) ∧ Runs (f a) t₂ (.returned b) ∧ t = t₁ ++ t₂ := by
  show Runs (p.bind f) t (.returned b) ↔ _
  induction p generalizing t with
  | ret a =>
      refine ⟨fun h => ⟨[], a, t, .ret a, h, rfl⟩, ?_⟩
      rintro ⟨t₁, a', t₂, hp, hf, rfl⟩
      cases hp
      exact hf
  | exit =>
      refine ⟨nofun, ?_⟩
      rintro ⟨t₁, a, t₂, hp, -, -⟩
      cases hp
  | undefined =>
      refine ⟨nofun, ?_⟩
      rintro ⟨t₁, a, t₂, hp, -, -⟩
      cases hp
  | call c k ih =>
      refine ⟨fun h => ?_, ?_⟩
      · cases h with
        | call _ _ r h =>
            obtain ⟨t₁, a, t₂, hp, hf, rfl⟩ := (ih r).1 h
            exact ⟨⟨c, r⟩ :: t₁, a, t₂, .call c k r hp, hf, rfl⟩
      · rintro ⟨t₁, a, t₂, hp, hf, rfl⟩
        cases hp with
        | call _ _ r hp => exact .call c _ r ((ih r).2 ⟨_, a, t₂, hp, hf, rfl⟩)

/-- How far an execution comes: to the end of a path, or to a call that does not return. -/
inductive Execution (p : Prog ι ρ α) : List (Event ι ρ) → Option (Outcome α) → Prop
  | complete {path : List (Event ι ρ)} {o : Outcome α} (h : Runs p path o) :
      Execution p path (some o)
  | waiting {path rest : List (Event ι ρ)} {e : Event ι ρ} {o : Outcome α}
      (h : Runs p (path ++ e :: rest) o) : Execution p path none

/-! ## What the returning paths show -/

section Shows

variable {ω : Type}

/-- `Q` holds of what each returning path of `p` shows, and of the value it returns. -/
def Shows (obs : Event ι ρ → List ω) (p : Prog ι ρ α) (Q : List ω → α → Prop) : Prop :=
  ∀ t a, Runs p t (.returned a) → Q (t.flatMap obs) a

variable {obs : Event ι ρ → List ω} {Q Q' : List ω → α → Prop}

theorem Shows.mono {p : Prog ι ρ α} (h : Shows obs p Q) (himp : ∀ l a, Q l a → Q' l a) :
    Shows obs p Q' :=
  fun t a hr => himp _ _ (h t a hr)

@[simp] theorem shows_ret {a : α} : Shows obs (ret a) Q ↔ Q [] a := by
  refine ⟨fun h => h [] a (.ret a), fun h t b hr => ?_⟩
  cases hr
  exact h

@[simp] theorem shows_pure {a : α} : Shows obs (pure a : Prog ι ρ α) Q ↔ Q [] a := shows_ret

@[simp] theorem shows_exit : Shows obs exit Q := nofun

@[simp] theorem shows_undefined : Shows obs undefined Q := nofun

@[simp] theorem shows_call {c : ι} {k : ρ c → Prog ι ρ α} :
    Shows obs (call c k) Q ↔ ∀ r, Shows obs (k r) fun l => Q (obs ⟨c, r⟩ ++ l) := by
  refine ⟨fun h r t a hr => h _ a (.call c k r hr), fun h t a hr => ?_⟩
  cases hr with
  | call _ _ r hr => exact h r _ a hr

@[simp] theorem shows_perform {c : ι} {Q : List ω → ρ c → Prop} :
    Shows obs (perform c) Q ↔ ∀ r, Q (obs ⟨c, r⟩) r := by
  simp [perform]

@[simp] theorem shows_bind {p : Prog ι ρ α} {f : α → Prog ι ρ β} {Q : List ω → β → Prop} :
    Shows obs (p >>= f) Q ↔
      Shows obs p fun l a => Shows obs (f a) fun l' b => Q (l ++ l') b := by
  refine ⟨fun h t₁ a hp t₂ b hf => ?_, fun h t b hr => ?_⟩
  · show Q (t₁.flatMap obs ++ t₂.flatMap obs) b
    rw [← List.flatMap_append]
    exact h _ b (runs_bind_returned.2 ⟨t₁, a, t₂, hp, hf, rfl⟩)
  · obtain ⟨t₁, a, t₂, hp, hf, rfl⟩ := runs_bind_returned.1 hr
    rw [List.flatMap_append]
    exact h t₁ a hp t₂ b hf

/-- A program none of whose returning paths shows anything. -/
def Silent (obs : Event ι ρ → List ω) (p : Prog ι ρ α) : Prop := Shows obs p fun l _ => l = []

theorem silent_pure {a : α} : Silent obs (pure a : Prog ι ρ α) := shows_pure.2 rfl

theorem silent_exit : Silent obs (exit : Prog ι ρ α) := shows_exit

theorem silent_perform {c : ι} (h : ∀ r, obs ⟨c, r⟩ = []) : Silent obs (perform c : Prog ι ρ (ρ c)) :=
  shows_perform.2 h

/-- A silent program can be passed over. -/
theorem Silent.shows_bind {p : Prog ι ρ α} (hp : Silent obs p) {f : α → Prog ι ρ β}
    {Q : List ω → β → Prop} (h : ∀ a, Shows obs (f a) Q) : Shows obs (p >>= f) Q := by
  rw [Prog.shows_bind]
  intro t a hr
  rw [hp t a hr]
  exact h a

theorem Silent.bind {p : Prog ι ρ α} (hp : Silent obs p) {f : α → Prog ι ρ β}
    (h : ∀ a, Silent obs (f a)) : Silent obs (p >>= f) :=
  hp.shows_bind h

theorem Silent.shows {p : Prog ι ρ α} (hp : Silent obs p) (h : ∀ a, Q [] a) : Shows obs p Q := by
  intro t a hr
  rw [hp t a hr]
  exact h a

end Shows

end Prog

end SystemProgramming
