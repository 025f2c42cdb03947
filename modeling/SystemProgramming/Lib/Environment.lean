import SystemProgramming.Lib.Monitor

set_option autoImplicit false

/-! # Running a program in an environment

An environment answers every call in its state: with a reply and the next state, or not at all,
when the call does not return. `runIn` follows a program through an environment; the rules compute
where it ends from the text of the program. -/

namespace SystemProgramming

/-- The reply of each call and the state after it; `none` is a call that does not return. -/
abbrev Environment (ι : Type) (ρ : ι → Type) (σ : Type*) := σ → (c : ι) → Option (ρ c × σ)

namespace Prog

variable {ι κ : Type} {ρ : ι → Type} {ρ' : κ → Type} {σ : Type*} {α β : Type}

/-- The end of a program in an environment, `none` when it waits in a call, and the state then. -/
def runIn (env : Environment ι ρ σ) : Prog ι ρ α → σ → Option (Outcome α) × σ
  | ret a, s => (some (.returned a), s)
  | exit, s => (some .exited, s)
  | undefined, s => (some .undefined, s)
  | call c k, s =>
      match env s c with
      | none => (none, s)
      | some (r, s') => (k r).runIn env s'

variable {env : Environment ι ρ σ} {s s' : σ}

@[simp] theorem runIn_pure (a : α) :
    runIn env (pure a : Prog ι ρ α) s = (some (.returned a), s) := rfl

/-- A sequence whose first part is one call. -/
theorem runIn_perform_bind {c : ι} {f : ρ c → Prog ι ρ β} {r : ρ c} (h : env s c = some (r, s')) :
    runIn env (perform c >>= f) s = runIn env (f r) s' := by
  show runIn env (call c f) s = _
  rw [runIn, h]

theorem runIn_perform {c : ι} {r : ρ c} (h : env s c = some (r, s')) :
    runIn env (perform c) s = (some (.returned r), s') := by
  show runIn env (call c ret) s = _
  rw [runIn, h]
  rfl

/-- How a sequence goes on where its first part has ended. -/
def continueIn (env : Environment ι ρ σ) (f : α → Prog ι ρ β) :
    Option (Outcome α) × σ → Option (Outcome β) × σ
  | (some (.returned a), s) => (f a).runIn env s
  | (some .exited, s) => (some .exited, s)
  | (some .undefined, s) => (some .undefined, s)
  | (none, s) => (none, s)

theorem runIn_bind {p : Prog ι ρ α} {f : α → Prog ι ρ β} :
    runIn env (p >>= f) s = continueIn env f (runIn env p s) := by
  show runIn env (p.bind f) s = _
  induction p generalizing s with
  | ret a => rfl
  | exit => rfl
  | undefined => rfl
  | call c k ih =>
      rw [Prog.bind, runIn, runIn]
      cases env s c with
      | none => rfl
      | some reply => exact ih reply.1

theorem runIn_bind_returned {p : Prog ι ρ α} {f : α → Prog ι ρ β} {a : α}
    (h : runIn env p s = (some (.returned a), s')) :
    runIn env (p >>= f) s = runIn env (f a) s' := by
  rw [runIn_bind, h]
  rfl

theorem runIn_bind_undefined {p : Prog ι ρ α} {f : α → Prog ι ρ β}
    (h : runIn env p s = (some .undefined, s')) :
    runIn env (p >>= f) s = (some .undefined, s') := by
  rw [runIn_bind, h]
  rfl

/-! ## Programs that return -/

/-- The program returns in the environment, and `Q` holds of the value and of the state then. -/
def Returns (env : Environment ι ρ σ) (p : Prog ι ρ α) (s : σ) (Q : α → σ → Prop) : Prop :=
  ∃ a s', runIn env p s = (some (.returned a), s') ∧ Q a s'

variable {Q Q' : α → σ → Prop}

theorem returns_pure {a : α} (h : Q a s) : Returns env (pure a : Prog ι ρ α) s Q := ⟨a, s, rfl, h⟩

theorem returns_perform {c : ι} {r : ρ c} {Q : ρ c → σ → Prop} (h : env s c = some (r, s'))
    (hQ : Q r s') : Returns env (perform c) s Q := ⟨r, s', runIn_perform h, hQ⟩

theorem returns_perform_bind_iff {c : ι} {f : ρ c → Prog ι ρ α} {r : ρ c}
    (h : env s c = some (r, s')) : Returns env (perform c >>= f) s Q ↔ Returns env (f r) s' Q := by
  unfold Returns
  rw [runIn_perform_bind h]

theorem returns_perform_bind {c : ι} {f : ρ c → Prog ι ρ α} {r : ρ c} (h : env s c = some (r, s'))
    (hrest : Returns env (f r) s' Q) : Returns env (perform c >>= f) s Q :=
  (returns_perform_bind_iff h).2 hrest

theorem returns_bind_iff {p : Prog ι ρ β} {f : β → Prog ι ρ α} {b : β}
    (h : runIn env p s = (some (.returned b), s')) :
    Returns env (p >>= f) s Q ↔ Returns env (f b) s' Q := by
  unfold Returns
  rw [runIn_bind_returned h]

theorem returns_bind {p : Prog ι ρ β} {f : β → Prog ι ρ α}
    (h : Returns env p s fun b s' => Returns env (f b) s' Q) : Returns env (p >>= f) s Q := by
  obtain ⟨b, s', hp, a, s'', hrun, hQ⟩ := h
  exact ⟨a, s'', (runIn_bind_returned hp).trans hrun, hQ⟩

theorem Returns.mono {p : Prog ι ρ α} (h : Returns env p s Q) (himp : ∀ a s', Q a s' → Q' a s') :
    Returns env p s Q' := by
  obtain ⟨a, s', hrun, hQ⟩ := h
  exact ⟨a, s', hrun, himp a s' hQ⟩

/-- There is one run. -/
theorem Returns.and {p : Prog ι ρ α} (h : Returns env p s Q) (h' : Returns env p s Q') :
    Returns env p s fun a s' => Q a s' ∧ Q' a s' := by
  obtain ⟨a, s', hrun, hQ⟩ := h
  obtain ⟨a', s'', hrun', hQ'⟩ := h'
  rw [hrun] at hrun'
  cases hrun'
  exact ⟨a, s', hrun, hQ, hQ'⟩

theorem not_returns_of_undefined {p : Prog ι ρ α} (h : runIn env p s = (some .undefined, s')) :
    ¬ Returns env p s Q := by
  rintro ⟨a, s'', hrun, -⟩
  rw [h] at hrun
  cases hrun

/-- What every call keeps holds at the end. -/
theorem runIn_keeps {P : σ → Prop} (hkeep : ∀ s c r, P s → env s c = some r → P r.2)
    {p : Prog ι ρ α} (hs : P s) : P (runIn env p s).2 := by
  induction p generalizing s with
  | ret a => exact hs
  | exit => exact hs
  | undefined => exact hs
  | call c k ih =>
      rw [runIn]
      cases hreply : env s c with
      | none => exact hs
      | some r => exact ih r.1 (hkeep s c r hs hreply)

/-- A map of states that the environment does not notice leads from run to run. -/
theorem runIn_map {τ : Type*} {env' : Environment ι ρ τ} {g : σ → τ} {P : σ → Prop}
    (h : ∀ s, P s → ∀ c, env' (g s) c = (env s c).map fun r => (r.1, g r.2))
    (hkeep : ∀ s, P s → ∀ c r, env s c = some r → P r.2) {p : Prog ι ρ α} (hs : P s) :
    runIn env' p (g s) = ((runIn env p s).1, g (runIn env p s).2) := by
  induction p generalizing s with
  | ret a => rfl
  | exit => rfl
  | undefined => rfl
  | call c k ih =>
      rw [runIn, runIn, h s hs c]
      cases hreply : env s c with
      | none => rfl
      | some r => exact ih r.1 (hkeep s hs c r hreply)

/-- A program over some of the calls, in an environment that answers them as its own does. -/
theorem runIn_lift {env' : Environment κ ρ' σ} {f : ι → κ} {reply : ∀ c, ρ' (f c) → ρ c}
    (h : ∀ s c, (env' s (f c)).map (fun r => (reply c r.1, r.2)) = env s c) {p : Prog ι ρ α} :
    runIn env' (p.lift f reply) s = runIn env p s := by
  induction p generalizing s with
  | ret a => rfl
  | exit => rfl
  | undefined => rfl
  | call c k ih =>
      rw [Prog.lift, runIn, runIn, ← h s c]
      cases env' s (f c) with
      | none => rfl
      | some r => exact ih (reply c r.1)

end Prog

end SystemProgramming
