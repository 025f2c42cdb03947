import SystemProgramming.Lib.Prog

set_option autoImplicit false

/-! # Monitors

A monitor follows the calls of a program and their replies: it keeps a state, and says which replies
are taken to be possible. `Monitor.wp Q p s` says that `Q` holds of the state and of the end of
every path of `p` from `s` whose replies are possible. It is computed from the text of the program
by the rules below. -/

namespace SystemProgramming

/-- The state that a monitor keeps, and the replies that it takes to be possible. -/
structure Monitor (ι : Type) (ρ : ι → Type) (σ : Type*) where
  step : σ → Event ι ρ → σ
  possible : σ → Event ι ρ → Prop

namespace Monitor

/-- What has to hold where a program ends. -/
abbrev Post (σ : Type*) (α : Type) := σ → Outcome α → Prop

variable {ι κ : Type} {ρ : ι → Type} {ρ' : κ → Type} {σ : Type*} {α β : Type}

/-- The state after the calls of a path. -/
def run (m : Monitor ι ρ σ) (s : σ) (path : List (Event ι ρ)) : σ := path.foldl m.step s

/-- All replies of a path are possible. -/
def Accepts (m : Monitor ι ρ σ) : σ → List (Event ι ρ) → Prop
  | _, [] => True
  | s, e :: path => m.possible s e ∧ m.Accepts (m.step s e) path

/-- In every run from this state that the monitor finds possible, the postcondition holds at the
    end. -/
def wp (m : Monitor ι ρ σ) (Q : Post σ α) : Prog ι ρ α → σ → Prop
  | .ret a, s => Q s (.returned a)
  | .exit, s => Q s .exited
  | .undefined, s => Q s .undefined
  | .call c k, s => ∀ r, m.possible s ⟨c, r⟩ → m.wp Q (k r) (m.step s ⟨c, r⟩)

variable {m : Monitor ι ρ σ} {Q Q' : Post σ α} {s : σ}

/-- `wp` is a statement about the paths. -/
theorem wp_iff {p : Prog ι ρ α} :
    m.wp Q p s ↔ ∀ path o, Prog.Runs p path o → m.Accepts s path → Q (m.run s path) o := by
  induction p generalizing s with
  | ret a =>
      constructor
      · intro h path o hrun _
        cases hrun
        exact h
      · intro h
        exact h [] _ (.ret a) trivial
  | exit =>
      constructor
      · intro h path o hrun _
        cases hrun
        exact h
      · intro h
        exact h [] _ .exit trivial
  | undefined =>
      constructor
      · intro h path o hrun _
        cases hrun
        exact h
      · intro h
        exact h [] _ .undefined trivial
  | call c k ih =>
      constructor
      · intro h path o hrun hpossible
        cases hrun with
        | call _ _ r hrun => exact (ih r).1 (h r hpossible.1) _ o hrun hpossible.2
      · intro h r hpossible
        refine (ih r).2 ?_
        intro path o hrun hrest
        exact h _ o (.call c k r hrun) ⟨hpossible, hrest⟩

theorem wp_mono {p : Prog ι ρ α} (h : m.wp Q p s) (himp : ∀ s o, Q s o → Q' s o) : m.wp Q' p s :=
  wp_iff.2 fun path o hrun hpossible => himp _ _ (wp_iff.1 h path o hrun hpossible)

theorem wp_of_eq {p : Prog ι ρ α} {s' : σ} (hs : s = s') (h : m.wp Q p s') : m.wp Q p s := hs ▸ h

/-- What has to hold where the first part of a sequence ends. -/
def continued (m : Monitor ι ρ σ) (f : α → Prog ι ρ β) (Q : Post σ β) : Post σ α
  | s, .returned a => m.wp Q (f a) s
  | s, .exited => Q s .exited
  | s, .undefined => Q s .undefined

theorem wp_bind {p : Prog ι ρ α} {f : α → Prog ι ρ β} {Q : Post σ β} :
    m.wp Q (p >>= f) s ↔ m.wp (m.continued f Q) p s := by
  show m.wp Q (p.bind f) s ↔ _
  induction p generalizing s with
  | ret a => exact Iff.rfl
  | exit => exact Iff.rfl
  | undefined => exact Iff.rfl
  | call c k ih => exact forall_congr' fun r => imp_congr_right fun _ => ih r

theorem wp_bind_pure {p : Prog ι ρ α} : m.wp Q (p >>= pure) s ↔ m.wp Q p s := by
  refine wp_bind.trans ⟨fun h => wp_mono h ?_, fun h => wp_mono h ?_⟩
  · intro s' o h
    cases o <;> exact h
  · intro s' o h
    cases o <;> exact h

/-- A sequence whose first part is one call. -/
theorem wp_perform_bind {c : ι} {f : ρ c → Prog ι ρ β} {Q : Post σ β} :
    m.wp Q (Prog.perform c >>= f) s ↔
      ∀ r, m.possible s ⟨c, r⟩ → m.wp Q (f r) (m.step s ⟨c, r⟩) :=
  Iff.rfl

/-- To pass over the first part of a sequence, say what holds where it ends. -/
theorem wp_bind_of {p : Prog ι ρ α} {f : α → Prog ι ρ β} {Q : Post σ β}
    {R : Post σ α} (hp : m.wp R p s)
    (hreturned : ∀ s' a, R s' (.returned a) → m.wp Q (f a) s')
    (hexited : ∀ s', R s' .exited → Q s' .exited)
    (hundefined : ∀ s', R s' .undefined → Q s' .undefined) : m.wp Q (p >>= f) s := by
  refine wp_bind.2 (wp_mono hp ?_)
  intro s' o h
  cases o with
  | returned a => exact hreturned s' a h
  | exited => exact hexited s' h
  | undefined => exact hundefined s' h

/-- No path of the program changes the state. -/
def Still (m : Monitor ι ρ σ) (s : σ) (p : Prog ι ρ α) : Prop := m.wp (fun s' _ => s' = s) p s

theorem still_pure {a : α} : m.Still s (pure a : Prog ι ρ α) := rfl

theorem still_exit : m.Still s (.exit : Prog ι ρ α) := rfl

theorem still_perform {c : ι} (h : ∀ r, m.step s ⟨c, r⟩ = s) : m.Still s (Prog.perform c) :=
  fun r _ => h r

theorem Still.bind {p : Prog ι ρ α} (hp : m.Still s p) {f : α → Prog ι ρ β}
    (h : ∀ a, m.Still s (f a)) : m.Still s (p >>= f) := by
  refine wp_bind_of hp ?_ (fun _ h => h) (fun _ h => h)
  rintro s' a rfl
  exact h a

/-- A program that changes nothing can be passed over, for a postcondition on the state. -/
theorem Still.wp_bind {p : Prog ι ρ α} (hp : m.Still s p) {f : α → Prog ι ρ β} {P : σ → Prop}
    (hs : P s) (h : ∀ a, m.wp (fun s' _ => P s') (f a) s) :
    m.wp (fun s' _ => P s') (p >>= f) s := by
  refine wp_bind_of hp ?_ ?_ ?_
  · rintro s' a rfl
    exact h a
  · rintro s' rfl
    exact hs
  · rintro s' rfl
    exact hs

/-- The monitor that keeps no state and takes every reply to be possible. -/
def blank : Monitor ι ρ Unit := ⟨fun _ _ => (), fun _ _ => True⟩

theorem blank_accepts (s : Unit) (path : List (Event ι ρ)) : blank.Accepts s path := by
  induction path generalizing s with
  | nil => trivial
  | cons e path ih => exact ⟨trivial, ih ()⟩

/-! ## Excluded events -/

/-- The monitor that also notes whether an event has occurred that `excluded` holds of. -/
def watch (m : Monitor ι ρ σ) (excluded : Event ι ρ → Prop) : Monitor ι ρ (σ × Prop) where
  step s e := (m.step s.1 e, s.2 ∨ excluded e)
  possible s e := m.possible s.1 e

theorem watch_run (excluded : Event ι ρ → Prop) (b : Prop) (path : List (Event ι ρ)) :
    ((m.watch excluded).run (s, b) path).1 = m.run s path ∧
      (((m.watch excluded).run (s, b) path).2 ↔ b ∨ ∃ e ∈ path, excluded e) := by
  induction path generalizing s b with
  | nil => simp [run]
  | cons e path ih =>
      obtain ⟨hstate, hexcluded⟩ := ih (s := m.step s e) (b ∨ excluded e)
      refine ⟨hstate, hexcluded.trans ?_⟩
      simp [or_assoc]

theorem watch_accepts {excluded : Event ι ρ → Prop} {b : Prop} {path : List (Event ι ρ)} :
    (m.watch excluded).Accepts (s, b) path ↔ m.Accepts s path := by
  induction path generalizing s b with
  | nil => exact Iff.rfl
  | cons e path ih => exact and_congr Iff.rfl ih

theorem watch_step_of_not {excluded : Event ι ρ → Prop} {b : Prop} {e : Event ι ρ}
    (h : ¬ excluded e) : (m.watch excluded).step (s, b) e = (m.step s e, b) :=
  Prod.ext rfl (propext (or_iff_left h))

/-- A call none of whose replies is excluded. -/
theorem watch_wp_bind {excluded : Event ι ρ → Prop} {b : Prop} {c : ι}
    (hc : ∀ r, ¬ excluded ⟨c, r⟩) {f : ρ c → Prog ι ρ β} {Q : Post (σ × Prop) β}
    (h : ∀ r, m.possible s ⟨c, r⟩ → (m.watch excluded).wp Q (f r) (m.step s ⟨c, r⟩, b)) :
    (m.watch excluded).wp Q (Prog.perform c >>= f) (s, b) := by
  refine wp_perform_bind.2 ?_
  intro r hr
  exact wp_of_eq (watch_step_of_not (hc r)) (h r hr)

/-- If a property of the end holds exactly on the paths that have met no excluded event, this is
    so of every path. -/
theorem iff_of_watch {excluded : Event ι ρ → Prop} {b : Prop} {p : Prog ι ρ α}
    (h : (m.watch excluded).wp (fun s o => Q s.1 o ↔ ¬ s.2) p (s, b)) {path : List (Event ι ρ)}
    {o : Outcome α} (hrun : Prog.Runs p path o) (hpath : m.Accepts s path) :
    Q (m.run s path) o ↔ ¬ b ∧ ∀ e ∈ path, ¬ excluded e := by
  have hend := wp_iff.1 h path o hrun (watch_accepts.2 hpath)
  obtain ⟨hstate, hexcluded⟩ := watch_run (m := m) (s := s) excluded b path
  rw [hstate, hexcluded] at hend
  rw [hend]
  simp

end Monitor

/-! ## What is observed along a path -/

section Observer

variable {ι : Type} {ρ : ι → Type} {α ω : Type}

/-- The monitor that collects what `obs` picks from the calls. -/
def observer (obs : Event ι ρ → List ω) : Monitor ι ρ (List ω) where
  step seen e := seen ++ obs e
  possible _ _ := True

theorem observer_run (obs : Event ι ρ → List ω) (seen : List ω) (path : List (Event ι ρ)) :
    (observer obs).run seen path = seen ++ path.flatMap obs := by
  induction path generalizing seen with
  | nil => exact (List.append_nil seen).symm
  | cons e path ih =>
      rw [List.flatMap_cons, ← List.append_assoc]
      exact ih (seen ++ obs e)

theorem observer_accepts (obs : Event ι ρ → List ω) (seen : List ω) (path : List (Event ι ρ)) :
    (observer obs).Accepts seen path := by
  induction path generalizing seen with
  | nil => trivial
  | cons e path ih => exact ⟨trivial, ih (seen ++ obs e)⟩

/-- A program that changes nothing of what is observed is silent. -/
theorem Monitor.Still.silent {obs : Event ι ρ → List ω} {p : Prog ι ρ α}
    (h : (observer obs).Still [] p) : Prog.Silent obs p := by
  intro path a hrun
  have hend := Monitor.wp_iff.1 h path _ hrun (observer_accepts obs [] path)
  rwa [observer_run] at hend

end Observer

/-! ## Programs of a part of the calls -/

section Lift

variable {ι κ : Type} {ρ : ι → Type} {ρ' : κ → Type} {σ : Type*} {α : Type}

/-- A program over some of the calls as a program over all of them. -/
def Prog.lift (f : ι → κ) (reply : ∀ c, ρ' (f c) → ρ c) : Prog ι ρ α → Prog κ ρ' α
  | .ret a => .ret a
  | .exit => .exit
  | .undefined => .undefined
  | .call c k => .call (f c) fun r => (k (reply c r)).lift f reply

/-- A monitor of all calls follows a lifted program as the monitor of its calls does. -/
theorem Monitor.wp_lift {m : Monitor ι ρ σ} {m' : Monitor κ ρ' σ} {f : ι → κ}
    {reply : ∀ c, ρ' (f c) → ρ c}
    (hstep : ∀ s c r, m'.step s ⟨f c, r⟩ = m.step s ⟨c, reply c r⟩)
    (hpossible : ∀ s c r, m'.possible s ⟨f c, r⟩ → m.possible s ⟨c, reply c r⟩)
    {Q : Monitor.Post σ α} {p : Prog ι ρ α} {s : σ} (h : m.wp Q p s) :
    m'.wp Q (p.lift f reply) s := by
  induction p generalizing s with
  | ret a => exact h
  | exit => exact h
  | undefined => exact h
  | call c k ih =>
      intro r hr
      rw [hstep]
      exact ih (reply c r) (h (reply c r) (hpossible s c r hr))

end Lift

end SystemProgramming
