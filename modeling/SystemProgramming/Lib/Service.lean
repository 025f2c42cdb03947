import Mathlib.Data.List.Forall2
import Mathlib.Logic.Relation

set_option autoImplicit false

/-! # Services

A service answers requests one after the other, and each answer may change its state. One service
implements another if it serves whatever the other serves, with the same answers: what is proved
about one request holds of sessions of any length. -/

namespace SystemProgramming

/-- The state behind a request and the answer to it, if the request is served. -/
structure Service (σ ι ω : Type*) where
  serve : σ → ι → Option (σ × ω)

namespace Service

variable {σ τ υ ι κ μ ω : Type*}

/-- The state behind a session and its answers. -/
def session (f : Service σ ι ω) : σ → List ι → Option (σ × List ω)
  | s, [] => some (s, [])
  | s, i :: rest =>
      (f.serve s i).bind fun r => (f.session r.1 rest).map fun r' => (r'.1, r.2 :: r'.2)

theorem session_cons_eq_some {f : Service σ ι ω} {s s' : σ} {i : ι} {rest : List ι}
    {answers : List ω} : f.session s (i :: rest) = some (s', answers) ↔
      ∃ t o os, f.serve s i = some (t, o) ∧ f.session t rest = some (s', os) ∧
        answers = o :: os := by
  simp only [session, Option.bind_eq_some_iff, Option.map_eq_some_iff, Prod.exists, Prod.mk.injEq]
  constructor
  · rintro ⟨t, o, hserve, t', os, hrest, rfl, rfl⟩
    exact ⟨t, o, os, hserve, hrest, rfl⟩
  · rintro ⟨t, o, os, hserve, hrest, rfl⟩
    exact ⟨t, o, hserve, s', os, hrest, rfl, rfl⟩

/-- A session in two parts. -/
theorem session_append_eq_some {f : Service σ ι ω} {s s' : σ} {is js : List ι}
    {answers : List ω} : f.session s (is ++ js) = some (s', answers) ↔
      ∃ t os os', f.session s is = some (t, os) ∧ f.session t js = some (s', os') ∧
        answers = os ++ os' := by
  induction is generalizing s answers with
  | nil =>
      constructor
      · intro h
        exact ⟨s, [], answers, rfl, h, rfl⟩
      · rintro ⟨t, os, os', hnil, hrest, rfl⟩
        cases hnil
        exact hrest
  | cons i is ih =>
      rw [List.cons_append, session_cons_eq_some]
      constructor
      · rintro ⟨t, o, os, hserve, hsession, rfl⟩
        obtain ⟨u, os₁, os₂, hfirst, hsecond, rfl⟩ := ih.1 hsession
        exact ⟨u, o :: os₁, os₂, session_cons_eq_some.2 ⟨t, o, os₁, hserve, hfirst, rfl⟩, hsecond,
          rfl⟩
      · rintro ⟨u, os, os', hfirst, hsecond, rfl⟩
        obtain ⟨t, o, os₁, hserve, hrest, rfl⟩ := session_cons_eq_some.1 hfirst
        exact ⟨t, o, os₁ ++ os', hserve, ih.2 ⟨u, os₁, os', hrest, hsecond, rfl⟩, rfl⟩

/-- `f` serves what `g` serves, where the states are related and the requests stand for each
    other. -/
def Implements (f : Service σ ι ω) (g : Service τ κ ω) (R : σ → τ → Prop) (Q : ι → κ → Prop) :
    Prop :=
  ∀ s t i k t' o, R s t → Q i k → g.serve t k = some (t', o) →
    ∃ s', f.serve s i = some (s', o) ∧ R s' t'

variable {f : Service σ ι ω} {g : Service τ κ ω} {h : Service υ μ ω}
  {R : σ → τ → Prop} {R' : τ → υ → Prop} {Q : ι → κ → Prop} {Q' : κ → μ → Prop}

/-- Sessions of the one are sessions of the other. -/
theorem Implements.session (himp : Implements f g R Q) {is : List ι} {ks : List κ}
    (hQ : List.Forall₂ Q is ks) {s : σ} {t t' : τ} {answers : List ω} (hR : R s t)
    (hsession : g.session t ks = some (t', answers)) :
    ∃ s', f.session s is = some (s', answers) ∧ R s' t' := by
  induction hQ generalizing s t answers with
  | nil =>
      cases hsession
      exact ⟨s, rfl, hR⟩
  | cons hi _ ih =>
      obtain ⟨u, o, os, hserve, hrest, rfl⟩ := session_cons_eq_some.1 hsession
      obtain ⟨s₁, hs₁, hR₁⟩ := himp _ _ _ _ _ _ hR hi hserve
      obtain ⟨s', hs', hR'⟩ := ih hR₁ hrest
      exact ⟨s', session_cons_eq_some.2 ⟨s₁, o, os, hs₁, hs', rfl⟩, hR'⟩

theorem Implements.trans (hfg : Implements f g R Q) (hgh : Implements g h R' Q') :
    Implements f h (Relation.Comp R R') (Relation.Comp Q Q') := by
  rintro s u i m u' o ⟨t, hst, htu⟩ ⟨k, hik, hkm⟩ hserve
  obtain ⟨t', ht', htu'⟩ := hgh t u k m u' o htu hkm hserve
  obtain ⟨s', hs', hst'⟩ := hfg s t i k t' o hst hik ht'
  exact ⟨s', hs', t', hst', htu'⟩

end Service

end SystemProgramming
