import Mathlib.Logic.Relation
import Mathlib.Order.RelClasses
import Mathlib.Data.List.Basic

set_option autoImplicit false

/-! # Machines, runs and invariants

A `Machine` is a set of initial states and an executable step function: a label says who moves and
how every choice of the move is resolved, `none` says that the move is not possible. Everything
that is proved about "any interleaving" is proved about `Machine.Reachable`, and everything that
is proved about the runs that keep to some discipline about `Machine.ReachableUnder`. -/

namespace SystemProgramming

/-- Initial states and a step function; the label resolves the choices of the step. -/
structure Machine (σ α : Type*) where
  init : σ → Prop
  next : σ → α → Option σ

namespace Machine

variable {σ α : Type*}

/-- The states of the runs of `m` all of whose steps, seen from the state before them, satisfy
    `ok`. -/
inductive ReachableUnder (m : Machine σ α) (ok : σ → α → Prop) : σ → Prop
  | init {s : σ} (h : m.init s) : ReachableUnder m ok s
  | step {s s' : σ} {a : α} (h : ReachableUnder m ok s) (hok : ok s a)
      (hstep : m.next s a = some s') : ReachableUnder m ok s'

/-- The states of all runs of `m`. -/
def Reachable (m : Machine σ α) : σ → Prop := m.ReachableUnder fun _ _ => True

/-- Run the labels of a list one after the other. -/
def exec (m : Machine σ α) : σ → List α → Option σ
  | s, [] => some s
  | s, a :: rest => (m.next s a).bind fun s' => exec m s' rest

/-- Run the labels of a list as long as the discipline allows them. -/
def execUnder (m : Machine σ α) (ok : σ → α → Prop) [∀ s a, Decidable (ok s a)] :
    σ → List α → Option σ
  | s, [] => some s
  | s, a :: rest => if ok s a then (m.next s a).bind fun s' => execUnder m ok s' rest else none

/-! ## Invariants -/

/-- An inductive invariant holds in every state of every run; the step may use that its source is
    reachable, hence any invariant proved before. -/
theorem ReachableUnder.invariant {m : Machine σ α} {ok : σ → α → Prop} {I : σ → Prop}
    (hinit : ∀ s, m.init s → I s)
    (hstep : ∀ s a s', m.ReachableUnder ok s → I s → ok s a → m.next s a = some s' → I s')
    {s : σ} (h : m.ReachableUnder ok s) : I s := by
  induction h with
  | init h => exact hinit _ h
  | step h hok hnext ih => exact hstep _ _ _ h ih hok hnext

theorem ReachableUnder.mono {m : Machine σ α} {ok ok' : σ → α → Prop}
    (himp : ∀ s a, ok s a → ok' s a) {s : σ} (h : m.ReachableUnder ok s) :
    m.ReachableUnder ok' s := by
  induction h with
  | init h => exact .init h
  | step _ hok hnext ih => exact .step ih (himp _ _ hok) hnext

/-- A run under a discipline is a run. -/
theorem ReachableUnder.reachable {m : Machine σ α} {ok : σ → α → Prop} {s : σ}
    (h : m.ReachableUnder ok s) : m.Reachable s :=
  h.mono fun _ _ _ => trivial

theorem Reachable.init {m : Machine σ α} {s : σ} (h : m.init s) : m.Reachable s :=
  ReachableUnder.init h

theorem Reachable.step {m : Machine σ α} {s s' : σ} {a : α} (h : m.Reachable s)
    (hstep : m.next s a = some s') : m.Reachable s' :=
  ReachableUnder.step h trivial hstep

/-- `ReachableUnder.invariant` for the runs without a discipline. -/
theorem Reachable.invariant {m : Machine σ α} {I : σ → Prop}
    (hinit : ∀ s, m.init s → I s)
    (hstep : ∀ s a s', m.Reachable s → I s → m.next s a = some s' → I s')
    {s : σ} (h : m.Reachable s) : I s :=
  ReachableUnder.invariant hinit (fun s a s' hs hi _ hn => hstep s a s' hs hi hn) h

/-! ## Concrete runs -/

theorem Reachable.exec {m : Machine σ α} (labels : List α) {s s' : σ} (h : m.Reachable s)
    (he : m.exec s labels = some s') : m.Reachable s' := by
  induction labels generalizing s with
  | nil =>
      obtain rfl : s = s' := by simpa [Machine.exec] using he
      exact h
  | cons a rest ih =>
      simp only [Machine.exec, Option.bind_eq_some_iff] at he
      obtain ⟨t, ht, he⟩ := he
      exact ih (h.step ht) he

theorem ReachableUnder.exec {m : Machine σ α} {ok : σ → α → Prop} [∀ s a, Decidable (ok s a)]
    (labels : List α) {s s' : σ} (h : m.ReachableUnder ok s)
    (he : m.execUnder ok s labels = some s') : m.ReachableUnder ok s' := by
  induction labels generalizing s with
  | nil =>
      obtain rfl : s = s' := by simpa [Machine.execUnder] using he
      exact h
  | cons a rest ih =>
      simp only [Machine.execUnder, Option.ite_none_right_eq_some, Option.bind_eq_some_iff] at he
      obtain ⟨hok, t, ht, he⟩ := he
      exact ih (h.step hok ht) he

/-! ## What follows a reachable state -/

/-- A property that the steps from reachable states keep holds along every run from a reachable
    state in which it holds. -/
theorem Reachable.exec_invariant {m : Machine σ α} {Q : σ → Prop}
    (hstep : ∀ s a s', m.Reachable s → Q s → m.next s a = some s' → Q s')
    (labels : List α) {s s' : σ} (h : m.Reachable s) (hq : Q s)
    (he : m.exec s labels = some s') : Q s' := by
  induction labels generalizing s with
  | nil =>
      obtain rfl : s = s' := by simpa [Machine.exec] using he
      exact hq
  | cons a rest ih =>
      simp only [Machine.exec, Option.bind_eq_some_iff] at he
      obtain ⟨t, ht, he⟩ := he
      exact ih (h.step ht) (hstep s a t h hq ht) he

/-- No step is possible. -/
def Final (m : Machine σ α) (s : σ) : Prop := ∀ a, m.next s a = none

/-- If from every state with `Q` outside `T` some step lowers a measure and keeps `Q`, a run leads
    to a state in `T`. -/
theorem exists_exec_of_measure {m : Machine σ α} {Q T : σ → Prop} (f : σ → ℕ)
    (hprogress : ∀ s, Q s → ¬ T s → ∃ a s', m.next s a = some s' ∧ Q s' ∧ f s' < f s)
    {s : σ} (h : Q s) : ∃ labels s', m.exec s labels = some s' ∧ Q s' ∧ T s' := by
  induction hn : f s using Nat.strongRecOn generalizing s with
  | ind n ih =>
      by_cases hT : T s
      · exact ⟨[], s, rfl, h, hT⟩
      · obtain ⟨a, t, hnext, ht, hlt⟩ := hprogress s h hT
        obtain ⟨labels, s', he, hs', hf⟩ := ih (f t) (by omega) ht rfl
        refine ⟨a :: labels, s', ?_, hs', hf⟩
        rw [Machine.exec, hnext]
        exact he

/-- If every step lowers a measure, every run can be continued to a state without a step. -/
theorem exists_exec_final {m : Machine σ α} (f : σ → ℕ)
    (hless : ∀ s a s', m.next s a = some s' → f s' < f s) (s : σ) :
    ∃ labels s', m.exec s labels = some s' ∧ m.Final s' := by
  have hprogress : ∀ s, True → ¬ m.Final s →
      ∃ a s', m.next s a = some s' ∧ True ∧ f s' < f s := by
    intro s _ hmoves
    obtain ⟨a, ha⟩ := not_forall.1 hmoves
    obtain ⟨s', hs'⟩ := Option.ne_none_iff_exists'.1 ha
    exact ⟨a, s', hs', trivial, hless s a s' hs'⟩
  obtain ⟨labels, s', he, -, hfinal⟩ := exists_exec_of_measure f hprogress (s := s) trivial
  exact ⟨labels, s', he, hfinal⟩

/-- No run from `s` goes on for ever. -/
def Halts (m : Machine σ α) (s : σ) : Prop :=
  ¬ ∃ run : ℕ → σ, run 0 = s ∧ ∀ n, ∃ a, m.next (run n) a = some (run (n + 1))

/-- States with a rank that every step lowers. -/
theorem halts_of_rank {ι : Type*} [LT ι] [WellFoundedLT ι] {m : Machine σ α} {P : ι → σ → Prop}
    (hstep : ∀ i s a s', P i s → m.next s a = some s' → ∃ j < i, P j s') {i : ι} {s : σ}
    (h : P i s) : m.Halts s := by
  induction i using WellFoundedLT.induction generalizing s with
  | ind i ih =>
      rintro ⟨run, rfl, hrun⟩
      obtain ⟨a, ha⟩ := hrun 0
      obtain ⟨j, hj, hP⟩ := hstep i _ a _ h ha
      exact ih j hj hP ⟨fun n => run (n + 1), rfl, fun n => hrun (n + 1)⟩

/-! ## Properties of one run -/

/-- `P` holds in every state of the run of these labels; an impossible label ends the run. -/
def Always (m : Machine σ α) (P : σ → Prop) : σ → List α → Prop
  | s, [] => P s
  | s, a :: rest => P s ∧ ∀ s', m.next s a = some s' → m.Always P s' rest

/-- Every step of the run of these labels, seen from the state before it, satisfies `C`. -/
def EachStep (m : Machine σ α) (C : σ → α → Prop) : σ → List α → Prop
  | _, [] => True
  | s, a :: rest => ∀ s', m.next s a = some s' → C s a ∧ m.EachStep C s' rest

/-- Some step of the run of these labels, seen from the state before it, satisfies `C`. -/
def SomeStep (m : Machine σ α) (C : σ → α → Prop) : σ → List α → Prop
  | _, [] => False
  | s, a :: rest => ∃ s', m.next s a = some s' ∧ (C s a ∨ m.SomeStep C s' rest)

theorem Always.head {m : Machine σ α} {P : σ → Prop} {s : σ} {labels : List α}
    (h : m.Always P s labels) : P s := by
  cases labels with
  | nil => exact h
  | cons a rest => exact h.1

/-- Under an invariant, if a step keeps `P` exactly when it satisfies `C`, then `P` holds in every
    state of a run exactly when every step of the run satisfies `C`. -/
theorem always_iff_eachStep {m : Machine σ α} {I P : σ → Prop} {C : σ → α → Prop}
    (hinv : ∀ s a s', I s → m.next s a = some s' → I s')
    (hstep : ∀ s a s', I s → P s → m.next s a = some s' → (P s' ↔ C s a))
    (labels : List α) {s : σ} (hI : I s) (hP : P s) :
    m.Always P s labels ↔ m.EachStep C s labels := by
  induction labels generalizing s with
  | nil => exact iff_of_true hP trivial
  | cons a rest ih =>
      constructor
      · rintro ⟨-, hrest⟩ s' hnext
        have hP' := (hrest s' hnext).head
        exact ⟨(hstep s a s' hI hP hnext).1 hP',
          (ih (hinv s a s' hI hnext) hP').1 (hrest s' hnext)⟩
      · intro h
        refine ⟨hP, ?_⟩
        intro s' hnext
        obtain ⟨hC, hrest⟩ := h s' hnext
        exact (ih (hinv s a s' hI hnext) ((hstep s a s' hI hP hnext).2 hC)).2 hrest

/-- As long as `K` is kept, if `P` holds behind a step exactly when it did before or the step
    satisfies `C`, then `P` holds behind a run exactly when it did before or some step of the run
    satisfies `C`. -/
theorem exec_latch {m : Machine σ α} {I K P : σ → Prop} {C : σ → α → Prop}
    (hinv : ∀ s a s', I s → m.next s a = some s' → I s')
    (hkept : ∀ s a s', I s → m.next s a = some s' → K s' → K s)
    (hstep : ∀ s a s', I s → K s' → m.next s a = some s' → (P s' ↔ P s ∨ C s a))
    (labels : List α) {s s' : σ} (hI : I s) (he : m.exec s labels = some s') (hK : K s') :
    K s ∧ (P s' ↔ P s ∨ m.SomeStep C s labels) := by
  induction labels generalizing s with
  | nil =>
      obtain rfl : s = s' := by simpa [Machine.exec] using he
      exact ⟨hK, by simp [SomeStep]⟩
  | cons a rest ih =>
      simp only [Machine.exec, Option.bind_eq_some_iff] at he
      obtain ⟨t, hnext, he⟩ := he
      obtain ⟨hKt, hiff⟩ := ih (hinv s a t hI hnext) he
      refine ⟨hkept s a t hI hnext hKt, ?_⟩
      simp [hiff, hstep s a t hI hKt hnext, SomeStep, hnext, or_assoc]

end Machine

end SystemProgramming
