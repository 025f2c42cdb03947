import Mathlib.Data.List.Infix
import SystemProgramming.Lib.CText

set_option autoImplicit false

/-! # Path names

The name of a directory entry is a nonempty text without a slash, other than `.` and `..`. A path
below a directory is the directory's path followed by such names, each behind a slash: `under`. The
path determines the names (`under_injective`), and a name joined to a path is one more component
(`components_join`). -/

namespace SystemProgramming

/-- The name of an entry of a directory. -/
structure EntryName where
  text : Text
  nonempty : text ≠ []
  noSlash : '/' ∉ text
  notDot : text ≠ ['.']
  notDotDot : text ≠ ['.', '.']
deriving DecidableEq

/-- The text is the name of an entry. -/
def IsEntryName (s : Text) : Prop := ∃ name : EntryName, name.text = s

theorem isEntryName_iff {s : Text} :
    IsEntryName s ↔ s ≠ [] ∧ '/' ∉ s ∧ s ≠ ['.'] ∧ s ≠ ['.', '.'] := by
  constructor
  · rintro ⟨name, rfl⟩
    exact ⟨name.nonempty, name.noSlash, name.notDot, name.notDotDot⟩
  · rintro ⟨hempty, hslash, hdot, hdotdot⟩
    exact ⟨⟨s, hempty, hslash, hdot, hdotdot⟩, rfl⟩

instance (s : Text) : Decidable (IsEntryName s) := decidable_of_iff' _ isEntryName_iff

/-- A name of one character. -/
def EntryName.ofChar (c : Char) (hslash : c ≠ '/') (hdot : c ≠ '.') : EntryName where
  text := [c]
  nonempty := List.cons_ne_nil c []
  noSlash := fun hmem => hslash (List.mem_singleton.1 hmem).symm
  notDot := fun heq => hdot (List.singleton_inj.1 heq)
  notDotDot := nofun

/-- The path that leads from a directory along these names. -/
def under (dir : Text) (names : List EntryName) : Text :=
  dir ++ names.flatMap fun name => '/' :: name.text

@[simp] theorem under_nil (dir : Text) : under dir [] = dir := List.append_nil dir

theorem under_cons (dir : Text) (name : EntryName) (names : List EntryName) :
    under dir (name :: names) = under (dir ++ '/' :: name.text) names := by
  simp [under]

theorem under_append (dir : Text) (names rest : List EntryName) :
    under dir (names ++ rest) = under (under dir names) rest := by
  simp [under]

/-! ## The names of a path -/

/-- Empty, or at the slash before a next name. -/
def AtSlash (s : Text) : Prop := ∀ c ∈ s.head?, c = '/'

theorem atSlash_flatMap (names : List EntryName) :
    AtSlash (names.flatMap fun name => '/' :: name.text) := by
  cases names <;> simp [AtSlash]

/-- A text without a slash ends at the slash behind it. -/
theorem takeWhile_ne_slash {s rest : Text} (hs : '/' ∉ s) (hrest : AtSlash rest) :
    (s ++ rest).takeWhile (· ≠ '/') = s := by
  have hkeep : ∀ c ∈ s, decide (c ≠ '/') = true := by
    intro c hc
    simpa using fun h : c = '/' => hs (h ▸ hc)
  rw [List.takeWhile_append_of_pos hkeep]
  cases rest with
  | nil => simp
  | cons c rest => simp [hrest c rfl]

theorem under_injective (dir : Text) : Function.Injective (under dir) := by
  intro names rest h
  replace h := List.append_cancel_left h
  induction names generalizing rest with
  | nil => cases rest <;> simp_all
  | cons name names ih =>
      cases rest with
      | nil => simp at h
      | cons other rest =>
          simp only [List.flatMap_cons, List.cons_append, List.cons.injEq, true_and] at h
          have htext : name.text = other.text := by
            rw [← takeWhile_ne_slash name.noSlash (atSlash_flatMap names), h,
              takeWhile_ne_slash other.noSlash (atSlash_flatMap rest)]
          rw [htext] at h
          obtain rfl : name = other := by
            cases name
            cases other
            cases htext
            rfl
          rw [ih (List.append_cancel_left h)]

/-! ## Components -/

/-- A component of a path: `.`, `..` or the name of an entry. -/
inductive Component
  | here
  | up
  | name (n : EntryName)
deriving DecidableEq

/-- The component that a text without a slash stands for; nothing between two slashes is none. -/
def component (s : Text) : Option Component :=
  if hempty : s = [] then none
  else if hdot : s = ['.'] then some .here
  else if hdotdot : s = ['.', '.'] then some .up
  else if hslash : '/' ∈ s then none
  else some (.name ⟨s, hempty, hslash, hdot, hdotdot⟩)

/-- The components of a path. -/
def components (path : Text) : List Component := (path.splitOn '/').filterMap component

theorem component_text (name : EntryName) : component name.text = some (.name name) := by
  simp [component, name.nonempty, name.notDot, name.notDotDot, name.noSlash]

/-- The text of a component. -/
def Component.text : Component → Text
  | here => ['.']
  | up => ['.', '.']
  | name n => n.text

theorem text_of_component {s : Text} {c : Component} (h : component s = some c) : c.text = s := by
  unfold component at h
  split at h
  · cases h
  · split at h
    · next hs =>
        cases h
        exact hs.symm
    · split at h
      · next hs =>
          cases h
          exact hs.symm
      · split at h
        · cases h
        · cases h
          rfl

theorem components_join (dir : Text) (name : EntryName) :
    components (dir ++ '/' :: name.text) = components dir ++ [.name name] := by
  rw [components, List.splitOn_append_cons_self, List.splitOn_eq_singleton name.noSlash,
    List.filterMap_append, List.filterMap_cons, component_text]
  rfl

end SystemProgramming
