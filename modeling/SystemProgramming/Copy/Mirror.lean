import Mathlib.Data.List.Nodup
import SystemProgramming.Copy.Directory
import SystemProgramming.Lib.PathName

set_option autoImplicit false

/-! # The walk mirrors the tree

`copy_directory` on a finite tree that does not change, in an environment in which every open and
every `mkdir` succeeds and `readdir` knows the type of every entry. `Listing` is such a tree as
`readdir` delivers it: the entries of a directory in some order, each subdirectory with its own
entries. The calls of the walk are computed from the tree (`run_listing`), if it is not too deep for
the stack (`crashes_listing`); what is pushed, and what is made before what is opened, is then read
off by induction over the tree. -/

namespace SystemProgramming.Copy

variable {φ : Type}

/-! ## Trees -/

/-- The entries of a directory in the order of `readdir`. -/
inductive Listing
  | nil
  /-- the entry `.`, or `..` -/
  | dots (parent : Bool) (rest : Listing)
  | file (name : EntryName) (rest : Listing)
  | dir (name : EntryName) (entries : Listing) (rest : Listing)

namespace Listing

/-- What `readdir` delivers. -/
def dirents : Listing → List Dirent
  | nil => []
  | dots parent rest => ⟨if parent then ['.', '.'] else ['.'], true⟩ :: rest.dirents
  | file name rest => ⟨name.text, false⟩ :: rest.dirents
  | dir name _ rest => ⟨name.text, true⟩ :: rest.dirents

/-- The names of the entries, without `.` and `..`. -/
def names : Listing → List EntryName
  | nil => []
  | dots _ rest => rest.names
  | file name rest | dir name _ rest => name :: rest.names

/-- No directory of the tree has two entries of the same name. -/
def Distinct : Listing → Prop
  | nil => True
  | dots _ rest => rest.Distinct
  | file name rest => name ∉ rest.names ∧ rest.Distinct
  | dir name entries rest => name ∉ rest.names ∧ entries.Distinct ∧ rest.Distinct

instance decidableDistinct : (t : Listing) → Decidable t.Distinct
  | nil => isTrue trivial
  | dots _ rest => decidableDistinct rest
  | file _ rest =>
      have := decidableDistinct rest
      inferInstanceAs (Decidable (_ ∧ _))
  | dir _ entries rest =>
      have := decidableDistinct entries
      have := decidableDistinct rest
      inferInstanceAs (Decidable (_ ∧ _ ∧ _))

/-- The regular files of the tree, at any depth: the names on the way to each. -/
def files : Listing → List (List EntryName)
  | nil => []
  | dots _ rest => rest.files
  | file name rest => [name] :: rest.files
  | dir name entries rest => entries.files.map (name :: ·) ++ rest.files

/-- How deep directories are nested below the top. -/
def depth : Listing → ℕ
  | nil => 0
  | dots _ rest | file _ rest => rest.depth
  | dir _ entries rest => max (entries.depth + 1) rest.depth

/-- The directories below the top, at any depth. -/
def subdirs : Listing → List (List EntryName)
  | nil => []
  | dots _ rest | file _ rest => rest.subdirs
  | dir name entries rest => [name] :: entries.subdirs.map (name :: ·) ++ rest.subdirs

end Listing

/-! ## The environment -/

/-- An environment that does not change while the walk goes on: what `opendir` and `readdir`
    deliver for each path, whether `mkdir` finds the directory there already, and the descriptors
    that `open` answers. -/
structure TreeEnv (φ : Type) where
  dirs : Text → Option (List Dirent)
  made : Text → Bool
  opened : Text → φ
  created : Text → φ

/-- The replies; a `DIR *` refers to the entries that are left to read. -/
def TreeEnv.answer (env : TreeEnv φ) : (c : SysCall (List Dirent) φ) → Reply c
  | .opendir path => env.dirs path
  | .mkdir path => if env.made path then MkdirResult.made else MkdirResult.eexist
  | .readdir [] => (none, [])
  | .readdir (entry :: rest) => (some entry, rest)
  | .openSrc path => some (env.opened path)
  | .openDest path => some (env.created path)
  | .closedir _ | .close _ | .push _ | .destroyBuffer | .exit => ()

/-- The subdirectories of the directory `path` are there to be read. -/
def TreeEnv.HoldsBelow (env : TreeEnv φ) (path : Text) : Listing → Prop
  | .nil => True
  | .dots _ rest | .file _ rest => env.HoldsBelow path rest
  | .dir name entries rest =>
      env.dirs (path ++ '/' :: name.text) = some entries.dirents ∧
        env.HoldsBelow (path ++ '/' :: name.text) entries ∧ env.HoldsBelow path rest

/-- `path` is the directory with this tree. -/
def TreeEnv.Holds (env : TreeEnv φ) (path : Text) (t : Listing) : Prop :=
  env.dirs path = some t.dirents ∧ env.HoldsBelow path t

/-- The paths of the tree, seen from `path`, stay below `PATH_MAX`. -/
def Fits (path : Text) (t : Listing) : Prop :=
  ∀ names ∈ t.files ++ t.subdirs, (under path names).length < pathMax

instance (path : Text) (t : Listing) : Decidable (Fits path t) :=
  inferInstanceAs (Decidable (∀ names ∈ t.files ++ t.subdirs, _))

/-! ## Runs of the walk -/

/-- The calls of the walk in its next `n` steps, and where it is then; on a stack for `stack` calls
    of `copy_directory`. -/
def Walk.run (v : Version) (stack : ℕ) (env : TreeEnv φ) :
    ℕ → Walk (List Dirent) φ → List (SysCall (List Dirent) φ) × Walk (List Dirent) φ
  | 0, w => ([], w)
  | n + 1, w =>
      if w.overflows stack then ([], w)
      else
        match w.next v with
        | none => ([], w)
        | some ⟨c, resume⟩ => (c :: (run v stack env n (resume (env.answer c))).1,
            (run v stack env n (resume (env.answer c))).2)

/-- The walk makes these calls and is then at `w'`. -/
def Walk.Does (v : Version) (stack : ℕ) (env : TreeEnv φ) (w : Walk (List Dirent) φ)
    (calls : List (SysCall (List Dirent) φ)) (w' : Walk (List Dirent) φ) : Prop :=
  ∃ n, Walk.run v stack env n w = (calls, w')

/-- The walk makes no further call. -/
def Walk.Halted (v : Version) (stack : ℕ) (w : Walk (List Dirent) φ) : Prop :=
  w.overflows stack = true ∨ w.next v = none

namespace Walk

variable {v : Version} {stack : ℕ} {env : TreeEnv φ} {w w' w'' : Walk (List Dirent) φ}
  {c : SysCall (List Dirent) φ} {calls calls' : List (SysCall (List Dirent) φ)}

theorem run_of_halted (h : w.Halted v stack) (n : ℕ) : run v stack env n w = ([], w) := by
  cases n with
  | zero => rfl
  | succ n =>
      rw [run]
      rcases h with h | h
      · rw [if_pos h]
      · rw [h, ite_self]

theorem run_add (n m : ℕ) (w : Walk (List Dirent) φ) :
    run v stack env (n + m) w = ((run v stack env n w).1 ++
      (run v stack env m (run v stack env n w).2).1,
        (run v stack env m (run v stack env n w).2).2) := by
  induction n generalizing w with
  | zero => rw [Nat.zero_add, run, List.nil_append]
  | succ n ih =>
      rw [Nat.add_right_comm]
      by_cases hstack : w.overflows stack = true
      · rw [run_of_halted (.inl hstack), run_of_halted (.inl hstack), run_of_halted (.inl hstack),
          List.nil_append]
      · cases hnext : w.next v with
        | none =>
            rw [run_of_halted (.inr hnext), run_of_halted (.inr hnext), run_of_halted (.inr hnext),
              List.nil_append]
        | some step =>
            simp only [run, if_neg hstack, hnext, ih, List.cons_append]

theorem Does.refl : Does v stack env w [] w := ⟨0, rfl⟩

theorem Does.call {resume : Reply c → Walk (List Dirent) φ} (hstack : w.overflows stack = false)
    (h : w.next v = some ⟨c, resume⟩)
    (hrest : Does v stack env (resume (env.answer c)) calls w') :
    Does v stack env w (c :: calls) w' := by
  obtain ⟨n, hn⟩ := hrest
  refine ⟨n + 1, ?_⟩
  rw [run, if_neg (by rw [hstack]; exact Bool.false_ne_true), h]
  dsimp only
  rw [hn]

theorem Does.trans (h : Does v stack env w calls w') (h' : Does v stack env w' calls' w'') :
    Does v stack env w (calls ++ calls') w'' := by
  obtain ⟨n, hn⟩ := h
  obtain ⟨m, hm⟩ := h'
  refine ⟨n + m, ?_⟩
  rw [run_add, hn, hm]

/-- The walk comes to a call of `copy_directory` that does not fit on the stack. -/
def Crashes (v : Version) (stack : ℕ) (env : TreeEnv φ) (w : Walk (List Dirent) φ) : Prop :=
  ∃ calls w', Does v stack env w calls w' ∧ w'.overflows stack = true

theorem Crashes.here (h : w.overflows stack = true) : Crashes v stack env w :=
  ⟨[], w, Does.refl, h⟩

theorem Does.crashes (h : Does v stack env w calls w') (hcrash : Crashes v stack env w') :
    Crashes v stack env w := by
  obtain ⟨calls', w'', hdoes, hw⟩ := hcrash
  exact ⟨calls ++ calls', w'', h.trans hdoes, hw⟩

theorem Crashes.call {resume : Reply c → Walk (List Dirent) φ} (hstack : w.overflows stack = false)
    (h : w.next v = some ⟨c, resume⟩) (hrest : Crashes v stack env (resume (env.answer c))) :
    Crashes v stack env w :=
  (Does.call hstack h Does.refl).crashes hrest

/-- The walk halts in one way only. -/
theorem Does.unique (h : Does v stack env w calls w') (hhalt : w'.Halted v stack)
    (h' : Does v stack env w calls' w'') (hhalt' : w''.Halted v stack) : w' = w'' := by
  obtain ⟨n, hn⟩ := h
  obtain ⟨m, hm⟩ := h'
  have hfirst : run v stack env (n + m) w = _ := run_add n m w
  have hsecond : run v stack env (m + n) w = _ := run_add m n w
  rw [hn, run_of_halted hhalt] at hfirst
  rw [hm, run_of_halted hhalt', Nat.add_comm, hfirst] at hsecond
  exact (Prod.mk.inj hsecond).2

end Walk

/-! ## The calls on a tree -/

/-- The calls of the loop on the entries of a directory. -/
def Listing.calls (env : TreeEnv φ) (srcDir destDir : Text) :
    Listing → List (SysCall (List Dirent) φ)
  | .nil => [.readdir [], .closedir []]
  | .dots parent rest => .readdir (dots parent rest).dirents :: rest.calls env srcDir destDir
  | .file name rest =>
      let srcPath := srcDir ++ '/' :: name.text
      let destPath := destDir ++ '/' :: name.text
      .readdir (file name rest).dirents :: .openSrc srcPath :: .openDest destPath ::
        .push ⟨env.opened srcPath, env.created destPath, itemName name.text⟩ ::
        rest.calls env srcDir destDir
  | .dir name entries rest =>
      let srcPath := srcDir ++ '/' :: name.text
      let destPath := destDir ++ '/' :: name.text
      .readdir (dir name entries rest).dirents :: .opendir srcPath :: .mkdir destPath ::
        (entries.calls env srcPath destPath ++ rest.calls env srcDir destDir)

/-- The calls of `copy_directory` on the whole tree. -/
def treeCalls (env : TreeEnv φ) (srcDir destDir : Text) (t : Listing) :
    List (SysCall (List Dirent) φ) :=
  .opendir srcDir :: .mkdir destDir :: t.calls env srcDir destDir

section Fits

variable {path : Text} {name : EntryName} {entries rest : Listing}

theorem Fits.join_file (h : Fits path (.file name rest)) :
    (path ++ '/' :: name.text).length < pathMax := by
  have := h [name] (by simp [Listing.files])
  rwa [under_cons, under_nil] at this

theorem Fits.rest_file (h : Fits path (.file name rest)) : Fits path rest := by
  intro names hnames
  refine h names ?_
  simp only [Listing.files, Listing.subdirs, List.cons_append]
  exact List.mem_cons_of_mem _ hnames

theorem Fits.join_dir (h : Fits path (.dir name entries rest)) :
    (path ++ '/' :: name.text).length < pathMax := by
  have := h [name] (by simp [Listing.subdirs])
  rwa [under_cons, under_nil] at this

theorem Fits.entries_dir (h : Fits path (.dir name entries rest)) :
    Fits (path ++ '/' :: name.text) entries := by
  intro names hnames
  rw [← under_cons]
  refine h _ ?_
  rcases List.mem_append.1 hnames with hn | hn <;>
    simp [Listing.files, Listing.subdirs, hn]

theorem Fits.rest_dir (h : Fits path (.dir name entries rest)) : Fits path rest := by
  intro names hnames
  refine h names ?_
  rcases List.mem_append.1 hnames with hn | hn <;>
    simp [Listing.files, Listing.subdirs, hn]

end Fits

section Entries

variable {f : Frame (List Dirent)}

theorem onEntry_dots (parent : Bool) :
    (Walk.onEntry f ⟨if parent then ['.', '.'] else ['.'], true⟩ : WalkPC (List Dirent) φ) =
      .reading := by
  cases parent <;> simp [Walk.onEntry]

theorem onEntry_file {name : EntryName} (hsrc : (f.srcDir ++ '/' :: name.text).length < pathMax)
    (hdest : (f.destDir ++ '/' :: name.text).length < pathMax) :
    (Walk.onEntry f ⟨name.text, false⟩ : WalkPC (List Dirent) φ) =
      .openingSrc (f.srcDir ++ '/' :: name.text) (f.destDir ++ '/' :: name.text) name.text := by
  simp [Walk.onEntry, name.notDot, name.notDotDot, joinPath_eq hsrc, joinPath_eq hdest]

theorem onEntry_dir {name : EntryName} (hsrc : (f.srcDir ++ '/' :: name.text).length < pathMax)
    (hdest : (f.destDir ++ '/' :: name.text).length < pathMax) :
    (Walk.onEntry f ⟨name.text, true⟩ : WalkPC (List Dirent) φ) =
      .opening (f.srcDir ++ '/' :: name.text) (f.destDir ++ '/' :: name.text) := by
  simp [Walk.onEntry, name.notDot, name.notDotDot, joinPath_eq hsrc, joinPath_eq hdest]

end Entries

/-- The start of `copy_directory`, on a directory that opens: its loop begins. -/
theorem does_enter {v : Version} {stack : ℕ} {env : TreeEnv φ} {srcDir destDir : Text} {t : Listing}
    (h : env.dirs srcDir = some t.dirents) {loops : List (Frame (List Dirent))}
    (hstack : loops.length < stack) :
    Walk.Does v stack env ⟨.opening srcDir destDir, loops⟩ [.opendir srcDir, .mkdir destDir]
      ⟨.reading, ⟨t.dirents, srcDir, destDir⟩ :: loops⟩ := by
  refine Walk.Does.call (decide_eq_false (by omega)) rfl ?_
  rw [TreeEnv.answer, h]
  refine Walk.Does.call rfl rfl ?_
  rw [TreeEnv.answer]
  cases env.made destDir <;> exact Walk.Does.refl

/-- The loop on the entries of a directory makes the calls of its tree, and is left. -/
theorem run_listing (v : Version) {stack : ℕ} {env : TreeEnv φ} {t : Listing}
    {srcDir destDir : Text} (hbelow : env.HoldsBelow srcDir t) (hsrc : Fits srcDir t)
    (hdest : Fits destDir t) {loops : List (Frame (List Dirent))}
    (hdepth : loops.length + t.depth < stack) :
    Walk.Does v stack env ⟨.reading, ⟨t.dirents, srcDir, destDir⟩ :: loops⟩
      (t.calls env srcDir destDir) ⟨.reading, loops⟩ := by
  induction t generalizing srcDir destDir loops with
  | nil => exact Walk.Does.call rfl rfl (Walk.Does.call rfl rfl Walk.Does.refl)
  | dots parent rest ih =>
      refine Walk.Does.call rfl rfl ?_
      show Walk.Does v stack env ⟨Walk.onEntry _ _, _⟩ _ _
      rw [onEntry_dots]
      exact ih hbelow hsrc hdest hdepth
  | file name rest ih =>
      refine Walk.Does.call rfl rfl ?_
      show Walk.Does v stack env ⟨Walk.onEntry _ _, _⟩ _ _
      rw [onEntry_file hsrc.join_file hdest.join_file]
      refine Walk.Does.call rfl rfl (Walk.Does.call rfl rfl (Walk.Does.call rfl rfl ?_))
      exact ih hbelow hsrc.rest_file hdest.rest_file hdepth
  | dir name entries rest ihEntries ihRest =>
      obtain ⟨hdirs, hentries, hrest⟩ := hbelow
      rw [Listing.depth] at hdepth
      refine Walk.Does.call rfl rfl ?_
      show Walk.Does v stack env ⟨Walk.onEntry _ _, _⟩ _ _
      rw [onEntry_dir hsrc.join_dir hdest.join_dir]
      -- the recursive call runs with this loop below it on the stack, and comes back to it
      refine (does_enter hdirs (by rw [List.length_cons]; omega)).trans ?_
      refine (ihEntries hentries hsrc.entries_dir hdest.entries_dir
        (by rw [List.length_cons]; omega)).trans ?_
      exact ihRest hrest hsrc.rest_dir hdest.rest_dir (by omega)

/-- On a tree that is too deep for the stack the loop comes to a call that does not fit. -/
theorem crashes_listing (v : Version) {stack : ℕ} {env : TreeEnv φ} {t : Listing}
    {srcDir destDir : Text} (hbelow : env.HoldsBelow srcDir t) (hsrc : Fits srcDir t)
    (hdest : Fits destDir t) {loops : List (Frame (List Dirent))} (hloops : loops.length < stack)
    (hdepth : stack ≤ loops.length + t.depth) :
    Walk.Crashes v stack env ⟨.reading, ⟨t.dirents, srcDir, destDir⟩ :: loops⟩ := by
  induction t generalizing srcDir destDir loops with
  | nil =>
      rw [Listing.depth] at hdepth
      omega
  | dots parent rest ih =>
      refine Walk.Crashes.call rfl rfl ?_
      show Walk.Crashes v stack env ⟨Walk.onEntry _ _, _⟩
      rw [onEntry_dots]
      exact ih hbelow hsrc hdest hloops hdepth
  | file name rest ih =>
      refine Walk.Crashes.call rfl rfl ?_
      show Walk.Crashes v stack env ⟨Walk.onEntry _ _, _⟩
      rw [onEntry_file hsrc.join_file hdest.join_file]
      refine Walk.Crashes.call rfl rfl (Walk.Crashes.call rfl rfl (Walk.Crashes.call rfl rfl ?_))
      exact ih hbelow hsrc.rest_file hdest.rest_file hloops hdepth
  | dir name entries rest ihEntries ihRest =>
      obtain ⟨hdirs, hentries, hrest⟩ := hbelow
      rw [Listing.depth] at hdepth
      refine Walk.Crashes.call rfl rfl ?_
      show Walk.Crashes v stack env ⟨Walk.onEntry _ _, _⟩
      rw [onEntry_dir hsrc.join_dir hdest.join_dir]
      -- this subdirectory does not fit, or something in it, or something behind it
      by_cases hfits : loops.length + 1 < stack
      · refine (does_enter hdirs hfits).crashes ?_
        by_cases hin : stack ≤ loops.length + 1 + entries.depth
        · exact ihEntries hentries hsrc.entries_dir hdest.entries_dir hfits hin
        · refine (run_listing v hentries hsrc.entries_dir hdest.entries_dir
            (Nat.lt_of_not_le hin)).crashes ?_
          exact ihRest hrest hsrc.rest_dir hdest.rest_dir hloops (by omega)
      · exact Walk.Crashes.here (decide_eq_true (Nat.le_of_not_lt hfits))

/-! ## What is opened and pushed -/

/-- The name of the last entry on the way. -/
def baseName (names : List EntryName) : Text := (names.getLast?.map EntryName.text).getD []

/-- The item for the regular file at a position of the tree. -/
def fileItem (env : TreeEnv φ) (srcDir destDir : Text) (names : List EntryName) :
    BufferElement φ :=
  ⟨env.opened (under srcDir names), env.created (under destDir names), itemName (baseName names)⟩

/-- The calls for one regular file: its source is opened, its destination, and both are pushed. -/
def fileCalls (env : TreeEnv φ) (srcDir destDir : Text) (names : List EntryName) :
    List (SysCall (List Dirent) φ) :=
  [.openSrc (under srcDir names), .openDest (under destDir names),
    .push (fileItem env srcDir destDir names)]

/-- The call opens a file or pushes an item. -/
def SysCall.isFileCall {δ : Type} : SysCall δ φ → Bool
  | .openSrc _ | .openDest _ | .push _ => true
  | _ => false

/-- The item that the call pushes. -/
def SysCall.pushed? {δ : Type} : SysCall δ φ → Option (BufferElement φ)
  | .push item => some item
  | _ => none

theorem exists_head_of_mem_files {t : Listing} {names : List EntryName} (h : names ∈ t.files) :
    ∃ name rest, names = name :: rest ∧ name ∈ t.names := by
  induction t with
  | nil => simp [Listing.files] at h
  | dots parent rest ih => exact ih h
  | file name rest ih =>
      rcases List.mem_cons.1 h with rfl | h
      · exact ⟨name, [], rfl, List.mem_cons_self⟩
      · obtain ⟨n, more, hn, hmem⟩ := ih h
        exact ⟨n, more, hn, List.mem_cons_of_mem _ hmem⟩
  | dir name entries rest _ ih =>
      rcases List.mem_append.1 h with h | h
      · obtain ⟨below, -, rfl⟩ := List.mem_map.1 h
        exact ⟨name, below, rfl, List.mem_cons_self⟩
      · obtain ⟨n, more, hn, hmem⟩ := ih h
        exact ⟨n, more, hn, List.mem_cons_of_mem _ hmem⟩

theorem exists_head_of_mem_subdirs {t : Listing} {names : List EntryName}
    (h : names ∈ t.subdirs) : ∃ name rest, names = name :: rest ∧ name ∈ t.names := by
  induction t with
  | nil => simp [Listing.subdirs] at h
  | dots parent rest ih => exact ih h
  | file name rest ih =>
      obtain ⟨n, more, hn, hmem⟩ := ih h
      exact ⟨n, more, hn, List.mem_cons_of_mem _ hmem⟩
  | dir name entries rest _ ih =>
      rcases List.mem_append.1 h with h | h
      · rcases List.mem_cons.1 h with rfl | h
        · exact ⟨name, [], rfl, List.mem_cons_self⟩
        · obtain ⟨below, -, rfl⟩ := List.mem_map.1 h
          exact ⟨name, below, rfl, List.mem_cons_self⟩
      · obtain ⟨n, more, hn, hmem⟩ := ih h
        exact ⟨n, more, hn, List.mem_cons_of_mem _ hmem⟩

theorem nodup_files {t : Listing} (h : t.Distinct) : t.files.Nodup := by
  -- a position in the rest of the directory starts with another name
  have hother : ∀ {name : EntryName} {rest : Listing} {below : List EntryName},
      name ∉ rest.names → name :: below ∉ rest.files := by
    intro name rest below hname hmem
    obtain ⟨n, more, heq, hn⟩ := exists_head_of_mem_files hmem
    obtain ⟨rfl, -⟩ := List.cons.inj heq
    exact hname hn
  induction t with
  | nil => exact List.nodup_nil
  | dots parent rest ih => exact ih h
  | file name rest ih => exact List.nodup_cons.2 ⟨hother h.1, ih h.2⟩
  | dir name entries rest ihEntries ihRest =>
      refine List.Nodup.append ((ihEntries h.2.1).map List.cons_injective) (ihRest h.2.2) ?_
      intro names hentry hrest
      obtain ⟨below, -, rfl⟩ := List.mem_map.1 hentry
      exact hother h.1 hrest

/-- The item of a file in a subdirectory, seen from the directory. -/
theorem fileCalls_cons (env : TreeEnv φ) (srcDir destDir : Text) (name : EntryName)
    {names : List EntryName} (h : names ≠ []) :
    fileCalls env (srcDir ++ '/' :: name.text) (destDir ++ '/' :: name.text) names =
      fileCalls env srcDir destDir (name :: names) := by
  simp only [fileCalls, fileItem, baseName, under_cons, List.getLast?_cons_of_ne_nil h]

/-- The calls on files are those of the files of the tree, one file after the other. -/
theorem filter_isFileCall_calls (env : TreeEnv φ) (t : Listing) (srcDir destDir : Text) :
    (t.calls env srcDir destDir).filter SysCall.isFileCall =
      t.files.flatMap (fileCalls env srcDir destDir) := by
  induction t generalizing srcDir destDir with
  | nil => rfl
  | dots parent rest ih => exact ih srcDir destDir
  | file name rest ih =>
      have hcalls : fileCalls env srcDir destDir [name] =
          [.openSrc (srcDir ++ '/' :: name.text), .openDest (destDir ++ '/' :: name.text),
            .push ⟨env.opened (srcDir ++ '/' :: name.text),
              env.created (destDir ++ '/' :: name.text), itemName name.text⟩] := by
        simp [fileCalls, fileItem, baseName, under_cons]
      rw [Listing.files, List.flatMap_cons, hcalls, ← ih]
      rfl
  | dir name entries rest ihEntries ihRest =>
      simp only [Listing.calls, Listing.files, List.flatMap_append, List.flatMap_map, ← ihRest]
      have hentries : (entries.files.flatMap fun names => fileCalls env srcDir destDir
          (name :: names)) = entries.files.flatMap
            (fileCalls env (srcDir ++ '/' :: name.text) (destDir ++ '/' :: name.text)) := by
        refine List.flatMap_congr ?_
        intro names hnames
        obtain ⟨n, more, rfl, -⟩ := exists_head_of_mem_files hnames
        exact (fileCalls_cons env srcDir destDir name (List.cons_ne_nil _ _)).symm
      rw [hentries, ← ihEntries]
      simp [SysCall.isFileCall]

theorem pushed_eq {calls : List (SysCall (List Dirent) φ)} {env : TreeEnv φ} {srcDir destDir : Text}
    {positions : List (List EntryName)} (h : calls.filter SysCall.isFileCall =
      positions.flatMap (fileCalls env srcDir destDir)) :
    calls.filterMap SysCall.pushed? = positions.map (fileItem env srcDir destDir) := by
  have hfilter : calls.filterMap SysCall.pushed? =
      (calls.filter SysCall.isFileCall).filterMap SysCall.pushed? := by
    rw [List.filterMap_filter]
    refine List.filterMap_congr ?_
    intro c _
    cases c <;> rfl
  rw [hfilter, h, List.filterMap_flatMap]
  exact List.map_eq_flatMap.symm

/-! ## What is made before what is opened -/

theorem mem_calls_openDest {env : TreeEnv φ} {t : Listing} {srcDir destDir path : Text}
    (h : .openDest path ∈ t.calls env srcDir destDir) :
    ∃ names ∈ t.files, path = under destDir names := by
  have hfile : .openDest path ∈ (t.calls env srcDir destDir).filter SysCall.isFileCall :=
    List.mem_filter.2 ⟨h, rfl⟩
  rw [filter_isFileCall_calls, List.mem_flatMap] at hfile
  obtain ⟨names, hnames, hmem⟩ := hfile
  refine ⟨names, hnames, ?_⟩
  simpa [fileCalls] using hmem

theorem mem_calls_mkdir {env : TreeEnv φ} {t : Listing} {srcDir destDir path : Text} :
    .mkdir path ∈ t.calls env srcDir destDir ↔
      ∃ names ∈ t.subdirs, path = under destDir names := by
  induction t generalizing srcDir destDir with
  | nil => simp [Listing.calls, Listing.subdirs]
  | dots parent rest ih => simp [Listing.calls, Listing.subdirs, ih]
  | file name rest ih => simp [Listing.calls, Listing.subdirs, ih]
  | dir name entries rest ihEntries ihRest =>
      simp only [Listing.calls, Listing.subdirs]
      simp [ihEntries, ihRest, under_cons, or_and_right, exists_or]

/-- `a` does not open a destination below the directory that `b` makes. -/
def NotBelow (a b : SysCall (List Dirent) φ) : Prop :=
  ∀ path dir, a = .openDest path → b = .mkdir dir → ∀ more, path ≠ under dir more

theorem pairwise_notBelow_cons {a : SysCall (List Dirent) φ}
    {calls : List (SysCall (List Dirent) φ)} (h : ∀ path, a ≠ .openDest path)
    (hcalls : calls.Pairwise NotBelow) : (a :: calls).Pairwise NotBelow :=
  List.pairwise_cons.2 ⟨fun _ _ path _ ha => absurd ha (h path), hcalls⟩

/-- Nothing is opened below an entry of a directory once another entry of it is made. -/
theorem notBelow_of_head {env : TreeEnv φ} {rest : Listing} {srcDir destDir : Text}
    {name : EntryName} (hname : name ∉ rest.names) (below : List EntryName)
    {b : SysCall (List Dirent) φ} (hb : b ∈ rest.calls env srcDir destDir) :
    NotBelow (.openDest (under destDir (name :: below))) b := by
  rintro path dir heq rfl more rfl
  obtain ⟨names, hnames, rfl⟩ := mem_calls_mkdir.1 hb
  rw [SysCall.openDest.injEq, ← under_append] at heq
  obtain ⟨n, tail, rfl, hn⟩ := exists_head_of_mem_subdirs hnames
  have hcons := under_injective destDir heq
  rw [List.cons_append] at hcons
  obtain ⟨rfl, -⟩ := List.cons.inj hcons
  exact hname hn

/-- No destination is opened before a directory above it is made. -/
theorem pairwise_notBelow (env : TreeEnv φ) {t : Listing} (h : t.Distinct)
    (srcDir destDir : Text) : (t.calls env srcDir destDir).Pairwise NotBelow := by
  induction t generalizing srcDir destDir with
  | nil => simp [Listing.calls, NotBelow]
  | dots parent rest ih =>
      exact pairwise_notBelow_cons (by nofun) (ih h srcDir destDir)
  | file name rest ih =>
      refine pairwise_notBelow_cons (by nofun) (pairwise_notBelow_cons (by nofun) ?_)
      refine List.pairwise_cons.2
        ⟨?_, pairwise_notBelow_cons (by nofun) (ih h.2 srcDir destDir)⟩
      intro b hb
      rcases List.mem_cons.1 hb with rfl | hb
      · nofun
      · have := notBelow_of_head h.1 [] hb
        rwa [under_cons, under_nil] at this
  | dir name entries rest ihEntries ihRest =>
      refine pairwise_notBelow_cons (by nofun) (pairwise_notBelow_cons (by nofun)
        (pairwise_notBelow_cons (by nofun) ?_))
      refine List.pairwise_append.2 ⟨ihEntries h.2.1 _ _, ihRest h.2.2 srcDir destDir, ?_⟩
      intro a ha b hb path dir hpath
      subst hpath
      -- `a` is below this entry and `b` makes a directory below another one
      obtain ⟨below, -, rfl⟩ := mem_calls_openDest ha
      rw [← under_cons]
      exact notBelow_of_head h.1 below hb _ dir rfl

/-- A directory that is made at all is made before anything below it is opened. -/
theorem mem_before_of_pairwise {calls before after : List (SysCall (List Dirent) φ)}
    (h : calls.Pairwise NotBelow) {dir : Text} {more : List EntryName}
    (hmade : .mkdir dir ∈ calls) (hsplit : calls = before ++ .openDest (under dir more) :: after) :
    .mkdir dir ∈ before := by
  subst hsplit
  rcases List.mem_append.1 hmade with hbefore | hafter
  · exact hbefore
  · rcases List.mem_cons.1 hafter with heq | hafter
    · cases heq
    · have hnot := List.rel_of_pairwise_cons (List.pairwise_append.1 h).2.1 hafter
      exact absurd rfl (hnot _ dir rfl rfl more)

/-- `copy_directory` returns exactly from the trees that are not too deep for the stack. -/
theorem copyDirectory_returns_iff (v : Version) {stack : ℕ} {env : TreeEnv φ} {t : Listing}
    {srcDir destDir : Text} (hholds : env.Holds srcDir t) (hsrc : Fits srcDir t)
    (hdest : Fits destDir t) :
    (∃ calls, Walk.Does v stack env (copyDirectory srcDir destDir) calls ⟨.reading, []⟩) ↔
      t.depth < stack := by
  constructor
  · rintro ⟨calls, hdoes⟩
    by_contra hdepth
    obtain ⟨calls', w, hdoes', hw⟩ : Walk.Crashes v stack env (copyDirectory srcDir destDir) := by
      by_cases hstack : 0 < stack
      · refine (does_enter hholds.1 hstack).crashes (crashes_listing v hholds.2 hsrc hdest hstack ?_)
        rw [List.length_nil]
        omega
      · exact Walk.Crashes.here (decide_eq_true (Nat.le_of_not_lt hstack))
    rw [← hdoes.unique (.inr rfl) hdoes' (.inl hw)] at hw
    cases hw
  · intro hdepth
    exact ⟨_, (does_enter hholds.1 (by rw [List.length_nil]; omega)).trans
      (run_listing v hholds.2 hsrc hdest (by rw [List.length_nil]; omega))⟩

/-- **The walk mirrors the tree.** On a stack that is deep enough, `copy_directory` comes to its end.
    For the regular files of the tree, at any depth, and for nothing else it opens the source path,
    opens the destination at the same place, and pushes one item with these two descriptors; no two
    items have the same destination. Every directory of the tree is made at the destination, and
    that before anything below it is opened. -/
theorem copyDirectory_mirrors (v : Version) {stack : ℕ} (env : TreeEnv φ) (t : Listing)
    (srcDir destDir : Text) (hholds : env.Holds srcDir t) (hdistinct : t.Distinct)
    (hsrc : Fits srcDir t) (hdest : Fits destDir t) (hdepth : t.depth < stack) :
    ∃ calls, Walk.Does v stack env (copyDirectory srcDir destDir) calls ⟨.reading, []⟩ ∧
      calls.filter SysCall.isFileCall = t.files.flatMap (fileCalls env srcDir destDir) ∧
      calls.filterMap SysCall.pushed? = t.files.map (fileItem env srcDir destDir) ∧
      t.files.Nodup ∧ (t.files.map (under destDir)).Nodup ∧
      ∀ dir ∈ [] :: t.subdirs, .mkdir (under destDir dir) ∈ calls ∧
        ∀ before after names, dir <+: names →
          calls = before ++ .openDest (under destDir names) :: after →
          .mkdir (under destDir dir) ∈ before := by
  have hfiles : (treeCalls env srcDir destDir t).filter SysCall.isFileCall =
      t.files.flatMap (fileCalls env srcDir destDir) := by
    rw [← filter_isFileCall_calls]
    rfl
  have hpairwise : (treeCalls env srcDir destDir t).Pairwise NotBelow :=
    pairwise_notBelow_cons (by nofun)
      (pairwise_notBelow_cons (by nofun) (pairwise_notBelow env hdistinct _ _))
  refine ⟨treeCalls env srcDir destDir t, ?_, hfiles, pushed_eq hfiles, nodup_files hdistinct,
    (nodup_files hdistinct).map (under_injective destDir), ?_⟩
  · exact (does_enter hholds.1 (by rw [List.length_nil]; omega)).trans
      (run_listing v hholds.2 hsrc hdest (by rw [List.length_nil]; omega))
  · intro dir hdir
    have hmade : .mkdir (under destDir dir) ∈ treeCalls env srcDir destDir t := by
      rcases List.mem_cons.1 hdir with rfl | hdir
      · rw [under_nil]
        simp [treeCalls]
      · have hmem : .mkdir (under destDir dir) ∈ t.calls env srcDir destDir :=
          mem_calls_mkdir.2 ⟨dir, hdir, rfl⟩
        exact List.mem_cons_of_mem _ (List.mem_cons_of_mem _ hmem)
    refine ⟨hmade, ?_⟩
    rintro before after _ ⟨more, rfl⟩ hsplit
    rw [under_append] at hsplit
    exact mem_before_of_pairwise hpairwise hmade hsplit

/-- A file, an empty directory, and a directory with a file in it. -/
def smallTree : Listing :=
  .file (.ofChar 'a' (by decide) (by decide))
    (.dots true (.dir (.ofChar 'd' (by decide) (by decide)) (.dots false .nil)
      (.dir (.ofChar 'e' (by decide) (by decide))
        (.file (.ofChar 'b' (by decide) (by decide)) .nil) .nil)))

/-- The environment with that tree at `s`. -/
def smallEnv : TreeEnv Text where
  dirs path :=
    if path = ['s'] then some smallTree.dirents
    else if path = ['s', '/', 'd'] then some [⟨['.'], true⟩]
    else if path = ['s', '/', 'e'] then some [⟨['b'], false⟩]
    else none
  made path := decide (path = ['t'])
  opened path := path
  created path := path

theorem copyDirectory_mirrors_small :
    ∃ calls, Walk.Does .hw5 2 smallEnv (copyDirectory ['s'] ['t']) calls ⟨.reading, []⟩ ∧
      calls.filterMap SysCall.pushed? =
        [⟨['s', '/', 'a'], ['t', '/', 'a'], ['a']⟩,
          ⟨['s', '/', 'e', '/', 'b'], ['t', '/', 'e', '/', 'b'], ['b']⟩] ∧
      .mkdir ['t', '/', 'd'] ∈ calls := by
  have hholds : smallEnv.Holds ['s'] smallTree := by
    refine ⟨rfl, ?_⟩
    show _ ∧ True ∧ _ ∧ True ∧ True
    exact ⟨rfl, trivial, rfl, trivial, trivial⟩
  obtain ⟨calls, hdoes, -, hpushed, -, -, hmade⟩ :=
    copyDirectory_mirrors .hw5 smallEnv smallTree ['s'] ['t'] hholds (by decide) (by decide)
      (by decide) (show smallTree.depth < 2 by decide)
  refine ⟨calls, hdoes, hpushed, ?_⟩
  exact (hmade [.ofChar 'd' (by decide) (by decide)] (by decide)).1

/-! ## A deep tree -/

/-- Directories in one another, with a file in the innermost. -/
def deepTree : ℕ → Listing
  | 0 => .file (.ofChar 'x' (by decide) (by decide)) .nil
  | n + 1 => .dir (.ofChar 'd' (by decide) (by decide)) (deepTree n) .nil

theorem depth_deepTree (n : ℕ) : (deepTree n).depth = n := by
  induction n with
  | zero => rfl
  | succ n ih =>
      show max ((deepTree n).depth + 1) 0 = n + 1
      rw [ih, Nat.max_zero]

theorem distinct_deepTree (n : ℕ) : (deepTree n).Distinct := by
  induction n with
  | zero => exact ⟨List.not_mem_nil, trivial⟩
  | succ n ih => exact ⟨List.not_mem_nil, ih, trivial⟩

theorem fits_deepTree {n : ℕ} {path : Text} (h : path.length + 2 * n + 2 < pathMax) :
    Fits path (deepTree n) := by
  induction n generalizing path with
  | zero =>
      intro names hnames
      obtain rfl := List.mem_singleton.1 hnames
      rw [under_cons, under_nil, List.length_append]
      exact h
  | succ n ih =>
      have hbelow : Fits (path ++ ['/', 'd']) (deepTree n) :=
        ih (by rw [List.length_append, List.length_cons, List.length_singleton]; omega)
      intro names hnames
      have hsplit : names = [.ofChar 'd' (by decide) (by decide)] ∨
          ∃ below ∈ (deepTree n).files ++ (deepTree n).subdirs,
            names = .ofChar 'd' (by decide) (by decide) :: below := by
        simp only [deepTree, Listing.files, Listing.subdirs, List.append_nil, List.mem_append,
          List.mem_cons, List.mem_map] at hnames ⊢
        rcases hnames with ⟨below, hbelow, rfl⟩ | rfl | ⟨below, hbelow, rfl⟩
        · exact .inr ⟨below, .inl hbelow, rfl⟩
        · exact .inl rfl
        · exact .inr ⟨below, .inr hbelow, rfl⟩
      rcases hsplit with rfl | ⟨below, hmem, rfl⟩
      · rw [under_cons, under_nil, List.length_append]
        exact lt_of_le_of_lt (by show path.length + 2 ≤ _; omega) h
      · rw [under_cons]
        exact hbelow below hmem

/-- The environment with the tree of this depth at `s`, or any name of one character: the length of
    a path says how deep it is. -/
def deepEnv (n : ℕ) : TreeEnv Text where
  dirs path := some (if path.length < 1 + 2 * n then [⟨['d'], true⟩] else [⟨['x'], false⟩])
  made _ := true
  opened path := path
  created path := path

theorem holdsBelow_deepTree {n k : ℕ} {path : Text} (h : path.length + 2 * k = 1 + 2 * n) :
    (deepEnv n).dirs path = some (deepTree k).dirents ∧
      (deepEnv n).HoldsBelow path (deepTree k) := by
  induction k generalizing path with
  | zero =>
      refine ⟨?_, trivial⟩
      show some (if path.length < 1 + 2 * n then _ else _) = _
      rw [if_neg (by omega)]
      rfl
  | succ k ih =>
      have hlength : (path ++ ['/', 'd']).length + 2 * k = 1 + 2 * n := by
        rw [List.length_append, List.length_cons, List.length_singleton]
        omega
      have hbelow := ih hlength
      refine ⟨?_, hbelow.1, hbelow.2, trivial⟩
      show some (if path.length < 1 + 2 * n then _ else _) = _
      rw [if_pos (by omega)]
      rfl

/-- A stack of 8 MiB holds at most this many calls of `copy_directory`. -/
def defaultStack : ℕ := 8 * 1024 * 1024 / (2 * pathMax)

/-- The paths of a tree 1024 directories deep fit in `PATH_MAX`; the calls of `copy_directory` do not
    fit on the stack. -/
theorem copyDirectory_not_always_mirrors :
    ¬ ∀ (env : TreeEnv Text) (t : Listing) (srcDir destDir : Text), env.Holds srcDir t →
      t.Distinct → Fits srcDir t → Fits destDir t →
      ∃ calls, Walk.Does .hw5 defaultStack env (copyDirectory srcDir destDir) calls
          ⟨.reading, []⟩ ∧
        calls.filterMap SysCall.pushed? = t.files.map (fileItem env srcDir destDir) := by
  intro hall
  have hholds : (deepEnv 1024).Holds ['s'] (deepTree 1024) := holdsBelow_deepTree rfl
  have hsrc : Fits ['s'] (deepTree 1024) := fits_deepTree (by decide)
  have hdest : Fits ['t'] (deepTree 1024) := fits_deepTree (by decide)
  obtain ⟨calls, hdoes, -⟩ := hall (deepEnv 1024) (deepTree 1024) ['s'] ['t'] hholds
    (distinct_deepTree 1024) hsrc hdest
  have hdepth := (copyDirectory_returns_iff .hw5 hholds hsrc hdest).1 ⟨calls, hdoes⟩
  rw [depth_deepTree] at hdepth
  exact absurd hdepth (by decide)

end SystemProgramming.Copy
