import SystemProgramming.Midterm.Sync
import SystemProgramming.Lib.CText
import Mathlib.Data.List.Range

set_option autoImplicit false

/-! # The shared table of files

`initialize` enters the files of the directory into the shared table. A handler that works on a file
looks the name up with `get_file` and, when this returns `NULL`, enters it with `init_file`; it
keeps the pointer, here the index of the entry, for its calls of the lock. Each of the two calls is
one step.

There is no lock around the two, so that another handler can enter the name between them. A step of
`init_file` is `Fresh` when nobody has, and `oneLock_iff` says that this is all that matters. -/

namespace SystemProgramming.Sync

open Function

/-- `Shared`; `capacity` is 64. -/
structure Shared where
  capacity : ℕ
  size : ℕ
  files : ℕ → File

/-- `get_file`: the index of the first entry of the name. -/
def getFile (sdir : Shared) (file : Text) : Option ℕ :=
  (List.range sdir.size).find? fun i => (sdir.files i).name = file

/-- `init_file`, with what the two calls of `sem_init` say. -/
def initFile (filename : Text) (readerInit writerInit : Bool) (sdir : Shared) :
    Option ℕ × Shared :=
  if sdir.size = sdir.capacity then (none, sdir)
  else
    let file := { sdir.files sdir.size with name := filename }
    if readerInit = false then (none, { sdir with files := update sdir.files sdir.size file })
    else if writerInit = false then
      (none, { sdir with files := update sdir.files sdir.size { file with readerMutex := 1 } })
    else (some sdir.size, { sdir with
      files := update sdir.files sdir.size
        { file with readerMutex := 1, writerMutex := 1, readerCount := 0 }
      size := sdir.size + 1 })

/-- An entry of the directory, with what `sem_init` will say for it. -/
structure Entry where
  name : Text
  readerInit : Bool
  writerInit : Bool

/-- The loop of `initialize` over the directory. -/
def initEntries : List Entry → Shared → Shared
  | [], sdir => sdir
  | entry :: rest, sdir =>
      if entry.name = ['.'] ∨ entry.name = ['.', '.'] then initEntries rest sdir
      else initEntries rest (initFile entry.name entry.readerInit entry.writerInit sdir).2

/-- `initialize`, on a shared memory with any content. -/
def initTable (memory : ℕ → File) (entries : List Entry) : Shared :=
  initEntries entries { capacity := 64, size := 0, files := memory }

/-! ## The handlers -/

/-- Where a handler is. -/
inductive HandlerPC
  | idle
  /-- `get_file` has returned `NULL` for the name -/
  | missing (name : Text)
  /-- works on the name with this entry -/
  | working (name : Text) (sfile : ℕ)
  /-- `init_file` has returned `NULL`: `exitFailure` -/
  | exited
deriving DecidableEq

/-- The table, and where each handler is. -/
structure TableState (ι : Type*) where
  sd : Shared
  handler : ι → HandlerPC

/-- A step of a handler. -/
inductive HandlerMove
  /-- a command on the name: `get_file` -/
  | lookUp (name : Text)
  /-- `init_file` -/
  | enter (readerInit writerInit : Bool)
  /-- the end of the command -/
  | finish

variable {ι : Type*}

/-- `idle` handlers on the table of `initialize`. -/
def startTable (memory : ℕ → File) (entries : List Entry) : TableState ι :=
  { sd := initTable memory entries, handler := fun _ => .idle }

/-- The handler goes on here. -/
def TableState.goto [DecidableEq ι] (s : TableState ι) (i : ι) (pc : HandlerPC) : TableState ι :=
  { s with handler := update s.handler i pc }

/-- The steps of the handlers; `get_file` and `init_file` are one step each. -/
def tableNext [DecidableEq ι] (s : TableState ι) : ι × HandlerMove → Option (TableState ι)
  | (i, .lookUp name) =>
      match s.handler i with
      | .idle =>
          match getFile s.sd name with
          | some sfile => some (s.goto i (.working name sfile))
          | none => some (s.goto i (.missing name))
      | _ => none
  | (i, .enter readerInit writerInit) =>
      match s.handler i with
      | .missing name =>
          match initFile name readerInit writerInit s.sd with
          | (some sfile, sd) => some ({ s with sd := sd }.goto i (.working name sfile))
          | (none, sd) => some ({ s with sd := sd }.goto i .exited)
      | _ => none
  | (i, .finish) =>
      match s.handler i with
      | .working _ _ => some (s.goto i .idle)
      | _ => none

/-- Handlers on one table, which starts with these entries. -/
def tableMachine (ι : Type*) [DecidableEq ι] (memory : ℕ → File) (entries : List Entry) :
    Machine (TableState ι) (ι × HandlerMove) where
  init s := s = startTable memory entries
  next := tableNext

/-! ## One entry a name -/

/-- At most one entry a name, no more entries than room, and two handlers that work on the same name
    have the same entry. -/
structure OneLock (s : TableState ι) : Prop where
  unique : ∀ i < s.sd.size, ∀ j < s.sd.size, (s.sd.files i).name = (s.sd.files j).name → i = j
  size_le : s.sd.size ≤ s.sd.capacity
  same : ∀ h h' name sfile sfile', s.handler h = .working name sfile →
    s.handler h' = .working name sfile' → sfile = sfile'

/-- The names in the table. -/
def Shared.names (sdir : Shared) : List Text :=
  (List.range sdir.size).map fun i => (sdir.files i).name

theorem names_nodup_iff {sdir : Shared} : sdir.names.Nodup ↔
    ∀ i < sdir.size, ∀ j < sdir.size, (sdir.files i).name = (sdir.files j).name → i = j := by
  unfold Shared.names
  constructor
  · intro h i hi j hj heq
    exact List.inj_on_of_nodup_map h (List.mem_range.2 hi) (List.mem_range.2 hj) heq
  · intro h
    refine List.Nodup.map_on ?_ List.nodup_range
    intro i hi j hj heq
    exact h i (List.mem_range.1 hi) j (List.mem_range.1 hj) heq

theorem getFile_eq_none {sdir : Shared} {file : Text} :
    getFile sdir file = none ↔ file ∉ sdir.names := by
  simp [getFile, Shared.names]

theorem getFile_eq_some {sdir : Shared} {file : Text} {i : ℕ} (h : getFile sdir file = some i) :
    i < sdir.size ∧ (sdir.files i).name = file := by
  have hname := List.find?_some h
  exact ⟨List.mem_range.1 (List.mem_of_find?_eq_some h), by simpa using hname⟩

/-- What `init_file` can do: it enters the name at the end, or it touches nothing that counts. -/
theorem initFile_cases (filename : Text) (readerInit writerInit : Bool) (sdir : Shared) :
    (∃ files, initFile filename readerInit writerInit sdir = (none, { sdir with files := files }) ∧
      (∀ i, i < sdir.size → files i = sdir.files i) ∧
      (sdir.size = sdir.capacity ∨ readerInit = false ∨ writerInit = false)) ∨
    (∃ files, initFile filename readerInit writerInit sdir
        = (some sdir.size, { sdir with files := files, size := sdir.size + 1 }) ∧
      (∀ i, i < sdir.size → files i = sdir.files i) ∧ (files sdir.size).name = filename ∧
      sdir.size ≠ sdir.capacity ∧ readerInit = true ∧ writerInit = true) := by
  have hkeep : ∀ file i, i < sdir.size → update sdir.files sdir.size file i = sdir.files i :=
    fun file i hi => update_of_ne (Nat.ne_of_lt hi) _ _
  unfold initFile
  by_cases hfull : sdir.size = sdir.capacity
  · rw [if_pos hfull]
    exact .inl ⟨sdir.files, rfl, fun _ _ => rfl, .inl hfull⟩
  · rw [if_neg hfull]
    cases readerInit with
    | false => exact .inl ⟨_, rfl, hkeep _, .inr (.inl rfl)⟩
    | true =>
        cases writerInit with
        | false => exact .inl ⟨_, rfl, hkeep _, .inr (.inr rfl)⟩
        | true =>
            refine .inr ⟨_, rfl, hkeep _, ?_, hfull, rfl, rfl⟩
            rw [update_self]

theorem names_congr {sdir sdir' : Shared} (hsize : sdir'.size = sdir.size)
    (hfiles : ∀ i, i < sdir.size → sdir'.files i = sdir.files i) : sdir'.names = sdir.names := by
  unfold Shared.names
  rw [hsize]
  refine List.map_congr_left ?_
  intro i hi
  rw [hfiles i (List.mem_range.1 hi)]

theorem names_entered {sdir sdir' : Shared} (hsize : sdir'.size = sdir.size + 1)
    (hfiles : ∀ i, i < sdir.size → sdir'.files i = sdir.files i) :
    sdir'.names = sdir.names ++ [(sdir'.files sdir.size).name] := by
  unfold Shared.names
  rw [hsize, List.range_succ, List.map_append]
  congr 1
  refine List.map_congr_left ?_
  intro i hi
  rw [hfiles i (List.mem_range.1 hi)]

/-! ## The table of `initialize` -/

/-- The loop enters some of the names, in their order, and never more than there is room for. -/
theorem initEntries_names (entries : List Entry) (sdir : Shared) (hle : sdir.size ≤ sdir.capacity) :
    (∃ entered, entered.Sublist (entries.map Entry.name) ∧
      (initEntries entries sdir).names = sdir.names ++ entered) ∧
    (initEntries entries sdir).size ≤ (initEntries entries sdir).capacity := by
  induction entries generalizing sdir with
  | nil => exact ⟨⟨[], List.Sublist.refl [], (List.append_nil _).symm⟩, hle⟩
  | cons entry rest ih =>
      have hskip : ∀ sdir' : Shared, sdir'.names = sdir.names → sdir'.size ≤ sdir'.capacity →
          (∃ entered, entered.Sublist ((entry :: rest).map Entry.name) ∧
            (initEntries rest sdir').names = sdir.names ++ entered) ∧
          (initEntries rest sdir').size ≤ (initEntries rest sdir').capacity := by
        intro sdir' hnames hle'
        obtain ⟨⟨entered, hsub, heq⟩, hsize⟩ := ih sdir' hle'
        exact ⟨⟨entered, hsub.cons _, hnames ▸ heq⟩, hsize⟩
      unfold initEntries
      split
      · exact hskip sdir rfl hle
      · rcases initFile_cases entry.name entry.readerInit entry.writerInit sdir with
          ⟨files, heq, hfiles, -⟩ | ⟨files, heq, hfiles, hname, hroom, -⟩
        · rw [heq]
          exact hskip _ (names_congr rfl hfiles) hle
        · rw [heq]
          have hle' : sdir.size + 1 ≤ sdir.capacity := by omega
          obtain ⟨⟨entered, hsub, hnames⟩, hsize⟩ :=
            ih { sdir with files := files, size := sdir.size + 1 } hle'
          refine ⟨⟨entry.name :: entered, hsub.cons_cons _, ?_⟩, hsize⟩
          rw [hnames, names_entered rfl hfiles, List.append_assoc]
          show sdir.names ++ ([(files sdir.size).name] ++ entered) = _
          rw [hname, List.singleton_append]

/-- A directory has every name once; so has the table. -/
theorem initTable_nodup {entries : List Entry} (hdir : (entries.map Entry.name).Nodup)
    (memory : ℕ → File) :
    (initTable memory entries).names.Nodup ∧
      (initTable memory entries).size ≤ (initTable memory entries).capacity := by
  obtain ⟨⟨entered, hsub, hnames⟩, hsize⟩ :=
    initEntries_names entries { capacity := 64, size := 0, files := memory } (Nat.zero_le 64)
  refine ⟨?_, hsize⟩
  rw [initTable, hnames]
  exact hdir.sublist hsub

/-! ## The steps of the handlers -/

/-- What a step can do. -/
inductive TableStep [DecidableEq ι] (s : TableState ι) : ι × HandlerMove → TableState ι → Prop
  /-- `get_file`, or the end of a command -/
  | look {i : ι} {move : HandlerMove} {pc : HandlerPC} (hmove : ∀ r w, move ≠ .enter r w)
      (hpc : ∀ name sfile, pc = .working name sfile → getFile s.sd name = some sfile) :
      TableStep s (i, move) (s.goto i pc)
  | refused {i : ι} {readerInit writerInit : Bool} {name : Text} {files : ℕ → File}
      (hpc : s.handler i = .missing name)
      (hfiles : ∀ j, j < s.sd.size → files j = s.sd.files j)
      (hwhy : s.sd.size = s.sd.capacity ∨ readerInit = false ∨ writerInit = false) :
      TableStep s (i, .enter readerInit writerInit)
        ({ s with sd := { s.sd with files := files } }.goto i .exited)
  | entered {i : ι} {name : Text} {files : ℕ → File} (hpc : s.handler i = .missing name)
      (hfiles : ∀ j, j < s.sd.size → files j = s.sd.files j)
      (hname : (files s.sd.size).name = name) (hroom : s.sd.size ≠ s.sd.capacity) :
      TableStep s (i, .enter true true)
        ({ s with sd := { s.sd with files := files, size := s.sd.size + 1 } }.goto i
          (.working name s.sd.size))

theorem tableStep_of_next [DecidableEq ι] {s s' : TableState ι} {a : ι × HandlerMove}
    (h : tableNext s a = some s') : TableStep s a s' := by
  obtain ⟨i, move⟩ := a
  cases move with
  | lookUp name =>
      unfold tableNext at h
      cases hpc : s.handler i <;> simp only [hpc, reduceCtorEq] at h
      cases hget : getFile s.sd name with
      | none =>
          simp only [hget, Option.some.injEq] at h
          obtain rfl := h
          exact .look (by rintro r w ⟨⟩) (by rintro name sfile ⟨⟩)
      | some sfile =>
          simp only [hget, Option.some.injEq] at h
          obtain rfl := h
          refine .look (by rintro r w ⟨⟩) ?_
          rintro name' sfile' ⟨⟩
          exact hget
  | enter readerInit writerInit =>
      unfold tableNext at h
      cases hpc : s.handler i <;> simp only [hpc, reduceCtorEq] at h
      rename_i name
      rcases initFile_cases name readerInit writerInit s.sd with
        ⟨files, heq, hfiles, hwhy⟩ | ⟨files, heq, hfiles, hname, hroom, rfl, rfl⟩
      · simp only [heq, Option.some.injEq] at h
        obtain rfl := h
        exact .refused hpc hfiles hwhy
      · simp only [heq, Option.some.injEq] at h
        obtain rfl := h
        exact .entered hpc hfiles hname hroom
  | finish =>
      unfold tableNext at h
      cases hpc : s.handler i <;> simp only [hpc, reduceCtorEq, Option.some.injEq] at h
      obtain rfl := h
      exact .look (by rintro r w ⟨⟩) (by rintro name sfile ⟨⟩)

/-- The entry that a handler works with is in the table, under the name it works on. -/
structure TableInv (s : TableState ι) : Prop where
  size_le : s.sd.size ≤ s.sd.capacity
  working : ∀ i name sfile, s.handler i = .working name sfile →
    sfile < s.sd.size ∧ (s.sd.files sfile).name = name

theorem TableInv.goto [DecidableEq ι] {s : TableState ι} (h : TableInv s) {sd : Shared} {i : ι}
    {pc : HandlerPC} (hle : sd.size ≤ sd.capacity) (hgrows : s.sd.size ≤ sd.size)
    (hfiles : ∀ j, j < s.sd.size → sd.files j = s.sd.files j)
    (hpc : ∀ name sfile, pc = .working name sfile →
      sfile < sd.size ∧ (sd.files sfile).name = name) :
    TableInv ({ s with sd := sd }.goto i pc) := by
  refine ⟨hle, ?_⟩
  intro j name sfile hj
  change update s.handler i pc j = .working name sfile at hj
  show sfile < sd.size ∧ (sd.files sfile).name = name
  by_cases hji : j = i
  · rw [hji, update_self] at hj
    exact hpc name sfile hj
  · rw [update_of_ne hji] at hj
    obtain ⟨hlt, hname⟩ := h.working j name sfile hj
    rw [hfiles sfile hlt]
    exact ⟨by omega, hname⟩

theorem TableInv.step [DecidableEq ι] {s s' : TableState ι} {a : ι × HandlerMove}
    (h : TableInv s) (hstep : TableStep s a s') : TableInv s' := by
  cases hstep with
  | look hmove hpc =>
      refine h.goto h.size_le le_rfl (fun _ _ => rfl) ?_
      intro name sfile heq
      exact getFile_eq_some (hpc name sfile heq)
  | refused hpc hfiles hwhy => exact h.goto h.size_le le_rfl hfiles (by rintro name sfile ⟨⟩)
  | entered hpc hfiles hname hroom =>
      have := h.size_le
      refine h.goto (show s.sd.size + 1 ≤ s.sd.capacity by omega) (Nat.le_succ _) hfiles ?_
      rintro name sfile ⟨⟩
      exact ⟨Nat.lt_succ_self _, hname⟩

/-- In a state the invariant allows, the names of the table are all that matters. -/
theorem oneLock_iff_nodup {s : TableState ι} (h : TableInv s) :
    OneLock s ↔ s.sd.names.Nodup := by
  constructor
  · intro hone
    exact names_nodup_iff.2 hone.unique
  · intro hnodup
    have hunique := names_nodup_iff.1 hnodup
    refine ⟨hunique, h.size_le, ?_⟩
    intro i j name sfile sfile' hi hj
    obtain ⟨hlt, hname⟩ := h.working i name sfile hi
    obtain ⟨hlt', hname'⟩ := h.working j name sfile' hj
    exact hunique sfile hlt sfile' hlt' (hname.trans hname'.symm)

/-- A step of `init_file` is fresh: the name is still not in the table, or nothing is entered
    because the table is full or `sem_init` fails. -/
def Fresh (s : TableState ι) : ι × HandlerMove → Prop
  | (i, .enter readerInit writerInit) => ∀ name, s.handler i = .missing name →
      getFile s.sd name = none ∨ s.sd.size = s.sd.capacity ∨ readerInit = false ∨
        writerInit = false
  | _ => True

/-- A step keeps the names different exactly when it is fresh. -/
theorem nodup_step [DecidableEq ι] {s s' : TableState ι} {a : ι × HandlerMove}
    (hnodup : s.sd.names.Nodup) (hstep : TableStep s a s') :
    s'.sd.names.Nodup ↔ Fresh s a := by
  cases hstep with
  | @look i move pc hmove hpc =>
      refine iff_of_true hnodup ?_
      cases move with
      | enter r w => exact absurd rfl (hmove r w)
      | lookUp name => trivial
      | finish => trivial
  | @refused i r w name files hpc hfiles hwhy =>
      -- the table is full or a call has failed: no name is added
      have hnames : ({ s.sd with files := files } : Shared).names = s.sd.names :=
        names_congr rfl hfiles
      refine iff_of_true (hnames.symm ▸ hnodup) ?_
      intro name' hpc'
      exact .inr hwhy
  | @entered i name files hpc hfiles hname hroom =>
      have hnames : ({ s.sd with files := files, size := s.sd.size + 1 } : Shared).names
          = s.sd.names ++ [name] := (names_entered rfl hfiles).trans (by rw [hname])
      -- the one step that adds a name; `Fresh` says that the look before it is still right
      have hfresh : Fresh s (i, .enter true true) ↔ name ∉ s.sd.names := by
        constructor
        · intro hfresh
          rcases hfresh name hpc with hnone | hfull | ⟨⟨⟩⟩ | ⟨⟨⟩⟩
          · exact getFile_eq_none.1 hnone
          · exact absurd hfull hroom
        · intro hnone name' hpc'
          obtain rfl : name = name' := by
            rw [hpc] at hpc'
            cases hpc'
            rfl
          exact .inl (getFile_eq_none.2 hnone)
      rw [hfresh]
      show ({ s.sd with files := files, size := s.sd.size + 1 } : Shared).names.Nodup ↔ _
      rw [hnames, List.nodup_append]
      constructor
      · rintro ⟨-, -, hdisjoint⟩ hmem
        exact hdisjoint name hmem name (List.mem_singleton_self name) rfl
      · intro hnone
        refine ⟨hnodup, List.nodup_singleton name, ?_⟩
        rintro x hx y hy rfl
        exact hnone (List.mem_singleton.1 hy ▸ hx)

/-- **One lock a name, exactly as long as the insertions are fresh.** For any number of handlers,
    every directory and every order of the calls: all states of the run have one entry a name, no
    more entries than room, and the same entry for every two handlers on one name, if and only if
    every `init_file` of the run finds its name still missing (or enters nothing). -/
theorem oneLock_iff [DecidableEq ι] {entries : List Entry}
    (hdir : (entries.map Entry.name).Nodup) (memory : ℕ → File) (moves : List (ι × HandlerMove)) :
    (tableMachine ι memory entries).Always OneLock (startTable memory entries) moves ↔
      (tableMachine ι memory entries).EachStep Fresh (startTable memory entries) moves := by
  obtain ⟨hnodup, hle⟩ := initTable_nodup hdir memory
  have hinv : TableInv (startTable memory entries : TableState ι) :=
    ⟨hle, fun i name sfile hi => by cases hi⟩
  refine Machine.always_iff_eachStep (I := TableInv) ?_ ?_ moves hinv
    ((oneLock_iff_nodup hinv).2 hnodup)
  · intro s a s' h hnext
    exact h.step (tableStep_of_next hnext)
  · intro s a s' h hone hnext
    have hstep := tableStep_of_next hnext
    rw [oneLock_iff_nodup (h.step hstep)]
    exact nodup_step ((oneLock_iff_nodup h).1 hone) hstep

/-- Two handlers, a file that is in the directory and one that is not: the second handler asks for
    the new name after the first has entered it. -/
theorem oneLock_iff_fresh :
    (tableMachine (Fin 2) (fun _ => ⟨[], 0, 0, 0⟩) [⟨['a'], true, true⟩]).Always OneLock
      (startTable (fun _ => ⟨[], 0, 0, 0⟩) [⟨['a'], true, true⟩])
      [(0, .lookUp ['f']), (0, .enter true true), (1, .lookUp ['f'])] := by
  refine (oneLock_iff (by decide) (fun _ => ⟨[], 0, 0, 0⟩) _).2 ?_
  rintro s₁ ⟨⟩
  refine ⟨trivial, ?_⟩
  rintro s₂ ⟨⟩
  refine ⟨?_, ?_⟩
  · rintro name ⟨⟩
    exact .inl (by decide)
  · rintro s₃ ⟨⟩
    exact ⟨trivial, trivial⟩

/-- Two handlers are told that a new name is missing before either enters it. -/
theorem two_locks_for_one_name :
    ¬ ∀ s, (tableMachine (Fin 2) (fun _ => ⟨[], 0, 0, 0⟩) []).Reachable s → OneLock s := by
  intro hall
  obtain ⟨s, hs, hsame⟩ : ∃ s, (tableMachine (Fin 2) (fun _ => ⟨[], 0, 0, 0⟩) []).exec
      (startTable (fun _ => ⟨[], 0, 0, 0⟩) [])
      [(0, .lookUp ['f']), (1, .lookUp ['f']), (0, .enter true true), (1, .enter true true)]
      = some s ∧ s.handler 0 = .working ['f'] 0 ∧ s.handler 1 = .working ['f'] 1 :=
    ⟨_, rfl, rfl, rfl⟩
  have hone := hall s ((Machine.Reachable.init rfl).exec _ hs)
  have hlocks := hone.same 0 1 ['f'] 0 1 hsame.1 hsame.2
  cases hlocks

end SystemProgramming.Sync
