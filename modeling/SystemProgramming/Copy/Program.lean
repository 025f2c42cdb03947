import SystemProgramming.Copy.Directory
import SystemProgramming.Lib.FileSystem

set_option autoImplicit false

/-! # The copy program on a file system

The manager walks the source directory with `copy_directory`, and the workers copy, all on one file
system. `copyProgram` puts the walk in front of the threads of `copyMachine`: what the walk pushes
is what the manager of `copyMachine` has to push, and `buffer_set_done` waits for the end of the
walk. Every system call is a step, each `read` and `write` of a worker included.

The kernel numbers the descriptors in the order of the `open` calls and never uses a number again,
so that a second `close` of a descriptor would show. What a call is free to do is part of the label
of its step: whether it fails, which entry `readdir` delivers next, how many bytes are moved.

A call of the manager that fails makes it destroy the buffer, and only then exit. What a worker does
with the buffer from there on is undefined, and so is `destroy_buffer` itself while a worker sleeps
on one of its condition variables: the program is then at `WalkPC.undefined`, and nothing is said of
what follows. -/

namespace SystemProgramming.Copy

open Function FileSystem

/-! ## The kernel -/

/-- What a descriptor refers to. -/
structure OpenFile where
  inode : ℕ
  offset : ℕ
  writable : Bool

/-- The file system, the descriptors, and the histories: the descriptors that were given to `close`,
    and the directories that `opendir` has opened. -/
structure Kernel where
  fs : FileSystem
  table : ℕ → Option OpenFile
  /-- the number of successful calls of `open` -/
  opens : ℕ
  closes : List ℕ
  entered : List ℕ

/-- A `DIR *`: its directory, the names that were there when it was opened, and those that `readdir`
    has delivered. -/
structure DirStream where
  dir : ℕ
  listed : List Text
  returned : List Text

/-- How a call goes. -/
inductive Choice
  | succeeds
  | fails
  /-- `readdir` delivers the entry of this name -/
  | entry (name : Text)

/-- The names in a directory. -/
def dirNames (entries : List (EntryName × ℕ)) : List Text :=
  ['.'] :: ['.', '.'] :: entries.map fun e => e.1.text

/-- The entry of this name as `readdir` delivers it. -/
def direntOf (fs : FileSystem) (dir : ℕ) (name : Text) : Option Dirent :=
  match component name with
  | none => none
  | some .here | some .up => some ⟨name, true⟩
  | some (.name n) =>
      match (fs.entries dir).bind fun entries => entries.lookup n with
      | none => none
      | some m => some ⟨name, (fs.entries m).isSome⟩

namespace Kernel

/-- The next descriptor. -/
def allocate (k : Kernel) (file : OpenFile) : Kernel :=
  { k with table := update k.table k.opens (some file), opens := k.opens + 1 }

/-- `opendir`, when it goes well: the names that are there now will be delivered. -/
def opendir (k : Kernel) (path : Text) : Option (Option DirStream × Kernel) :=
  match k.fs.find true path with
  | .found n =>
      (k.fs.entries n).map fun entries =>
        (some ⟨n, dirNames entries, []⟩, { k with entered := k.entered ++ [n] })
  | _ => none

/-- `mkdir`, when it goes well or finds the directory there. -/
def mkdir (k : Kernel) (path : Text) : Option (MkdirResult × Kernel) :=
  match k.fs.find false path with
  | .found _ => some (.eexist, k)
  | .missing dir name => some (.made, { k with fs := k.fs.create dir name true })
  | .fails => none

/-- `readdir` delivers every name that was there from the start, and no name twice; a name that was
    added since may be delivered or not. -/
def readdir (k : Kernel) (dir : DirStream) :
    Choice → Option ((Option Dirent × DirStream) × Kernel)
  | .succeeds =>
      if ∀ name ∈ dir.listed, name ∈ dir.returned then some ((none, dir), k) else none
  | .fails => some ((none, dir), k)
  | .entry name =>
      if name ∈ dir.returned then none
      else (direntOf k.fs dir.dir name).map fun entry =>
        ((some entry, { dir with returned := name :: dir.returned }), k)

/-- `open(path, O_RDONLY)`, when it goes well. -/
def openSrc (k : Kernel) (path : Text) : Option (Option ℕ × Kernel) :=
  match k.fs.find true path with
  | .found n => some (some k.opens, k.allocate ⟨n, 0, false⟩)
  | _ => none

/-- `open(path, O_WRONLY | O_CREAT | O_TRUNC, 0644)`, when it goes well. -/
def openDest (k : Kernel) (path : Text) : Option (Option ℕ × Kernel) :=
  match k.fs.find true path with
  | .found n =>
      if k.fs.content n = none then none
      else some (some k.opens, { k with fs := k.fs.setContent n [] }.allocate ⟨n, 0, true⟩)
  | .missing dir name =>
      some (some k.opens, { k with fs := k.fs.create dir name false }.allocate
        ⟨k.fs.nodes.length, 0, true⟩)
  | .fails => none

/-- `close`; a descriptor that is not open stays so. -/
def close (k : Kernel) (fd : ℕ) : Kernel :=
  { k with table := update k.table fd none, closes := k.closes ++ [fd] }

/-- `read(fd, …, count)`, when it delivers `count` bytes if they are there. -/
def read (k : Kernel) (fd count : ℕ) : Text × Kernel :=
  match k.table fd with
  | none => ([], k)
  | some file =>
      let bytes := (((k.fs.content file.inode).getD []).drop file.offset).take count
      (bytes, { k with
        table := update k.table fd (some { file with offset := file.offset + bytes.length }) })

/-- The content with `bytes` at `offset`; a gap before them is filled with zeros. -/
def writeAt (content : Text) (offset : ℕ) (bytes : Text) : Text :=
  content.takeD offset nul ++ bytes ++ content.drop (offset + bytes.length)

/-- `write(fd, bytes, …)`; it fails on a descriptor that is not open for writing. -/
def write (k : Kernel) (fd : ℕ) (bytes : Text) : Kernel :=
  match k.table fd with
  | none => k
  | some file =>
      if file.writable then
        { k with
          fs := k.fs.setContent file.inode
            (writeAt ((k.fs.content file.inode).getD []) file.offset bytes)
          table := update k.table fd (some { file with offset := file.offset + bytes.length }) }
      else k

/-- A call that goes well or fails. -/
def orFail {ρ : Type} (k : Kernel) (choice : Choice) (good : Option (ρ × Kernel)) (bad : ρ) :
    Option (ρ × Kernel) :=
  match choice with
  | .succeeds => good
  | .fails => some (bad, k)
  | .entry _ => none

/-- The calls of `copy_directory`, but for `buffer_push`. -/
def answer (k : Kernel) (c : SysCall DirStream ℕ) (choice : Choice) : Option (Reply c × Kernel) :=
  match c with
  | .opendir path => k.orFail choice (k.opendir path) none
  | .mkdir path => k.orFail choice (k.mkdir path) MkdirResult.failed
  | .readdir dir => k.readdir dir choice
  | .openSrc path => k.orFail choice (k.openSrc path) none
  | .openDest path => k.orFail choice (k.openDest path) none
  | .closedir _ => some ((), k)
  | .close fd => some ((), k.close fd)
  | .exit => some ((), k)
  | .push _ | .destroyBuffer => none

end Kernel

/-! ## The program -/

/-- A pair of descriptors with its name. -/
abbrev Item := BufferElement ℕ

/-- The threads and the buffer, the manager in `copy_directory`, the kernel, and the bytes that each
    worker has read and not yet written. -/
structure ProgramState (W : ℕ) where
  copy : CopyState W Item
  walk : Walk DirStream ℕ
  kernel : Kernel
  readBuffer : Fin W → Text

/-- A step of the manager in `copy_directory`, of the manager in a function of the buffer or at the
    barrier, of a worker, which moves `count` bytes if it reads or writes, or of `main`, or a
    spurious wake-up. -/
inductive ProgramMove (W : ℕ)
  | walk (choice : Choice)
  | manager (woken : Option (Fin W))
  | worker (i : Fin W) (count : ℕ)
  | join
  | spuriousManager
  | spuriousWorker (i : Fin W)

variable {W : ℕ}

/-- The next step of the worker is on the buffer, not on the two files of its item. -/
def WorkerPC.usesBuffer {α : Type*} : WorkerPC α → Bool
  | .copying _ | .closingSrc _ | .closingDest _ => false
  | _ => true

/-- The manager makes the next call of `copy_directory`; an item goes to `buffer_push`. -/
def callTurn (s : ProgramState W) (c : SysCall DirStream ℕ) (resume : Reply c → Walk DirStream ℕ)
    (choice : Choice) : Option (ProgramState W) :=
  match c with
  | .push item =>
      some { s with copy := { s.copy with manager := .pushing [item] }, walk := resume () }
  | .destroyBuffer =>
      some { s with
        walk := if ∃ i, (s.copy.workers i).isAsleep then s.walk.breakDown else resume () }
  | c => (s.kernel.answer c choice).map fun r => { s with walk := resume r.1, kernel := r.2 }

/-- The copy loop of `worker_function`: a `read` of 1024 bytes at most, and a `write` of what was
    read; the loop ends when nothing was read. -/
def copyTurn (v : Version) (s : ProgramState W) (i : Fin W) (item : Item) (count : ℕ) :
    Option (ProgramState W) :=
  match s.readBuffer i with
  | [] =>
      match s.kernel.read item.srcFd (min count 1024) with
      | ([], _) => (workerTurn v s.copy i).map fun copy => { s with copy := copy }
      | (bytes, kernel) =>
          some { s with kernel := kernel, readBuffer := update s.readBuffer i bytes }
  | bytes =>
      some { s with
        kernel := s.kernel.write item.destFd (bytes.take count)
        readBuffer := update s.readBuffer i [] }

/-- A step of a worker. -/
def programWorkerTurn (v : Version) (s : ProgramState W) (i : Fin W) (count : ℕ) :
    Option (ProgramState W) :=
  match s.copy.workers i with
  | .copying item => copyTurn v s i item count
  | .closingSrc item =>
      (workerTurn v s.copy i).map fun copy =>
        { s with copy := copy, kernel := s.kernel.close item.srcFd }
  | .closingDest item =>
      (workerTurn v s.copy i).map fun copy =>
        { s with copy := copy, kernel := s.kernel.close item.destFd }
  | _ => (workerTurn v s.copy i).map fun copy => { s with copy := copy }

/-- The steps of the program while the process lives. -/
def programNext (v : Version) (s : ProgramState W) : ProgramMove W → Option (ProgramState W)
  | .walk choice =>
      match s.copy.manager, s.walk.next v with
      | .pushing [], some ⟨c, resume⟩ => callTurn s c resume choice
      | _, _ => none
  | .manager woken =>
      match s.copy.manager, s.walk.isOver with
      | .pushing [], false => none
      | _, _ => (managerTurn v s.copy woken).map fun copy => { s with copy := copy }
  | .worker i count =>
      if s.walk.isDestroyed && (s.copy.workers i).usesBuffer then
        some { s with walk := s.walk.breakDown }
      else programWorkerTurn v s i count
  | .join => (joinTurn s.copy).map fun copy => { s with copy := copy }
  | .spuriousManager =>
      match s.copy.manager with
      | .asleep rest => some { s with copy := { s.copy with manager := .pushing rest } }
      | _ => none
  | .spuriousWorker i =>
      match s.copy.workers i with
      | .asleep =>
          some { s with copy := { s.copy with workers := update s.copy.workers i .popping } }
      | _ => none

/-- The start of the threads, on a file system. -/
def programStart (W : ℕ) (memory : ℤ → Item) (size : ℤ) (fs : FileSystem) (srcDir destDir : Text) :
    ProgramState W where
  copy := ⟨initBuffer memory size, .pushing [], fun _ => .popping, 0, 0, [], [], []⟩
  walk := copyDirectory srcDir destDir
  kernel := ⟨fs, fun _ => none, 0, [], []⟩
  readBuffer := fun _ => []

/-- The copy program with `W` workers on a buffer of the given size; the stack of the manager's
    thread holds `stack` calls of `copy_directory`. -/
def copyProgram (v : Version) (W : ℕ) (size : ℤ) (stack : ℕ) (fs : FileSystem)
    (srcDir destDir : Text) : Machine (ProgramState W) (ProgramMove W) where
  init s := ∃ memory, s = programStart W memory size fs srcDir destDir
  next s a := if s.walk.hasEnded stack then none else programNext v s a

/-- A root directory with a directory `s` that holds one file, `s/f`. -/
def smallFs : FileSystem where
  nodes := [.dir 0 [(.ofChar 's' (by decide) (by decide), 1)],
    .dir 0 [(.ofChar 'f' (by decide) (by decide), 2)], .file ['x']]
  root := 0
  cwd := 0
  sound := by decide

/-! ## What the calls do -/

section Calls

variable {k k' : Kernel}

/-- A call that goes well, or fails and leaves the kernel as it is. -/
theorem Kernel.orFail_cases {ρ : Type} {choice : Choice} {good : Option (ρ × Kernel)}
    {bad reply : ρ} (h : k.orFail choice good bad = some (reply, k')) :
    good = some (reply, k') ∨ reply = bad ∧ k' = k := by
  cases choice with
  | succeeds => exact .inl h
  | fails =>
      cases h
      exact .inr ⟨rfl, rfl⟩
  | entry name => cases h

theorem direntOf_name {fs : FileSystem} {d : ℕ} {name : Text} {entry : Dirent}
    (h : direntOf fs d name = some entry) : entry.name = name := by
  unfold direntOf at h
  split at h
  · cases h
  · cases h
    rfl
  · cases h
    rfl
  · split at h <;> cases h
    rfl

/-- What `readdir` delivers comes from the directory, under the name that was chosen. -/
theorem Kernel.readdir_spec {dir dir' : DirStream} {choice : Choice} {entry : Option Dirent}
    (h : k.readdir dir choice = some ((entry, dir'), k')) :
    k' = k ∧ dir'.dir = dir.dir ∧ ∀ e, entry = some e →
      choice = .entry e.name ∧ direntOf k.fs dir.dir e.name = some e := by
  unfold Kernel.readdir at h
  split at h
  · obtain ⟨-, h⟩ := Option.ite_none_right_eq_some.1 h
    cases h
    exact ⟨rfl, rfl, nofun⟩
  · cases h
    exact ⟨rfl, rfl, nofun⟩
  · next name =>
      obtain ⟨-, h⟩ := Option.ite_none_left_eq_some.1 h
      obtain ⟨e, he, heq⟩ := Option.map_eq_some_iff.1 h
      cases heq
      refine ⟨rfl, rfl, ?_⟩
      rintro e' ⟨⟩
      rw [direntOf_name he]
      exact ⟨rfl, he⟩

theorem Kernel.opendir_spec {path : Text} {reply : Option DirStream}
    (h : k.opendir path = some (reply, k')) :
    ∃ n es, k.fs.find true path = .found n ∧ k.fs.entries n = some es ∧
      reply = some ⟨n, dirNames es, []⟩ ∧ k' = { k with entered := k.entered ++ [n] } := by
  unfold Kernel.opendir at h
  split at h
  · next n hfind =>
      obtain ⟨es, hes, heq⟩ := Option.map_eq_some_iff.1 h
      cases heq
      exact ⟨n, es, hfind, hes, rfl, rfl⟩
  · cases h

/-- `mkdir` changes the file system only. -/
theorem Kernel.mkdir_spec {path : Text} {reply : MkdirResult}
    (h : k.mkdir path = some (reply, k')) :
    reply ≠ .failed ∧ ∃ fs, Grows k.fs fs ∧ k' = { k with fs := fs } := by
  unfold Kernel.mkdir at h
  split at h <;> cases h
  · exact ⟨nofun, k.fs, .refl _, rfl⟩
  · exact ⟨nofun, _, grows_create _ _ _ _, rfl⟩

theorem Kernel.openSrc_eq {path : Text} {reply : Option ℕ}
    (h : k.openSrc path = some (reply, k')) :
    ∃ n, reply = some k.opens ∧ k' = k.allocate ⟨n, 0, false⟩ := by
  unfold Kernel.openSrc at h
  split at h <;> cases h
  exact ⟨_, rfl, rfl⟩

/-- `open` for writing changes the file system and then answers the next descriptor. -/
theorem Kernel.openDest_spec {path : Text} {reply : Option ℕ}
    (h : k.openDest path = some (reply, k')) :
    reply = some k.opens ∧
      ∃ fs file, Grows k.fs fs ∧ k' = { k with fs := fs }.allocate file := by
  unfold Kernel.openDest at h
  split at h
  · obtain ⟨-, h⟩ := Option.ite_none_left_eq_some.1 h
    cases h
    exact ⟨rfl, _, _, (grows_setContent _ _ _).1, rfl⟩
  · cases h
    exact ⟨rfl, _, _, grows_create _ _ _ _, rfl⟩
  · cases h

theorem next_eq_destroyBuffer {v : Version} {w : Walk DirStream ℕ}
    {resume : Unit → Walk DirStream ℕ} (h : w.next v = some ⟨.destroyBuffer, resume⟩) :
    ∃ left, w.pc = .destroying left ∧ w.breakDown = ⟨.undefined left, w.loops⟩ ∧
      resume () = ⟨.destroyed left, w.loops⟩ := by
  obtain ⟨pc, loops⟩ := w
  cases pc with
  | reading => cases loops <;> cases h
  | destroying left =>
      cases h
      exact ⟨left, rfl, rfl, rfl⟩
  | _ => cases h

theorem next_eq_push {v : Version} {w : Walk DirStream ℕ} {item : Item}
    {resume : Unit → Walk DirStream ℕ} (h : w.next v = some ⟨.push item, resume⟩) :
    w.pc = .pushing item ∧ resume () = ⟨.reading, w.loops⟩ := by
  obtain ⟨pc, loops⟩ := w
  cases pc with
  | reading => cases loops <;> cases h
  | pushing item =>
      cases h
      exact ⟨rfl, rfl⟩
  | _ => cases h

/-- What a call of the manager does to its walk and to the kernel. -/
inductive CallStep (k : Kernel) (choice : Choice) :
    Walk DirStream ℕ → Walk DirStream ℕ → Kernel → Prop
  /-- what fails before a file is open leads to `destroy_buffer` -/
  | fails {pc : WalkPC DirStream ℕ} {loops : List (Frame DirStream)}
      (hpc : (∃ path dest, pc = .opening path dest) ∨
        (∃ dir path dest, pc = .making dir path dest) ∨
          ∃ path dest name, pc = .openingSrc path dest name) :
      CallStep k choice ⟨pc, loops⟩ ⟨.destroying [], loops⟩ k
  | opens {path dest : Text} {loops : List (Frame DirStream)} {n : ℕ} {es : List (EntryName × ℕ)}
      (hfind : k.fs.find true path = .found n) (hes : k.fs.entries n = some es) :
      CallStep k choice ⟨.opening path dest, loops⟩
        ⟨.making ⟨n, dirNames es, []⟩ path dest, loops⟩ { k with entered := k.entered ++ [n] }
  | makes {dir : DirStream} {path dest : Text} {loops : List (Frame DirStream)}
      {reply : MkdirResult} {fs : FileSystem} (hgrows : Grows k.fs fs)
      (hmkdir : k.mkdir dest = some (reply, { k with fs := fs })) :
      CallStep k choice ⟨.making dir path dest, loops⟩ ⟨.reading, ⟨dir, path, dest⟩ :: loops⟩
        { k with fs := fs }
  | delivers {f : Frame DirStream} {rest : List (Frame DirStream)} {dir : DirStream} {e : Dirent}
      (hdir : dir.dir = f.dir.dir) (hchoice : choice = .entry e.name)
      (hentry : direntOf k.fs f.dir.dir e.name = some e) :
      CallStep k choice ⟨.reading, f :: rest⟩
        ⟨Walk.onEntry f e, { f with dir := dir } :: rest⟩ k
  | ends {f : Frame DirStream} {rest : List (Frame DirStream)} {dir : DirStream} :
      CallStep k choice ⟨.reading, f :: rest⟩ ⟨.closing dir, rest⟩ k
  | opensSrc {path dest name : Text} {loops : List (Frame DirStream)} {n : ℕ} :
      CallStep k choice ⟨.openingSrc path dest name, loops⟩
        ⟨.openingDest k.opens dest name, loops⟩ (k.allocate ⟨n, 0, false⟩)
  | opensDest {srcFd : ℕ} {dest name : Text} {loops : List (Frame DirStream)} {fs : FileSystem}
      {file : OpenFile} (hgrows : Grows k.fs fs)
      (hopen : k.openDest dest = some (some k.opens, { k with fs := fs }.allocate file)) :
      CallStep k choice ⟨.openingDest srcFd dest name, loops⟩
        ⟨.pushing ⟨srcFd, k.opens, itemName name⟩, loops⟩ ({ k with fs := fs }.allocate file)
  /-- HW4 closes the source first -/
  | failsDest {srcFd : ℕ} {dest name : Text} {loops : List (Frame DirStream)}
      {pc : WalkPC DirStream ℕ} (hpc : pc = .closingSrc srcFd ∨ pc = .destroying [srcFd]) :
      CallStep k choice ⟨.openingDest srcFd dest name, loops⟩ ⟨pc, loops⟩ k
  | closesSrc {srcFd : ℕ} {loops : List (Frame DirStream)} :
      CallStep k choice ⟨.closingSrc srcFd, loops⟩ ⟨.destroying [], loops⟩ (k.close srcFd)
  | exits {left : List ℕ} {loops : List (Frame DirStream)} :
      CallStep k choice ⟨.destroyed left, loops⟩ ⟨.exited left, loops⟩ k
  | closesDir {dir : DirStream} {loops : List (Frame DirStream)} :
      CallStep k choice ⟨.closing dir, loops⟩ ⟨.reading, loops⟩ k

theorem callStep_of_answer {v : Version} {w : Walk DirStream ℕ} {choice : Choice}
    {c : SysCall DirStream ℕ} {resume : Reply c → Walk DirStream ℕ} {reply : Reply c}
    (hnext : w.next v = some ⟨c, resume⟩) (hanswer : k.answer c choice = some (reply, k')) :
    CallStep k choice w (resume reply) k' := by
  obtain ⟨pc, loops⟩ := w
  cases pc with
  | opening path dest =>
      cases hnext
      rcases Kernel.orFail_cases hanswer with hgood | ⟨rfl, rfl⟩
      · obtain ⟨n, es, hfind, hes, rfl, rfl⟩ := Kernel.opendir_spec hgood
        exact .opens hfind hes
      · exact .fails (.inl ⟨path, dest, rfl⟩)
  | making dir path dest =>
      cases hnext
      rcases Kernel.orFail_cases hanswer with hgood | ⟨rfl, rfl⟩
      · obtain ⟨hne, fs, hgrows, rfl⟩ := Kernel.mkdir_spec hgood
        cases reply with
        | failed => exact absurd rfl hne
        | made | eexist => exact .makes hgrows hgood
      · exact .fails (.inr (.inl ⟨dir, path, dest, rfl⟩))
  | reading =>
      cases loops with
      | nil => cases hnext
      | cons f rest =>
          cases hnext
          obtain ⟨entry, dir⟩ := reply
          obtain ⟨rfl, hdir, hentry⟩ := Kernel.readdir_spec hanswer
          cases entry with
          | none => exact .ends
          | some e =>
              obtain ⟨hchoice, hdirent⟩ := hentry e rfl
              exact .delivers hdir hchoice hdirent
  | openingSrc path dest name =>
      cases hnext
      rcases Kernel.orFail_cases hanswer with hgood | ⟨rfl, rfl⟩
      · obtain ⟨n, rfl, rfl⟩ := Kernel.openSrc_eq hgood
        exact .opensSrc
      · exact .fails (.inr (.inr ⟨path, dest, name, rfl⟩))
  | openingDest srcFd dest name =>
      cases hnext
      rcases Kernel.orFail_cases hanswer with hgood | ⟨rfl, rfl⟩
      · obtain ⟨rfl, fs, file, hgrows, rfl⟩ := Kernel.openDest_spec hgood
        exact .opensDest hgrows hgood
      · cases v with
        | hw4 => exact .failsDest (.inl rfl)
        | hw5 => exact .failsDest (.inr rfl)
  | closingSrc srcFd =>
      cases hnext
      cases hanswer
      exact .closesSrc
  | pushing item =>
      cases hnext
      cases hanswer
  | closing dir =>
      cases hnext
      cases hanswer
      exact .closesDir
  | destroying left =>
      cases hnext
      cases hanswer
  | destroyed left =>
      cases hnext
      cases hanswer
      exact .exits
  | exited left | undefined left => cases hnext

end Calls

/-! ## What a step can do -/

/-- The source descriptor of an item whose other descriptor is still to be closed. -/
def WorkerPC.srcClosed : WorkerPC Item → Multiset ℕ
  | .closingDest item => {item.srcFd}
  | _ => 0

/-- No descriptor is closed. -/
structure Quiet (s s' : CopyState W Item) : Prop where
  closed : s'.closed = s.closed
  srcClosed : ∀ i, (s'.workers i).srcClosed = (s.workers i).srcClosed

/-- The steps of the program; the turns of the threads that neither move bytes nor close a
    descriptor are one constructor. -/
inductive ProgramStep (v : Version) (s : ProgramState W) :
    ProgramMove W → ProgramState W → Prop
  | calls (c : SysCall DirStream ℕ) (resume : Reply c → Walk DirStream ℕ) (choice : Choice)
      (reply : Reply c) (kernel : Kernel) (hidle : s.copy.manager = .pushing [])
      (hnext : s.walk.next v = some ⟨c, resume⟩)
      (hanswer : s.kernel.answer c choice = some (reply, kernel)) :
      ProgramStep v s (.walk choice) { s with walk := resume reply, kernel := kernel }
  | hands (item : Item) (resume : Unit → Walk DirStream ℕ) (choice : Choice)
      (hidle : s.copy.manager = .pushing []) (hnext : s.walk.next v = some ⟨.push item, resume⟩) :
      ProgramStep v s (.walk choice)
        { s with copy := { s.copy with manager := .pushing [item] }, walk := resume () }
  /-- the manager destroys the buffer, or somebody uses it where it must not -/
  | destroys (a : ProgramMove W) (left : List ℕ) (pc : WalkPC DirStream ℕ)
      (hpc : s.walk.pc = .destroying left ∨ s.walk.pc = .destroyed left)
      (hpc' : pc = .destroyed left ∨ pc = .undefined left) :
      ProgramStep v s a { s with walk := ⟨pc, s.walk.loops⟩ }
  | turns (a : ProgramMove W) (copy : CopyState W Item) (hstep : CopyStep v s.copy copy)
      (hquiet : Quiet s.copy copy)
      (hover : s.copy.manager = .pushing [] → copy.manager ≠ .pushing [] → s.walk.isOver = true) :
      ProgramStep v s a { s with copy := copy }
  | reads (i : Fin W) (count n : ℕ) (item : Item) (hi : s.copy.workers i = .copying item) :
      ProgramStep v s (.worker i count)
        { s with kernel := (s.kernel.read item.srcFd n).2
                 readBuffer := update s.readBuffer i (s.kernel.read item.srcFd n).1 }
  | writes (i : Fin W) (count : ℕ) (item : Item) (bytes : Text)
      (hi : s.copy.workers i = .copying item) :
      ProgramStep v s (.worker i count)
        { s with kernel := s.kernel.write item.destFd bytes
                 readBuffer := update s.readBuffer i [] }
  | closesSrc (i : Fin W) (count : ℕ) (item : Item) (hi : s.copy.workers i = .closingSrc item) :
      ProgramStep v s (.worker i count)
        { s with copy := { s.copy with workers := update s.copy.workers i (.closingDest item) }
                 kernel := s.kernel.close item.srcFd }
  | closesDest (i : Fin W) (count : ℕ) (item : Item) (hi : s.copy.workers i = .closingDest item) :
      ProgramStep v s (.worker i count)
        { s with copy := { s.copy with workers := update s.copy.workers i .popping
                                       closed := s.copy.closed ++ [(i, item)] }
                 kernel := s.kernel.close item.destFd }

theorem srcClosed_wake (x : WorkerPC Item) : x.wake.srcClosed = x.srcClosed := by
  cases x <;> rfl

/-- One worker moves to another program point, without closing a descriptor. -/
theorem Quiet.of_update {s s' : CopyState W Item} {i : Fin W} {x : WorkerPC Item}
    (hclosed : s'.closed = s.closed) (hworkers : s'.workers = update s.workers i x)
    (h : x.srcClosed = (s.workers i).srcClosed) : Quiet s s' := by
  refine ⟨hclosed, ?_⟩
  intro j
  rw [hworkers]
  by_cases hij : j = i
  · subst hij
    rw [update_self, h]
  · rw [update_of_ne hij]

theorem quiet_managerTurn {v : Version} {s s' : CopyState W Item} {woken : Option (Fin W)}
    (h : managerTurn v s woken = some s') : Quiet s s' := by
  unfold managerTurn at h
  split at h
  · split at h
    · cases h
      exact ⟨rfl, fun _ => rfl⟩
    · obtain ⟨workers, hsignal, rfl⟩ := Option.map_eq_some_iff.1 h
      exact ⟨rfl, signal_congr srcClosed_wake hsignal⟩
  · cases h
    exact ⟨rfl, broadcast_congr srcClosed_wake s.workers⟩
  · cases h
    exact ⟨rfl, fun _ => rfl⟩
  · obtain ⟨-, h⟩ := Option.ite_none_right_eq_some.1 h
    cases h
    exact ⟨rfl, fun _ => rfl⟩
  · cases h
  · cases h

theorem quiet_workerTurn {v : Version} {s s' : CopyState W Item} {i : Fin W}
    (h : workerTurn v s i = some s') (hsrc : ∀ item, s.workers i ≠ .closingSrc item)
    (hdest : ∀ item, s.workers i ≠ .closingDest item) : Quiet s s' := by
  unfold workerTurn at h
  split at h
  · next hi => split at h <;> cases h <;> exact .of_update rfl rfl (by rw [hi]; rfl)
  · next hi =>
      split at h <;> cases h <;> exact .of_update rfl rfl (by rw [hi]; cases v <;> rfl)
  · next hi =>
      cases h
      exact .of_update rfl rfl (by rw [hi]; rfl)
  · next item hi =>
      cases h
      exact .of_update rfl rfl (by rw [hi]; rfl)
  · next item hi => exact absurd hi (hsrc item)
  · next item hi => exact absurd hi (hdest item)
  · next hi =>
      cases h
      exact .of_update rfl rfl (by rw [hi]; rfl)
  · next hi =>
      obtain ⟨-, h⟩ := Option.ite_none_right_eq_some.1 h
      cases h
      exact .of_update rfl rfl (by rw [hi]; rfl)
  · cases h
  · cases h

/-- A worker leaves the manager alone unless it sleeps. -/
theorem manager_of_workerTurn {v : Version} {s s' : CopyState W Item} {i : Fin W}
    (h : workerTurn v s i = some s') (hm : s.manager = .pushing []) : s'.manager = .pushing [] := by
  unfold workerTurn at h
  split at h
  · split at h <;> cases h
    · exact hm
    · exact hm
    · rw [hm]
      rfl
  · split at h <;> cases h <;> exact hm
  · cases h; exact hm
  · cases h; exact hm
  · cases h; exact hm
  · cases h; exact hm
  · cases h; exact hm
  · obtain ⟨-, h⟩ := Option.ite_none_right_eq_some.1 h
    cases h
    exact hm
  · cases h
  · cases h

theorem manager_of_joinTurn {s s' : CopyState W Item} (h : joinTurn s = some s') :
    s'.manager = s.manager := by
  unfold joinTurn at h
  split at h
  · split at h <;> cases h
    rfl
  · split at h
    · split at h <;> cases h
      rfl
    · cases h

theorem quiet_joinTurn {s s' : CopyState W Item} (h : joinTurn s = some s') : Quiet s s' := by
  unfold joinTurn at h
  split at h
  · split at h <;> cases h
    exact ⟨rfl, fun _ => rfl⟩
  · split at h
    · split at h <;> cases h
      exact ⟨rfl, fun _ => rfl⟩
    · cases h

theorem programStep_of_callTurn {v : Version} {s s' : ProgramState W} {choice : Choice}
    {c : SysCall DirStream ℕ} {resume : Reply c → Walk DirStream ℕ}
    (hidle : s.copy.manager = .pushing []) (hnext : s.walk.next v = some ⟨c, resume⟩)
    (h : callTurn s c resume choice = some s') : ProgramStep v s (.walk choice) s' := by
  have hcalls : (s.kernel.answer c choice).map
      (fun r => { s with walk := resume r.1, kernel := r.2 }) = some s' →
      ProgramStep v s (.walk choice) s' := by
    intro h
    obtain ⟨⟨reply, kernel⟩, hanswer, rfl⟩ := Option.map_eq_some_iff.1 h
    exact .calls c resume choice reply kernel hidle hnext hanswer
  cases c with
  | push item =>
      cases h
      exact .hands item resume choice hidle hnext
  | destroyBuffer =>
      cases h
      obtain ⟨left, hpc, hbreak, hresume⟩ := next_eq_destroyBuffer hnext
      rw [hbreak, hresume]
      split
      · exact .destroys _ left _ (.inl hpc) (.inr rfl)
      · exact .destroys _ left _ (.inl hpc) (.inl rfl)
  | _ => exact hcalls h

theorem programStep_of_workerTurn {v : Version} {s s' : ProgramState W} {i : Fin W} {count : ℕ}
    (h : programWorkerTurn v s i count = some s') : ProgramStep v s (.worker i count) s' := by
  unfold programWorkerTurn at h
  split at h
  · next item hi =>
      unfold copyTurn at h
      split at h
      · split at h
        · obtain ⟨copy, hturn, rfl⟩ := Option.map_eq_some_iff.1 h
          exact .turns _ _ (copyStep_of_workerTurn hturn)
            (quiet_workerTurn hturn (by simp [hi]) (by simp [hi]))
            fun hm hne => absurd (manager_of_workerTurn hturn hm) hne
        · next bytes kernel _ hread =>
            cases h
            have := ProgramStep.reads (v := v) i count (min count 1024) item hi
            rwa [hread] at this
      · cases h
        exact .writes i count item _ hi
  · next item hi =>
      obtain ⟨copy, hturn, rfl⟩ := Option.map_eq_some_iff.1 h
      simp only [workerTurn, hi, Option.some.injEq] at hturn
      subst hturn
      exact .closesSrc i count item hi
  · next item hi =>
      obtain ⟨copy, hturn, rfl⟩ := Option.map_eq_some_iff.1 h
      simp only [workerTurn, hi, Option.some.injEq] at hturn
      subst hturn
      exact .closesDest i count item hi
  · next hcopying hsrc hdest =>
      obtain ⟨copy, hturn, rfl⟩ := Option.map_eq_some_iff.1 h
      exact .turns _ _ (copyStep_of_workerTurn hturn) (quiet_workerTurn hturn hsrc hdest)
        fun hm hne => absurd (manager_of_workerTurn hturn hm) hne

theorem exists_of_isDestroyed {w : Walk DirStream ℕ} (h : w.isDestroyed = true) :
    ∃ left, w.pc = .destroyed left ∧ w.breakDown = ⟨.undefined left, w.loops⟩ := by
  obtain ⟨pc, loops⟩ := w
  cases pc with
  | destroyed left => exact ⟨left, rfl, rfl⟩
  | _ => cases h

theorem programStep_of_next {v : Version} {size : ℤ} {stack : ℕ} {fs : FileSystem}
    {srcDir destDir : Text} {s s' : ProgramState W} {a : ProgramMove W}
    (h : (copyProgram v W size stack fs srcDir destDir).next s a = some s') :
    ProgramStep v s a s' := by
  obtain ⟨-, h⟩ := Option.ite_none_left_eq_some.1 h
  cases a with
  | walk choice =>
      simp only [programNext] at h
      split at h
      · next hidle hnext => exact programStep_of_callTurn hidle hnext h
      · cases h
  | manager woken =>
      simp only [programNext] at h
      split at h
      · cases h
      · next hguard =>
          obtain ⟨copy, hturn, rfl⟩ := Option.map_eq_some_iff.1 h
          refine .turns _ _ (copyStep_of_managerTurn hturn) (quiet_managerTurn hturn) ?_
          intro hm _
          cases hover : s.walk.isOver with
          | true => rfl
          | false => exact (hguard hm hover).elim
  | worker i count =>
      simp only [programNext] at h
      split at h
      · next hbroken =>
          cases h
          obtain ⟨left, hpc, hbreak⟩ := exists_of_isDestroyed (Bool.and_eq_true_iff.1 hbroken).1
          rw [hbreak]
          exact .destroys _ left _ (.inr hpc) (.inr rfl)
      · exact programStep_of_workerTurn h
  | join =>
      obtain ⟨copy, hturn, rfl⟩ := Option.map_eq_some_iff.1 h
      exact .turns _ _ (copyStep_of_joinTurn hturn) (quiet_joinTurn hturn)
        fun hm hne => absurd ((manager_of_joinTurn hturn).trans hm) hne
  | spuriousManager =>
      simp only [programNext] at h
      split at h
      · next rest hm =>
          cases h
          exact .turns _ _ (.managerWakes rest hm) ⟨rfl, fun _ => rfl⟩
            fun hidle => absurd (hm.symm.trans hidle) nofun
      · cases h
  | spuriousWorker i =>
      simp only [programNext] at h
      split at h
      · next hi =>
          cases h
          exact .turns _ _ (.workerWakes i hi) (.of_update rfl rfl (by rw [hi]; rfl))
            fun hm hne => absurd hm hne
      · cases h

end SystemProgramming.Copy
