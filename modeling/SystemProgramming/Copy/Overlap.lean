import SystemProgramming.Copy.Program

set_option autoImplicit false

/-! # Source and destination that overlap

The manager makes directories and empties files in the file system that it walks, and nothing in the
program compares the two sides. A run leaves the source alone as long as it is `Apart`: no
destination that is opened is a file of the source, nothing is created in a directory of the source,
and no source path is cut off at `PATH_MAX`. `Guarded` is what the kernel keeps in such runs, and
`OnSource` what the walk knows about the directories it has opened. -/

namespace SystemProgramming.Copy

open Function FileSystem

variable {W : ℕ}

/-! ## The source -/

/-- The directories of the source tree. -/
def SourceDir (fs : FileSystem) (srcDir : Text) (n : ℕ) : Prop :=
  ∃ top, fs.find true srcDir = .found top ∧ TreeDir fs top n

/-- The regular files of the source tree. -/
def SourceFile (fs : FileSystem) (srcDir : Text) (n : ℕ) : Prop :=
  ∃ top, fs.find true srcDir = .found top ∧ TreeFile fs top n

/-- The files of the source have the content they had at the start, and every directory that was
    opened was in the source tree at the start. -/
def SourceKept (fs : FileSystem) (srcDir : Text) (s : ProgramState W) : Prop :=
  (∀ n, SourceFile fs srcDir n → s.kernel.fs.content n = fs.content n) ∧
    ∀ d ∈ s.kernel.entered, SourceDir fs srcDir d

/-- The next call of `copy_directory` does not reach into the source: it creates nothing in a
    directory of the source and empties no file of the source; and the path of the entry that it
    reads is not cut off. -/
def WalkApart (fs : FileSystem) (srcDir : Text) (now : FileSystem) (w : Walk DirStream ℕ)
    (choice : Choice) : Prop :=
  match w.pc, w.loops with
  | .making _ _ destDir, _ =>
      ∀ d name, now.find false destDir = .missing d name → ¬ SourceDir fs srcDir d
  | .openingDest _ destPath _, _ =>
      (∀ n, now.find true destPath = .found n → ¬ SourceFile fs srcDir n) ∧
        ∀ d name, now.find true destPath = .missing d name → ¬ SourceDir fs srcDir d
  | .reading, f :: _ => ∀ name, choice = .entry name → (f.srcDir ++ '/' :: name).length < pathMax
  | _, _ => True

/-- A step that does not reach into the source. -/
def Apart (fs : FileSystem) (srcDir : Text) (s : ProgramState W) : ProgramMove W → Prop
  | .walk choice => WalkApart fs srcDir s.kernel.fs s.walk choice
  | _ => True

/-! ## What the kernel keeps -/

/-- The source is as it was, and no descriptor for writing refers to a file of it. -/
structure Guarded (fs : FileSystem) (srcDir : Text) (k : Kernel) : Prop where
  grows : Grows fs k.fs
  files : ∀ n, SourceFile fs srcDir n → k.fs.content n = fs.content n
  dirs : ∀ d, SourceDir fs srcDir d → k.fs.entries d = fs.entries d
  table : ∀ fd file, k.table fd = some file → file.writable = true →
    ¬ SourceFile fs srcDir file.inode
  entered : ∀ d ∈ k.entered, SourceDir fs srcDir d

namespace Guarded

variable {fs : FileSystem} {srcDir : Text} {k : Kernel}

theorem create (h : Guarded fs srcDir k) {d : ℕ} (hd : ¬ SourceDir fs srcDir d) (name : EntryName)
    (isDir : Bool) : Guarded fs srcDir { k with fs := k.fs.create d name isDir } := by
  refine ⟨h.grows.trans (grows_create _ d name isDir), ?_, ?_, h.table, h.entered⟩
  · intro n hn
    have hkept := h.files n hn
    -- `create` changes one directory, and a file of the source is none
    obtain ⟨top, htop, d', es, key, bytes, hdir, hes, hkey, hbytes⟩ := hn
    rw [hbytes] at hkept ⊢
    exact content_create hkept d name isDir
  · intro d' hd'
    have hkept := h.dirs d' hd'
    obtain ⟨top, htop, hdir⟩ := hd'
    obtain ⟨es, hes⟩ := hdir.entries
    rw [hes] at hkept ⊢
    refine entries_create hkept ?_ name isDir
    rintro rfl
    exact hd ⟨top, htop, hdir⟩

theorem setContent (h : Guarded fs srcDir k) {n : ℕ} (hn : ¬ SourceFile fs srcDir n)
    (bytes : Text) : Guarded fs srcDir { k with fs := k.fs.setContent n bytes } := by
  refine ⟨h.grows.trans (grows_setContent _ n bytes).1, ?_, ?_, h.table, h.entered⟩
  · intro m hm
    rw [← h.files m hm]
    refine content_setContent ?_ bytes
    rintro rfl
    exact hn hm
  · intro d hd
    rw [← h.dirs d hd]
    exact entries_setContent k.fs n bytes d

/-- A descriptor is opened, or its offset moves. -/
theorem update_table (h : Guarded fs srcDir k) (fd : ℕ) {file : OpenFile}
    (hfile : file.writable = true → ¬ SourceFile fs srcDir file.inode) (opens : ℕ) :
    Guarded fs srcDir { k with table := update k.table fd (some file), opens := opens } := by
  refine ⟨h.grows, h.files, h.dirs, ?_, h.entered⟩
  intro fd' file' hfd'
  by_cases heq : fd' = fd
  · subst heq
    obtain rfl : file = file' := by simpa using hfd'
    exact hfile
  · exact h.table fd' file' (by simpa [update_of_ne heq] using hfd')

theorem close (h : Guarded fs srcDir k) (fd : ℕ) : Guarded fs srcDir (k.close fd) := by
  refine ⟨h.grows, h.files, h.dirs, ?_, h.entered⟩
  intro fd' file hfd'
  by_cases heq : fd' = fd
  · subst heq
    simp [Kernel.close] at hfd'
  · exact h.table fd' file (by simpa [Kernel.close, update_of_ne heq] using hfd')

theorem read (h : Guarded fs srcDir k) (fd count : ℕ) : Guarded fs srcDir (k.read fd count).2 := by
  unfold Kernel.read
  cases hfile : k.table fd with
  | none => exact h
  | some file => exact h.update_table fd (by exact h.table fd file hfile) k.opens

theorem write (h : Guarded fs srcDir k) (fd : ℕ) (bytes : Text) :
    Guarded fs srcDir (k.write fd bytes) := by
  unfold Kernel.write
  cases hfile : k.table fd with
  | none => exact h
  | some file =>
      dsimp only
      split
      · next hwritable =>
          have hnot := h.table fd file hfile hwritable
          exact (h.setContent hnot _).update_table fd (by exact fun _ => hnot) k.opens
      · exact h

/-- A file of the source was there from the start, so that no new file is one. -/
theorem not_sourceFile_length (h : Guarded fs srcDir k) :
    ¬ SourceFile fs srcDir k.fs.nodes.length := by
  rintro ⟨top, htop, d, es, name, bytes, hdir, hes, hname, hbytes⟩
  obtain ⟨node, hnode, -⟩ := h.grows.nodes _ _ (content_eq_some_iff.1 hbytes)
  simp at hnode

theorem openDest (h : Guarded fs srcDir k) {path : Text} {reply : Option ℕ} {k' : Kernel}
    (hfound : ∀ n, k.fs.find true path = .found n → ¬ SourceFile fs srcDir n)
    (hmissing : ∀ d name, k.fs.find true path = .missing d name → ¬ SourceDir fs srcDir d)
    (hopen : k.openDest path = some (reply, k')) : Guarded fs srcDir k' := by
  unfold Kernel.openDest at hopen
  split at hopen
  · next n hn =>
      obtain ⟨-, hopen⟩ := Option.ite_none_left_eq_some.1 hopen
      cases hopen
      exact (h.setContent (hfound n hn) []).update_table k.opens (fun _ => hfound n hn) _
  · next d name hd =>
      cases hopen
      exact (h.create (hmissing d name hd) name false).update_table k.opens
        (fun _ => h.not_sourceFile_length) _
  · cases hopen

theorem mkdir (h : Guarded fs srcDir k) {path : Text} {reply : MkdirResult} {k' : Kernel}
    (hmissing : ∀ d name, k.fs.find false path = .missing d name → ¬ SourceDir fs srcDir d)
    (hmake : k.mkdir path = some (reply, k')) : Guarded fs srcDir k' := by
  unfold Kernel.mkdir at hmake
  split at hmake
  · cases hmake
    exact h
  · next d name hd =>
      cases hmake
      exact h.create (hmissing d name hd) name true
  · cases hmake

end Guarded

/-! ## What the walk knows -/

/-- The path leads to the directory, which is one of the source. -/
structure InSource (fs : FileSystem) (srcDir : Text) (now : FileSystem) (path : Text) (d : ℕ) :
    Prop where
  find : now.find true path = .found d
  dir : SourceDir fs srcDir d

/-- The loops of the walk are in directories of the source, and so is the directory it is about to
    open. -/
structure OnSource (fs : FileSystem) (srcDir : Text) (now : FileSystem)
    (w : Walk DirStream ℕ) : Prop where
  loops : ∀ f ∈ w.loops, InSource fs srcDir now f.srcDir f.dir.dir
  opening : ∀ path dest, w.pc = .opening path dest → ∀ n es, now.find true path = .found n →
    now.entries n = some es → SourceDir fs srcDir n
  making : ∀ dir path dest, w.pc = .making dir path dest → InSource fs srcDir now path dir.dir

section Walk

variable {fs now now' : FileSystem} {srcDir : Text}

theorem InSource.mono {path : Text} {d : ℕ} (h : InSource fs srcDir now path d)
    (hgrows : Grows now now') : InSource fs srcDir now' path d :=
  ⟨hgrows.find h.find, h.dir⟩

/-- The walk is neither about to open a directory nor about to make one. -/
theorem OnSource.of_loops {w : Walk DirStream ℕ}
    (hloops : ∀ f ∈ w.loops, InSource fs srcDir now f.srcDir f.dir.dir)
    (hopening : ∀ path dest, w.pc ≠ .opening path dest)
    (hmaking : ∀ dir path dest, w.pc ≠ .making dir path dest) : OnSource fs srcDir now w :=
  ⟨hloops, fun path dest hpc => absurd hpc (hopening path dest),
    fun dir path dest hpc => absurd hpc (hmaking dir path dest)⟩

/-- A change that leaves all paths and directories alone. -/
theorem OnSource.of_grows {w : Walk DirStream ℕ} (h : OnSource fs srcDir now w)
    (hgrows : Grows now now') (hback : Grows now' now)
    (hentries : ∀ n, now'.entries n = now.entries n) : OnSource fs srcDir now' w := by
  refine ⟨fun f hf => (h.loops f hf).mono hgrows, ?_,
    fun dir path dest hpc => (h.making dir path dest hpc).mono hgrows⟩
  intro path dest hpc n es hfind hes
  rw [hentries] at hes
  exact h.opening path dest hpc n es (hback.find hfind) hes

/-- A subdirectory that `readdir` delivers for a directory of the source is one of the source. -/
theorem sourceDir_of_direntOf {k : Kernel} (h : Guarded fs srcDir k) {path name : Text} {d : ℕ}
    (hd : InSource fs srcDir k.fs path d) {entry : Dirent}
    (hentry : direntOf k.fs d name = some entry) (hdots : name ≠ ['.'] ∧ name ≠ ['.', '.'])
    (hdir : entry.isDir = true) :
    ∃ m, k.fs.find true (path ++ '/' :: name) = .found m ∧ SourceDir fs srcDir m := by
  obtain ⟨top, htop, htree⟩ := hd.dir
  obtain ⟨es, hes⟩ := htree.entries
  have hkept : k.fs.entries d = some es := (h.dirs d hd.dir).trans hes
  unfold direntOf at hentry
  cases hc : component name with
  | none =>
      rw [hc] at hentry
      cases hentry
  | some c =>
      have htext := text_of_component hc
      cases c with
      | here => exact absurd htext.symm hdots.1
      | up => exact absurd htext.symm hdots.2
      | name n =>
          simp only [hc, hkept, Option.bind_some] at hentry
          cases hname : es.lookup n with
          | none => simp [hname] at hentry
          | some m =>
              simp only [hname, Option.some.injEq] at hentry
              subst hentry
              -- the entry was there at the start, and what is a directory now was one then
              obtain ⟨es', hes'⟩ := Option.isSome_iff_exists.1 hdir
              have hfind := find_join hd.find (step_name hkept hname hes')
              rw [show n.text = name from htext] at hfind
              obtain ⟨node, hnode⟩ := exists_node hes hname
              obtain ⟨es₀, hes₀⟩ := h.grows.entries_of_grown hnode hes'
              exact ⟨m, hfind, top, htop, .entry htree hes hname hes₀⟩

/-- The loop body on an entry of a directory of the source. -/
theorem onSource_onEntry {k : Kernel} (h : Guarded fs srcDir k) {f : Frame DirStream}
    {rest : List (Frame DirStream)} {dir' : DirStream} {e : Dirent}
    (hloops : ∀ g ∈ f :: rest, InSource fs srcDir k.fs g.srcDir g.dir.dir)
    (hdir : dir'.dir = f.dir.dir) (hentry : direntOf k.fs f.dir.dir e.name = some e)
    (hfits : (f.srcDir ++ '/' :: e.name).length < pathMax) :
    OnSource fs srcDir k.fs ⟨Walk.onEntry f e, { f with dir := dir' } :: rest⟩ := by
  refine ⟨?_, ?_, ?_⟩
  · intro g hg
    rcases List.mem_cons.1 hg with rfl | hg
    · show InSource fs srcDir k.fs f.srcDir dir'.dir
      rw [hdir]
      exact hloops f List.mem_cons_self
    · exact hloops g (List.mem_cons_of_mem _ hg)
  · intro path dest hpc n es hfind hes
    simp only [Walk.onEntry] at hpc
    split at hpc
    · next hdots =>
        split at hpc
        · next hisDir =>
            cases hpc
            obtain ⟨m, hm, hsource⟩ := sourceDir_of_direntOf h (hloops f List.mem_cons_self) hentry
              hdots hisDir
            rw [joinPath_eq hfits, hm] at hfind
            cases hfind
            exact hsource
        · cases hpc
    · cases hpc
  · intro dir path dest hpc
    simp only [Walk.onEntry] at hpc
    split at hpc
    · split at hpc <;> cases hpc
    · cases hpc

/-- A call that keeps apart from the source keeps it as it was. -/
theorem OnSource.calls {k k' : Kernel} {w w' : Walk DirStream ℕ} {choice : Choice}
    (hw : OnSource fs srcDir k.fs w) (h : Guarded fs srcDir k)
    (hapart : WalkApart fs srcDir k.fs w choice) (hcall : CallStep k choice w w' k') :
    Guarded fs srcDir k' ∧ OnSource fs srcDir k'.fs w' := by
  have hloops := hw.loops
  cases hcall with
  | fails hpc => exact ⟨h, .of_loops hloops nofun nofun⟩
  | @opens path dest loops n es hfind hes =>
      have hsource := hw.opening path dest rfl n es hfind hes
      refine ⟨⟨h.grows, h.files, h.dirs, h.table, ?_⟩, hloops, nofun, ?_⟩
      · intro d hd
        rcases List.mem_append.1 hd with hd | hd
        · exact h.entered d hd
        · rw [List.mem_singleton.1 hd]
          exact hsource
      · rintro dir path' dest' ⟨⟩
        exact ⟨hfind, hsource⟩
  | @makes dir path dest loops reply now' hgrows hmkdir =>
      refine ⟨h.mkdir hapart hmkdir, .of_loops ?_ nofun nofun⟩
      intro f hf
      rcases List.mem_cons.1 hf with rfl | hf
      · exact (hw.making dir path dest rfl).mono hgrows
      · exact (hloops f hf).mono hgrows
  | @delivers f rest dir e hdir hchoice hentry =>
      exact ⟨h, onSource_onEntry h hloops hdir hentry (hapart e.name hchoice)⟩
  | ends => exact ⟨h, .of_loops (fun g hg => hloops g (List.mem_cons_of_mem _ hg)) nofun nofun⟩
  | opensSrc =>
      exact ⟨h.update_table k.opens (fun hwritable => absurd hwritable Bool.false_ne_true) _,
        .of_loops hloops nofun nofun⟩
  | opensDest hgrows hopen =>
      exact ⟨h.openDest hapart.1 hapart.2 hopen,
        .of_loops (fun f hf => (hloops f hf).mono hgrows) nofun nofun⟩
  | failsDest hpc => rcases hpc with rfl | rfl <;> exact ⟨h, .of_loops hloops nofun nofun⟩
  | closesSrc => exact ⟨h.close _, .of_loops hloops nofun nofun⟩
  | exits | closesDir => exact ⟨h, .of_loops hloops nofun nofun⟩

end Walk

/-! ## Runs that keep apart -/

/-- The kernel and the walk of a run that has kept apart from the source. -/
structure SourceInv (fs : FileSystem) (srcDir : Text) (s : ProgramState W) : Prop where
  guarded : Guarded fs srcDir s.kernel
  onSource : OnSource fs srcDir s.kernel.fs s.walk

theorem OnSource.write {fs : FileSystem} {srcDir : Text} {k : Kernel} {w : Walk DirStream ℕ}
    (h : OnSource fs srcDir k.fs w) (fd : ℕ) (bytes : Text) :
    OnSource fs srcDir (k.write fd bytes).fs w := by
  unfold Kernel.write
  split
  · exact h
  · split
    · exact h.of_grows (grows_setContent _ _ _).1 (grows_setContent _ _ _).2
        (entries_setContent _ _ _)
    · exact h

theorem SourceInv.step {fs : FileSystem} {srcDir : Text} {v : Version} {s s' : ProgramState W}
    {a : ProgramMove W} (h : SourceInv fs srcDir s) (hapart : Apart fs srcDir s a)
    (hstep : ProgramStep v s a s') : SourceInv fs srcDir s' := by
  cases hstep with
  | calls c resume choice reply kernel hidle hnext hanswer =>
      obtain ⟨hguarded, honSource⟩ :=
        h.onSource.calls h.guarded hapart (callStep_of_answer hnext hanswer)
      exact ⟨hguarded, honSource⟩
  | hands item resume choice hidle hnext =>
      obtain ⟨-, hresume⟩ := next_eq_push hnext
      refine ⟨h.guarded, ?_⟩
      show OnSource fs srcDir s.kernel.fs (resume ())
      rw [hresume]
      exact .of_loops h.onSource.loops nofun nofun
  | destroys a left pc hpc hpc' =>
      refine ⟨h.guarded, ?_⟩
      rcases hpc' with rfl | rfl <;> exact .of_loops h.onSource.loops nofun nofun
  | turns a copy hcopy hquiet hover => exact ⟨h.guarded, h.onSource⟩
  | reads i count n item hi =>
      refine ⟨h.guarded.read item.srcFd n, ?_⟩
      have hfs : (s.kernel.read item.srcFd n).2.fs = s.kernel.fs := by
        unfold Kernel.read
        split <;> rfl
      show OnSource fs srcDir (s.kernel.read item.srcFd n).2.fs s.walk
      rw [hfs]
      exact h.onSource
  | writes i count item bytes hi =>
      exact ⟨h.guarded.write item.destFd bytes, h.onSource.write item.destFd bytes⟩
  | closesSrc i count item hi => exact ⟨h.guarded.close item.srcFd, h.onSource⟩
  | closesDest i count item hi => exact ⟨h.guarded.close item.destFd, h.onSource⟩

theorem sourceInv_start (memory : ℤ → Item) (size : ℤ) (fs : FileSystem) (srcDir destDir : Text) :
    SourceInv fs srcDir (programStart W memory size fs srcDir destDir) := by
  refine ⟨⟨.refl fs, fun _ _ => rfl, fun _ _ => rfl, nofun, nofun⟩, nofun, ?_, nofun⟩
  rintro path dest ⟨⟩ n es hfind hes
  exact ⟨n, hfind, .top hes⟩

/-- **Runs that keep apart leave the source alone.** In every run of the manager and the workers
    none of whose steps reaches into the source, the files of the source keep their content, and the
    manager descends only into directories that were in the source tree at the start. -/
theorem source_kept {v : Version} {size : ℤ} {stack : ℕ} {fs : FileSystem}
    {srcDir destDir : Text} {s : ProgramState W}
    (h : (copyProgram v W size stack fs srcDir destDir).ReachableUnder (Apart fs srcDir) s) :
    SourceKept fs srcDir s := by
  have hinv : SourceInv fs srcDir s := by
    refine h.invariant ?_ fun _ _ _ _ hi hok hn => hi.step hok (programStep_of_next hn)
    rintro s ⟨memory, rfl⟩
    exact sourceInv_start memory size fs srcDir destDir
  exact ⟨hinv.guarded.files, hinv.guarded.entered⟩

/-- The source `s` of `smallFs` is one directory. -/
theorem sourceDir_small {n : ℕ} (h : SourceDir smallFs ['s'] n) : n = 1 := by
  obtain ⟨top, htop, htree⟩ := h
  obtain rfl : 1 = top := Lookup.found.inj htop
  induction htree with
  | top _ => rfl
  | entry hdir hd hname hn ih =>
      subst ih
      obtain rfl := Option.some.inj hd
      obtain ⟨before, after, heq, -⟩ := List.lookup_eq_some_iff.1 hname
      cases before with
      | nil =>
          cases heq
          cases hn
      | cons e before => simp at heq

/-- The copy of `s` to `t`, up to the byte that the worker writes. -/
theorem source_kept_copied : ∃ s : ProgramState 1, s.kernel.fs.content 4 = some ['x'] ∧
    SourceKept smallFs ['s'] s := by
  have hstart : (copyProgram .hw5 1 1 2 smallFs ['s'] ['t']).ReachableUnder (Apart smallFs ['s'])
      (programStart 1 (fun _ => ⟨0, 0, []⟩) 1 smallFs ['s'] ['t']) := .init ⟨_, rfl⟩
  have hopened := hstart.step (a := .walk .succeeds) (by trivial) rfl
  have hmade := hopened.step (a := .walk .succeeds) (by
    rintro d name ⟨⟩ hd
    exact absurd (sourceDir_small hd) (by decide)) rfl
  have hread := hmade.step (a := .walk (.entry ['f'])) (by
    rintro name ⟨⟩
    decide) rfl
  have hsrc := hread.step (a := .walk .succeeds) (by trivial) rfl
  have hdest := hsrc.step (a := .walk .succeeds) (by
    refine ⟨nofun, ?_⟩
    rintro d name ⟨⟩ hd
    exact absurd (sourceDir_small hd) (by decide)) rfl
  have hitem := hdest.step (a := .walk .succeeds) (by trivial) rfl
  have hpushed := hitem.step (a := .manager none) (by trivial) rfl
  have hpopped := hpushed.step (a := .worker 0 0) (by trivial) rfl
  have hbytes := hpopped.step (a := .worker 0 1024) (by trivial) rfl
  have hwritten := hbytes.step (a := .worker 0 1024) (by trivial) rfl
  exact ⟨_, rfl, source_kept hwritten⟩

/-- Neither half holds of all runs: a directory copied to itself is emptied, and a directory copied
    into itself is descended into. -/
theorem source_harmed :
    (¬ ∀ (v : Version) (W : ℕ) (size : ℤ) (stack : ℕ) (fs : FileSystem) (srcDir destDir : Text)
      (s : ProgramState W), 1 ≤ size → (copyProgram v W size stack fs srcDir destDir).Reachable s →
        ∀ n, SourceFile fs srcDir n → s.kernel.fs.content n = fs.content n) ∧
    (¬ ∀ (v : Version) (W : ℕ) (size : ℤ) (stack : ℕ) (fs : FileSystem) (srcDir destDir : Text)
      (s : ProgramState W), 1 ≤ size → (copyProgram v W size stack fs srcDir destDir).Reachable s →
        ∀ d ∈ s.kernel.entered, SourceDir fs srcDir d) := by
  constructor
  · intro hall
    obtain ⟨s, hs, hcontent⟩ : ∃ s : ProgramState 1,
        (copyProgram .hw5 1 1 2 smallFs ['s'] ['s']).exec
          (programStart 1 (fun _ => ⟨0, 0, []⟩) 1 smallFs ['s'] ['s'])
          [.walk .succeeds, .walk .succeeds, .walk (.entry ['f']), .walk .succeeds,
            .walk .succeeds] = some s ∧ s.kernel.fs.content 2 = some [] := ⟨_, rfl, rfl⟩
    have hkept := hall .hw5 1 1 2 smallFs ['s'] ['s'] s (le_refl 1)
      (Machine.Reachable.exec _ (.init ⟨_, rfl⟩) hs) 2
      ⟨1, rfl, 1, _, .ofChar 'f' (by decide) (by decide), ['x'], .top rfl, rfl, rfl, rfl⟩
    rw [hcontent] at hkept
    cases hkept
  · intro hall
    obtain ⟨s, hs, hentered⟩ : ∃ s : ProgramState 1,
        (copyProgram .hw5 1 1 2 smallFs ['s'] ['s', '/', 't']).exec
          (programStart 1 (fun _ => ⟨0, 0, []⟩) 1 smallFs ['s'] ['s', '/', 't'])
          [.walk .succeeds, .walk .succeeds, .walk (.entry ['t']), .walk .succeeds] = some s ∧
        s.kernel.entered = [1, 3] := ⟨_, rfl, rfl⟩
    have hdir := hall .hw5 1 1 2 smallFs ['s'] ['s', '/', 't'] s (le_refl 1)
      (Machine.Reachable.exec _ (.init ⟨_, rfl⟩) hs) 3 (by rw [hentered]; decide)
    exact absurd (sourceDir_small hdir) (by decide)

end SystemProgramming.Copy
