import SystemProgramming.Copy.FileCopies
import SystemProgramming.Copy.Overlap

set_option autoImplicit false

/-! # The tree is copied

The manager walks the source, makes what it finds below a destination that was not there, and the
workers fill the files. `Stack` says what is in the destination while the manager is inside its
loops: each loop is at a path of the source, what `readdir` has delivered to it is below the same
path of the destination, all but the one entry that the loop is at. With `FileInv` for every file
that is there, the destination is the source when the threads have returned. -/

namespace SystemProgramming.Copy

open Function FileSystem

variable {W : ℕ}

/-! ## Source and destination -/

/-- A source that is there, and a destination that is not, in a directory outside the source; no
    path is cut off. -/
structure CopyJob where
  fs : FileSystem
  srcDir : Text
  destDir : Text
  top : ℕ
  parent : ℕ
  name : EntryName
  found : fs.find true srcDir = .found top
  missing : fs.find false destDir = .missing parent name
  outside : ¬ SourceDir fs srcDir parent
  fits : ∀ p, (fs.descend top p).isSome = true →
    (under srcDir p).length < pathMax ∧ (under destDir p).length < pathMax

namespace CopyJob

variable (job : CopyJob)

/-- The inode that the destination gets. -/
def copy : ℕ := job.fs.nodes.length

/-- All of the source from a path on is in the destination. -/
def Mirrored (now : FileSystem) (p : List EntryName) : Prop :=
  ∀ rest, (job.fs.descend job.top (p ++ rest)).isSome = true →
    (now.descend job.copy (p ++ rest)).isSome = true

/-- A loop of the walk at a path. -/
structure LoopInv (now : FileSystem) (f : Frame DirStream) (p : List EntryName) : Prop where
  src : f.srcDir = under job.srcDir p
  dest : f.destDir = under job.destDir p
  dir : job.fs.descend job.top p = some f.dir.dir
  find : now.find true f.srcDir = .found f.dir.dir
  listed : ∃ es, job.fs.entries f.dir.dir = some es ∧ f.dir.listed = dirNames es
  copied : ∃ e es, now.descend job.copy p = some e ∧ now.find true f.destDir = .found e ∧
    now.entries e = some es ∧ ∀ name, es.lookup name ≠ none → name.text ∈ f.dir.returned

/-- The loops of the walk, the innermost first, below a path that is not yet mirrored, or with
    everything mirrored that was delivered. -/
inductive Stack (now : FileSystem) : Option (List EntryName) → List (Frame DirStream) → Prop
  | ended (h : job.Mirrored now []) : Stack now none []
  | top : Stack now (some []) []
  | loop {f : Frame DirStream} {rest : List (Frame DirStream)} {p : List EntryName}
      {cur : Option (List EntryName)} (h : job.LoopInv now f p)
      (hcur : ∀ q, cur = some q → ∃ name, q = p ++ [name] ∧ name.text ∈ f.dir.returned)
      (hdone : ∀ name, name.text ∈ f.dir.returned → cur ≠ some (p ++ [name]) →
        job.Mirrored now (p ++ [name]))
      (hrest : Stack now (some p) rest) : Stack now cur (f :: rest)

/-- Where the walk is, once the destination is made. -/
inductive WalkInv (k : Kernel) : Walk DirStream ℕ → Prop
  | opening {p : List EntryName} {n : ℕ} {loops : List (Frame DirStream)}
      (hn : job.fs.descend job.top p = some n) (hdir : ∃ es, job.fs.entries n = some es)
      (hfind : k.fs.find true (under job.srcDir p) = .found n)
      (hnew : k.fs.descend job.copy p = none) (hstack : job.Stack k.fs (some p) loops) :
      WalkInv k ⟨.opening (under job.srcDir p) (under job.destDir p), loops⟩
  | making {p : List EntryName} {dir : DirStream} {loops : List (Frame DirStream)}
      (hn : job.fs.descend job.top p = some dir.dir)
      (hfind : k.fs.find true (under job.srcDir p) = .found dir.dir)
      (hlisted : ∃ es, job.fs.entries dir.dir = some es ∧ dir.listed = dirNames es)
      (hreturned : dir.returned = []) (hnew : k.fs.descend job.copy p = none)
      (hstack : job.Stack k.fs (some p) loops) :
      WalkInv k ⟨.making dir (under job.srcDir p) (under job.destDir p), loops⟩
  | reading {loops : List (Frame DirStream)} (hstack : job.Stack k.fs none loops) :
      WalkInv k ⟨.reading, loops⟩
  | openingSrc {p : List EntryName} {n : ℕ} {name : Text} {loops : List (Frame DirStream)}
      (hn : job.fs.descend job.top p = some n) (hdir : job.fs.entries n = none)
      (hfind : ∀ source, job.fs.content n = some source →
        k.fs.find true (under job.srcDir p) = .found n)
      (hnew : k.fs.descend job.copy p = none) (hstack : job.Stack k.fs (some p) loops) :
      WalkInv k ⟨.openingSrc (under job.srcDir p) (under job.destDir p) name, loops⟩
  | openingDest {p : List EntryName} {n srcFd : ℕ} {name : Text} {loops : List (Frame DirStream)}
      (hn : job.fs.descend job.top p = some n) (hdir : job.fs.entries n = none)
      (hopen : ∀ source, job.fs.content n = some source →
        k.table srcFd = some ⟨n, 0, false⟩)
      (hnew : k.fs.descend job.copy p = none) (hstack : job.Stack k.fs (some p) loops) :
      WalkInv k ⟨.openingDest srcFd (under job.destDir p) name, loops⟩
  | pushing {item : Item} {loops : List (Frame DirStream)}
      (hstack : job.Stack k.fs none loops) : WalkInv k ⟨.pushing item, loops⟩
  | closing {dir : DirStream} {loops : List (Frame DirStream)}
      (hstack : job.Stack k.fs none loops) : WalkInv k ⟨.closing dir, loops⟩

/-- The destination is a tree of new inodes, which has nothing but copies of the source. -/
structure DestTree (now : FileSystem) : Prop where
  lt : job.copy < now.nodes.length
  unique : ∀ p q m, now.descend job.copy p = some m → now.descend job.copy q = some m → p = q
  fresh : ∀ p m, now.descend job.copy p = some m → job.fs.nodes.length ≤ m
  inSource : ∀ p m, now.descend job.copy p = some m → (job.fs.descend job.top p).isSome = true
  dirs : ∀ p n m, job.fs.descend job.top p = some n → now.descend job.copy p = some m →
    (job.fs.entries n).isSome = true → (now.entries m).isSome = true

/-- The destination is not made yet. -/
structure Starting (s : ProgramState W) : Prop where
  fs : s.kernel.fs = job.fs
  pairs : s.pairs = []
  walk : s.walk = ⟨.opening job.srcDir job.destDir, []⟩ ∨
    ∃ dir, s.walk = ⟨.making dir job.srcDir job.destDir, []⟩ ∧ dir.dir = job.top ∧
      (∃ es, job.fs.entries job.top = some es ∧ dir.listed = dirNames es) ∧ dir.returned = []

/-- The destination is made, and its files are copied. -/
structure Filling (s : ProgramState W) : Prop where
  walk : job.WalkInv s.kernel s.walk
  tree : job.DestTree s.kernel.fs
  find : s.kernel.fs.find true job.destDir = .found job.copy
  top : ∃ es, job.fs.entries job.top = some es
  files : ∀ p n m source, job.fs.descend job.top p = some n →
    s.kernel.fs.descend job.copy p = some m → job.fs.content n = some source →
    FileInv s n m source

end CopyJob

/-! ## The loops -/

theorem EntryName.eq_of_text {name name' : EntryName} (h : name.text = name'.text) :
    name = name' := by
  cases name
  cases name'
  cases h
  rfl

theorem under_snoc (dir : Text) (p : List EntryName) (name : EntryName) :
    under dir (p ++ [name]) = under dir p ++ '/' :: name.text := by
  rw [under_append, under_cons, under_nil]

namespace CopyJob

variable {job : CopyJob} {now now' : FileSystem} {loops : List (Frame DirStream)}
  {p : List EntryName}

theorem Mirrored.mono (h : job.Mirrored now p) (hgrows : Grows now now') :
    job.Mirrored now' p := by
  intro rest hrest
  obtain ⟨m, hm⟩ := Option.isSome_iff_exists.1 (h rest hrest)
  exact Option.isSome_iff_exists.2 ⟨m, hgrows.descend hm⟩

/-- Something that is there and no directory of the source. -/
theorem mirrored_of_descend {n m : ℕ} (hn : job.fs.descend job.top p = some n)
    (hdir : job.fs.entries n = none) (hm : now.descend job.copy p = some m) :
    job.Mirrored now p := by
  intro rest hrest
  by_cases hnil : rest = []
  · rw [hnil, List.append_nil, hm]
    rfl
  · rw [descend_of_entries_none hn hdir hnil] at hrest
    cases hrest

/-- The path that the loops were at is mirrored. -/
theorem Stack.mirrored (h : job.Stack now (some p) loops) (hp : job.Mirrored now p) :
    job.Stack now none loops := by
  cases h with
  | top => exact .ended hp
  | @loop f rest q cur hloop hcur hdone hrest =>
      refine .loop hloop nofun (fun name hname _ => ?_) hrest
      by_cases heq : some p = some (q ++ [name])
      · rw [← Option.some.inj heq]
        exact hp
      · exact hdone name hname heq

/-- The innermost loop has got its last entry. -/
theorem mirrored_of_ends {f : Frame DirStream} (hloop : job.LoopInv now f p)
    (hdone : ∀ name, name.text ∈ f.dir.returned → job.Mirrored now (p ++ [name]))
    (hall : ∀ name ∈ f.dir.listed, name ∈ f.dir.returned) : job.Mirrored now p := by
  intro rest hrest
  obtain ⟨es, hes, hlisted⟩ := hloop.listed
  cases rest with
  | nil =>
      obtain ⟨e, -, he, -⟩ := hloop.copied
      rw [List.append_nil, he]
      rfl
  | cons name rest =>
      have hmem : name.text ∈ f.dir.listed := by
        obtain ⟨m, hm, hsome⟩ := descend_isSome_of_append hrest
        rw [hloop.dir] at hm
        obtain rfl := Option.some.inj hm
        rw [descend, hes, Option.bind_some] at hsome
        cases hname : es.lookup name with
        | none =>
            rw [hname] at hsome
            cases hsome
        | some x =>
            obtain ⟨before, after, rfl, -⟩ := List.lookup_eq_some_iff.1 hname
            rw [hlisted]
            simp [dirNames]
      have hsplit : p ++ name :: rest = (p ++ [name]) ++ rest := by simp
      rw [hsplit] at hrest ⊢
      exact hdone name (hall _ hmem) rest hrest

/-- Behind the innermost loop the path that it is at is missing, when it is new. -/
theorem Stack.missing (h : job.Stack now (some p) loops)
    (hnew : now.descend job.copy p = none) :
    ∃ q name e es, p = q ++ [name] ∧ now.descend job.copy q = some e ∧
      now.entries e = some es ∧ es.lookup name = none ∧
      ∀ last, now.find last (under job.destDir p) = .missing e name := by
  cases h with
  | top => cases hnew
  | @loop f rest q cur hloop hcur hdone hrest =>
      obtain ⟨name, rfl, -⟩ := hcur p rfl
      obtain ⟨e, es, he, hfind, hes, -⟩ := hloop.copied
      have hname : es.lookup name = none := by rw [← descend_snoc_of_entries he hes, hnew]
      refine ⟨q, name, e, es, rfl, he, hes, hname, fun last => ?_⟩
      rw [under_snoc, ← hloop.dest]
      exact find_absent hfind hes hname last

/-- A loop keeps its place while things are made in other directories, or under its own name. -/
theorem LoopInv.create {f : Frame DirStream} {q : List EntryName} {e : ℕ} {name : EntryName}
    {es : List (EntryName × ℕ)} (h : job.LoopInv now f p) (htree : job.DestTree now)
    (he : now.descend job.copy q = some e) (hes : now.entries e = some es)
    (hown : p = q → name.text ∈ f.dir.returned) (isDir : Bool) :
    job.LoopInv (now.create e name isDir) f p := by
  have hgrows := grows_create now e name isDir
  obtain ⟨hsrc, hdest, hdir, hfind, hlisted, x, l, hx, hpath, hl, hnames⟩ := h
  refine ⟨hsrc, hdest, hdir, hgrows.find hfind, hlisted, x, ?_⟩
  by_cases hxe : x = e
  · subst hxe
    obtain rfl : es = l := Option.some.inj (hes.symm.trans hl)
    refine ⟨_, hgrows.descend hx, hgrows.find hpath, entries_create_self hes, fun c hc => ?_⟩
    by_cases hname : c = name
    · rw [hname]
      exact hown (htree.unique p q x hx he)
    · refine hnames c fun hnone => hc ?_
      rw [List.lookup_append, hnone]
      simp [List.lookup_cons, beq_false_of_ne hname]
  · have hlt : x < now.nodes.length := by
      obtain ⟨parent, hnode⟩ := entries_eq_some_iff.1 hl
      exact (List.getElem?_eq_some_iff.1 hnode).1
    exact ⟨l, hgrows.descend hx, hgrows.find hpath,
      (entries_create_of_ne hes hxe (by omega)).trans hl, hnames⟩

/-- The loops keep their places when the path that they are at is made: only the innermost loop is
    in the directory where this happens. -/
theorem Stack.create {q r : List EntryName} {e : ℕ} {name : EntryName}
    {es : List (EntryName × ℕ)} (h : job.Stack now (some r) loops) (htree : job.DestTree now)
    (he : now.descend job.copy q = some e) (hes : now.entries e = some es)
    (hle : r.length ≤ q.length + 1) (hr : r.length = q.length + 1 → r = q ++ [name])
    (isDir : Bool) : job.Stack (now.create e name isDir) (some r) loops := by
  have hgrows := grows_create now e name isDir
  induction loops generalizing r with
  | nil =>
      cases h
      exact .top
  | cons f rest ih =>
      cases h with
      | @loop _ _ p _ hloop hcur hdone hrest =>
          obtain ⟨c, rfl, hc⟩ := hcur r rfl
          rw [List.length_append, List.length_singleton] at hle hr
          refine .loop (hloop.create htree he hes ?_ isDir) hcur
            (fun c hc hne => (hdone c hc hne).mono hgrows)
            (ih hrest (by omega) fun hlen => absurd hlen (by omega))
          rintro rfl
          have hname : c = name := by simpa using hr rfl
          rwa [← hname]

/-! ## The tree of the destination -/

theorem DestTree.descend_create (htree : job.DestTree now) {q : List EntryName} {e : ℕ}
    {name : EntryName} {es : List (EntryName × ℕ)} (he : now.descend job.copy q = some e)
    (hes : now.entries e = some es) (hname : es.lookup name = none) (isDir : Bool)
    (p : List EntryName) : (now.create e name isDir).descend job.copy p =
      if p = q ++ [name] then some now.nodes.length else now.descend job.copy p :=
  FileSystem.descend_create htree.lt he hes hname (fun r hr => htree.unique r q e hr he) p

/-- Something is made for an entry of the source. -/
theorem DestTree.create (htree : job.DestTree now) {q : List EntryName} {e : ℕ}
    {name : EntryName} {es : List (EntryName × ℕ)} (he : now.descend job.copy q = some e)
    (hes : now.entries e = some es) (hname : es.lookup name = none) {isDir : Bool} {n : ℕ}
    (hn : job.fs.descend job.top (q ++ [name]) = some n)
    (hdir : (job.fs.entries n).isSome = true → isDir = true) :
    job.DestTree (now.create e name isDir) := by
  have hgrows := grows_create now e name isDir
  have hdescend := htree.descend_create he hes hname isDir
  have hlt : ∀ p m, now.descend job.copy p = some m → m < now.nodes.length :=
    fun p m hm => descend_lt htree.lt hm
  refine ⟨?_, ?_, ?_, ?_, ?_⟩
  · rw [length_create hes]
    exact htree.lt.trans (Nat.lt_succ_self _)
  · intro p r m hp hr
    rw [hdescend] at hp hr
    split at hp <;> split at hr
    · rw [‹p = _›, ‹r = _›]
    · obtain rfl := Option.some.inj hp
      exact absurd (hlt r _ hr) (Nat.lt_irrefl _)
    · obtain rfl := Option.some.inj hr
      exact absurd (hlt p _ hp) (Nat.lt_irrefl _)
    · exact htree.unique p r m hp hr
  · intro p m hp
    rw [hdescend] at hp
    split at hp
    · obtain rfl := Option.some.inj hp
      exact Nat.le_of_lt htree.lt
    · exact htree.fresh p m hp
  · intro p m hp
    rw [hdescend] at hp
    split at hp
    · rw [‹p = _›, hn]
      rfl
    · exact htree.inSource p m hp
  · intro p x m hx hp hsome
    rw [hdescend] at hp
    split at hp
    · next heq =>
        obtain rfl := Option.some.inj hp
        rw [heq, hn] at hx
        obtain rfl := Option.some.inj hx
        rw [entries_create_new hes, hdir hsome]
        rfl
    · obtain ⟨es', hes'⟩ := Option.isSome_iff_exists.1 (htree.dirs p x m hx hp hsome)
      obtain ⟨es'', hes'', -⟩ := hgrows.entries hes'
      rw [hes'']
      rfl

/-! ## The calls of the manager -/

section Calls

variable {v : Version} {size : ℤ} {s s' : ProgramState W}

/-- The walk meets nothing in the destination. -/
theorem Filling.creates (h : job.Filling s) : WalkCreates s := by
  have hwalk := h.walk
  intro srcFd dest name hpc
  obtain ⟨copy, w, k, readBuffer⟩ := s
  cases hwalk with
  | openingDest hn hdir hopen hnew hstack =>
      cases hpc
      obtain ⟨q, key, e, es, -, -, -, -, hfind⟩ := hstack.missing hnew
      exact ⟨e, key, hfind true⟩
  | _ => cases hpc

theorem sourceDir (htop : ∃ es, job.fs.entries job.top = some es) {n : ℕ}
    (hn : job.fs.descend job.top p = some n) (hdir : ∃ es, job.fs.entries n = some es) :
    SourceDir job.fs job.srcDir n :=
  ⟨job.top, job.found, treeDir_of_descend hn htop hdir⟩

theorem sourceFile (htop : ∃ es, job.fs.entries job.top = some es) {n : ℕ} {source : Text}
    (hn : job.fs.descend job.top p = some n) (hsource : job.fs.content n = some source) :
    SourceFile job.fs job.srcDir n :=
  ⟨job.top, job.found, treeFile_of_descend hn htop hsource⟩

/-- The files that are there are copied on. -/
theorem Filling.files_step (h : job.Filling s) (hguard : Guarded job.fs job.srcDir s.kernel)
    (hdesc : DescriptorInv size s) (hpairs : PairsInv s) (hstep : GoodStep v s s') {n m : ℕ}
    {source : Text} (hn : job.fs.descend job.top p = some n)
    (hm : s.kernel.fs.descend job.copy p = some m) (hsource : job.fs.content n = some source) :
    FileInv s' n m source := by
  refine (h.files p n m source hn hm hsource).step hdesc hpairs h.creates ?_ hstep
  rw [hguard.files n (sourceFile h.top hn hsource), hsource]

/-- A call that changes no path. -/
theorem Filling.of_fs (h : job.Filling s) (hguard : Guarded job.fs job.srcDir s.kernel)
    (hdesc : DescriptorInv size s) (hpairs : PairsInv s) (hstep : GoodStep v s s')
    (hwalk : job.WalkInv s'.kernel s'.walk) (hfs : s'.kernel.fs = s.kernel.fs) :
    job.Filling s' := by
  refine ⟨hwalk, ?_, ?_, h.top, fun p n m source hn hm hsource => ?_⟩
  · rw [hfs]
    exact h.tree
  · rw [hfs]
    exact h.find
  · rw [hfs] at hm
    exact h.files_step hguard hdesc hpairs hstep hn hm hsource

/-- A call that makes something for an entry of the source. -/
theorem Filling.create (h : job.Filling s) (hguard : Guarded job.fs job.srcDir s.kernel)
    (hdesc : DescriptorInv size s) (hpairs : PairsInv s) (hstep : GoodStep v s s')
    {q : List EntryName} {key : EntryName} {e n : ℕ} {es : List (EntryName × ℕ)} {isDir : Bool}
    (he : s.kernel.fs.descend job.copy q = some e) (hes : s.kernel.fs.entries e = some es)
    (hname : es.lookup key = none) (hn : job.fs.descend job.top (q ++ [key]) = some n)
    (hdir : (job.fs.entries n).isSome = true → isDir = true)
    (hfs : s'.kernel.fs = s.kernel.fs.create e key isDir)
    (hwalk : job.WalkInv s'.kernel s'.walk)
    (hfile : ∀ source, job.fs.content n = some source →
      FileInv s' n s.kernel.fs.nodes.length source) : job.Filling s' := by
  refine ⟨hwalk, ?_, ?_, h.top, fun p x m source hx hm hsource => ?_⟩
  · rw [hfs]
    exact h.tree.create he hes hname hn hdir
  · rw [hfs]
    exact (grows_create _ _ _ _).find h.find
  · rw [hfs, h.tree.descend_create he hes hname isDir] at hm
    split at hm
    · next heq =>
        obtain rfl := Option.some.inj hm
        rw [heq, hn] at hx
        obtain rfl := Option.some.inj hx
        exact hfile source hsource
    · exact h.files_step hguard hdesc hpairs hstep hx hm hsource

/-- `readdir` delivers a new entry to the innermost loop. -/
theorem Stack.delivers {f : Frame DirStream} {rest : List (Frame DirStream)} {name : Text}
    {cur : Option (List EntryName)} (hloop : job.LoopInv now f p)
    (hdone : ∀ name, name.text ∈ f.dir.returned → job.Mirrored now (p ++ [name]))
    (hrest : job.Stack now (some p) rest)
    (hcur : ∀ q, cur = some q → ∃ key : EntryName, q = p ++ [key] ∧ key.text = name)
    (hkey : ∀ key : EntryName, key.text = name → cur = some (p ++ [key])) :
    job.Stack now cur
      ({ f with dir := { f.dir with returned := name :: f.dir.returned } } :: rest) := by
  obtain ⟨hsrc, hdest, hdir, hfind, hlisted, e, es, he, hpath, hes, hnames⟩ := hloop
  refine .loop ⟨hsrc, hdest, hdir, hfind, hlisted, e, es, he, hpath, hes,
    fun key hk => List.mem_cons_of_mem _ (hnames key hk)⟩ (fun q hq => ?_) (fun key hk hne => ?_)
    hrest
  · obtain ⟨key, rfl, hk⟩ := hcur q hq
    exact ⟨key, rfl, by rw [hk]; exact List.mem_cons_self⟩
  · rcases List.mem_cons.1 hk with hk | hk
    · exact absurd (hkey key hk) hne
    · exact hdone key hk

/-- The loop body on a name of the source that is new. -/
theorem walkInv_name {k : Kernel} {f : Frame DirStream} {rest : List (Frame DirStream)}
    {entry : Dirent} {key : EntryName} {es : List (EntryName × ℕ)} {m : ℕ}
    (htop : ∃ es, job.fs.entries job.top = some es)
    (hguard : Guarded job.fs job.srcDir k) (hloop : job.LoopInv k.fs f p)
    (hdone : ∀ name, name.text ∈ f.dir.returned → job.Mirrored k.fs (p ++ [name]))
    (hrest : job.Stack k.fs (some p) rest) (hnew : entry.name ∉ f.dir.returned)
    (hes : job.fs.entries f.dir.dir = some es) (hkept : k.fs.entries f.dir.dir = some es)
    (hlookup : es.lookup key = some m) (hname : entry.name = key.text)
    (hisDir : entry.isDir = (k.fs.entries m).isSome) :
    job.WalkInv k ⟨Walk.onEntry f entry,
      { f with dir := { f.dir with returned := entry.name :: f.dir.returned } } :: rest⟩ := by
  have hm : job.fs.descend job.top (p ++ [key]) = some m := by
    rw [descend_snoc_of_entries hloop.dir hes, hlookup]
  have honEntry : Walk.onEntry f entry = if entry.isDir
      then .opening (under job.srcDir (p ++ [key])) (under job.destDir (p ++ [key]))
      else (.openingSrc (under job.srcDir (p ++ [key])) (under job.destDir (p ++ [key]))
        entry.name : WalkPC DirStream ℕ) := by
    have hfits := job.fits (p ++ [key]) (by rw [hm]; rfl)
    have hdots : entry.name ≠ ['.'] ∧ entry.name ≠ ['.', '.'] := by
      rw [hname]
      exact ⟨key.notDot, key.notDotDot⟩
    rw [under_snoc, under_snoc] at hfits ⊢
    rw [Walk.onEntry, if_pos hdots]
    dsimp only
    rw [hloop.src, hloop.dest, hname, joinPath_eq hfits.1, joinPath_eq hfits.2]
  have habsent : k.fs.descend job.copy (p ++ [key]) = none := by
    obtain ⟨e, l, he, -, hl, hnames⟩ := hloop.copied
    rw [descend_snoc_of_entries he hl]
    by_contra hne
    exact hnew (by rw [hname]; exact hnames key hne)
  have hstack : job.Stack k.fs (some (p ++ [key]))
      ({ f with dir := { f.dir with returned := entry.name :: f.dir.returned } } :: rest) :=
    .delivers hloop hdone hrest (fun q hq => ⟨key, (Option.some.inj hq).symm, hname.symm⟩)
      fun key' hk => by rw [EntryName.eq_of_text (hk.trans hname)]
  rw [honEntry]
  cases hsome : k.fs.entries m with
  | some es' =>
      rw [hsome, Option.isSome_some] at hisDir
      rw [if_pos hisDir]
      obtain ⟨node, hnode⟩ := exists_node hes hlookup
      refine .opening hm (hguard.grows.entries_of_grown hnode hsome) ?_ habsent hstack
      rw [under_snoc, ← hloop.src]
      exact find_join hloop.find (step_name hkept hlookup hsome)
  | none =>
      rw [hsome, Option.isSome_none] at hisDir
      rw [if_neg (Bool.eq_false_iff.1 hisDir)]
      have hnone : job.fs.entries m = none := by
        cases hm' : job.fs.entries m with
        | none => rfl
        | some l =>
            obtain ⟨l', hl', -⟩ := hguard.grows.entries hm'
            rw [hsome] at hl'
            cases hl'
      refine .openingSrc hm hnone (fun source hsource => ?_) habsent hstack
      rw [under_snoc, ← hloop.src]
      have hcontent : k.fs.content m = some source :=
        (hguard.files m (sourceFile htop hm hsource)).trans hsource
      exact find_join hloop.find (step_file hkept hlookup hcontent)

/-- The loop body on `.` and `..`, which are skipped. -/
theorem walkInv_dots {k : Kernel} {f : Frame DirStream} {rest : List (Frame DirStream)}
    {entry : Dirent} {c : Component} (hloop : job.LoopInv k.fs f p)
    (hdone : ∀ name, name.text ∈ f.dir.returned → job.Mirrored k.fs (p ++ [name]))
    (hrest : job.Stack k.fs (some p) rest) (htext : c.text = entry.name)
    (hkey : ∀ key : EntryName, key.text ≠ c.text)
    (hskip : ¬ (entry.name ≠ ['.'] ∧ entry.name ≠ ['.', '.'])) :
    job.WalkInv k ⟨Walk.onEntry f entry,
      { f with dir := { f.dir with returned := entry.name :: f.dir.returned } } :: rest⟩ := by
  rw [Walk.onEntry, if_neg hskip]
  exact .reading (.delivers hloop hdone hrest
    (fun q hq => absurd hq.symm (Option.some_ne_none q))
    fun key hk => absurd (hk.trans htext.symm) (hkey key))

/-- The loop body on an entry that is new. -/
theorem walkInv_delivers {k : Kernel} {f : Frame DirStream} {rest : List (Frame DirStream)}
    {entry : Dirent} (htop : ∃ es, job.fs.entries job.top = some es)
    (hguard : Guarded job.fs job.srcDir k) (hloop : job.LoopInv k.fs f p)
    (hdone : ∀ name, name.text ∈ f.dir.returned → job.Mirrored k.fs (p ++ [name]))
    (hrest : job.Stack k.fs (some p) rest) (hnew : entry.name ∉ f.dir.returned)
    (hentry : direntOf k.fs f.dir.dir entry.name = some entry) :
    job.WalkInv k ⟨Walk.onEntry f entry,
      { f with dir := { f.dir with returned := entry.name :: f.dir.returned } } :: rest⟩ := by
  obtain ⟨es, hes, -⟩ := hloop.listed
  have hkept : k.fs.entries f.dir.dir = some es :=
    (hguard.dirs _ (sourceDir htop hloop.dir ⟨es, hes⟩)).trans hes
  unfold direntOf at hentry
  cases hc : component entry.name with
  | none =>
      rw [hc] at hentry
      cases hentry
  | some c =>
      have htext := text_of_component hc
      cases c with
      | here =>
          exact walkInv_dots hloop hdone hrest htext (fun key => key.notDot) fun h =>
            h.1 htext.symm
      | up =>
          exact walkInv_dots hloop hdone hrest htext (fun key => key.notDotDot) fun h =>
            h.2 htext.symm
      | name key =>
          simp only [hc, hkept, Option.bind_some] at hentry
          cases hlookup : es.lookup key with
          | none =>
              rw [hlookup] at hentry
              cases hentry
          | some m =>
              simp only [hlookup, Option.some.injEq] at hentry
              exact walkInv_name htop hguard hloop hdone hrest hnew hes hkept hlookup htext.symm
                (by rw [← hentry])

/-- A new inode is no directory of the source. -/
theorem DestTree.not_sourceDir (h : job.DestTree now) {q : List EntryName} {e : ℕ}
    (he : now.descend job.copy q = some e) : ¬ SourceDir job.fs job.srcDir e := by
  rintro ⟨top, -, htree⟩
  obtain ⟨es, hes⟩ := htree.entries
  obtain ⟨parent, hnode⟩ := entries_eq_some_iff.1 hes
  have hlt := (List.getElem?_eq_some_iff.1 hnode).1
  have := h.fresh q e he
  omega

theorem Filling.guarded (h : job.Filling s) (hguard : Guarded job.fs job.srcDir s.kernel)
    {walk : Walk DirStream ℕ} {kernel : Kernel} (hcall : GoodCall s.kernel s.walk walk kernel) :
    Guarded job.fs job.srcDir kernel := by
  obtain ⟨hwalk, htree, -, htop, -⟩ := h
  obtain ⟨copy, w, k, readBuffer⟩ := s
  cases hcall with
  | @opens path dest loops n es hfind hes =>
      cases hwalk with
      | opening hn hdir hpath hnew hstack =>
          rw [hpath] at hfind
          obtain rfl := Lookup.found.inj hfind
          refine ⟨hguard.grows, hguard.files, hguard.dirs, hguard.table, fun d hd => ?_⟩
          rcases List.mem_append.1 hd with hd | hd
          · exact hguard.entered d hd
          · rw [List.mem_singleton.1 hd]
            exact sourceDir htop hn hdir
  | makes hfind =>
      cases hwalk with
      | making hn hpath hlisted hreturned hnew hstack =>
          obtain ⟨q, key, e, es, -, he, -, -, hmissing⟩ := hstack.missing hnew
          cases (hmissing false).symm.trans hfind
          exact hguard.create (htree.not_sourceDir he) _ _
  | opensSrc hfind =>
      exact hguard.update_table k.opens (fun hwritable => absurd hwritable Bool.false_ne_true) _
  | opensDest hopen =>
      cases hwalk with
      | openingDest hn hdir hsrc hnew hstack =>
          obtain ⟨q, key, e, es, -, he, -, -, hmissing⟩ := hstack.missing hnew
          refine hguard.openDest (fun n hn => ?_) (fun d name hd => ?_) hopen
          · cases (hmissing true).symm.trans hn
          · cases (hmissing true).symm.trans hd
            exact htree.not_sourceDir he
  | meets | delivers | ends | closesDir => exact hguard

/-- The destination is filled with every call of the manager. -/
theorem Filling.calls (h : job.Filling s) (hguard : Guarded job.fs job.srcDir s.kernel)
    (hdesc : DescriptorInv size s) (hpairs : PairsInv s) {walk : Walk DirStream ℕ}
    {kernel : Kernel} (hidle : s.copy.manager = .pushing [])
    (hcall : GoodCall s.kernel s.walk walk kernel) :
    job.Filling { s with walk := walk, kernel := kernel } := by
  have hstep : GoodStep .hw5 s { s with walk := walk, kernel := kernel } :=
    .calls walk kernel hidle hcall
  have hwalk := h.walk
  have htree := h.tree
  obtain ⟨copy, w, k, readBuffer⟩ := s
  cases hcall with
  | @opens path dest loops n es hfind hes =>
      cases hwalk with
      | opening hn hdir hpath hnew hstack =>
          rw [hpath] at hfind
          obtain rfl := Lookup.found.inj hfind
          have hkept := hguard.dirs _ (sourceDir h.top hn hdir)
          exact h.of_fs hguard hdesc hpairs hstep
            (.making hn hpath ⟨es, hkept.symm.trans hes, rfl⟩ rfl hnew hstack) rfl
  | @makes dir path dest loops d name hfind =>
      cases hwalk with
      | @making p _ _ hn hpath hlisted hreturned hnew hstack =>
          obtain ⟨q, key, e, es, rfl, he, hes, hname, hmissing⟩ := hstack.missing hnew
          cases (hmissing false).symm.trans hfind
          have hgrows := grows_create k.fs d name true
          have hdir : ∃ l, job.fs.entries dir.dir = some l := hlisted.imp fun _ => And.left
          have hmade : (k.fs.create d name true).descend job.copy (q ++ [name])
              = some k.fs.nodes.length := by
            rw [htree.descend_create he hes hname, if_pos rfl]
          refine h.create hguard hdesc hpairs hstep he hes hname hn (fun _ => rfl) rfl
            (.reading (.loop ⟨rfl, rfl, hn, hgrows.find hpath, hlisted, k.fs.nodes.length, [],
              hmade, find_create (hmissing false) true, ?_, nofun⟩ nofun (fun c hc => ?_)
              (hstack.create htree he hes (by simp) (fun _ => rfl) true))) fun source hsource => ?_
          · rw [entries_create_new hes]
            rfl
          · rw [hreturned] at hc
            cases hc
          · obtain ⟨l, hl⟩ := hdir
            obtain ⟨parent, hnode⟩ := entries_eq_some_iff.1 hl
            rw [content_eq_some_iff, hnode] at hsource
            cases hsource
  | meets hfind =>
      cases hwalk with
      | making hn hpath hlisted hreturned hnew hstack =>
          obtain ⟨q, key, e, es, -, -, -, -, hmissing⟩ := hstack.missing hnew
          cases (hmissing false).symm.trans hfind
  | delivers hnew hentry =>
      cases hwalk with
      | reading hstack =>
          cases hstack with
          | loop hloop hcur hdone hrest =>
              exact h.of_fs hguard hdesc hpairs hstep (walkInv_delivers h.top hguard hloop
                (fun name hname => hdone name hname nofun) hrest hnew hentry) rfl
  | ends hall =>
      cases hwalk with
      | reading hstack =>
          cases hstack with
          | loop hloop hcur hdone hrest =>
              exact h.of_fs hguard hdesc hpairs hstep (.closing (hrest.mirrored
                (mirrored_of_ends hloop (fun name hname => hdone name hname nofun) hall))) rfl
  | opensSrc hfind =>
      cases hwalk with
      | openingSrc hn hdir hpath hnew hstack =>
          refine h.of_fs hguard hdesc hpairs hstep
            (.openingDest hn hdir (fun source hsource => ?_) hnew hstack) rfl
          have hfound := hpath source hsource
          rw [hfind] at hfound
          obtain rfl := Lookup.found.inj hfound
          exact update_self _ _ _
  | @opensDest srcFd dest name loops k' hopen =>
      cases hwalk with
      | @openingDest p n _ _ _ hn hdir hsrc hnew hstack =>
          obtain ⟨q, key, e, es, rfl, he, hes, hname, hmissing⟩ := hstack.missing hnew
          obtain rfl := openDest_missing (hmissing true) hopen
          have hmade : (k.fs.create e key false).descend job.copy (q ++ [key])
              = some k.fs.nodes.length := by
            rw [htree.descend_create he hes hname, if_pos rfl]
          refine h.create hguard hdesc hpairs hstep he hes hname hn (fun hsome => ?_) rfl
            (.pushing ((hstack.create htree he hes (by simp) (fun _ => rfl) false).mirrored
              (mirrored_of_descend hn hdir hmade))) fun source hsource => ?_
          · rw [hdir] at hsome
            cases hsome
          · -- the new pair has copied nothing yet
            have hlt := hdesc.ledger.lt srcFd (Multiset.mem_add.2 (.inl List.mem_cons_self))
            have hnobody : ∀ i, (⟨srcFd, k.opens, itemName name⟩ : Item) ∉ (copy.workers i).held :=
              fun i hi => (hdesc.lt_opens (hdesc.mem_pairs_of_held hi)).2.ne rfl
            refine .making ⟨srcFd, k.opens, itemName name⟩ 0 [] ?_ ⟨?_, update_self _ _ _,
              content_create_new hes, Nat.zero_le _, rfl, .inr ⟨fun i hi => ?_, rfl⟩,
              fun i hi => ?_⟩
            · unfold ProgramState.pairs ProgramState.inManager
              simp [Walk.item]
            · exact (update_of_ne hlt.ne _ _).trans (hsrc source hsource)
            · exact hnobody i (by rw [show copy.workers i = _ from hi]; exact
                Multiset.mem_singleton_self _)
            · exact absurd (by rw [show copy.workers i = _ from hi]; exact
                Multiset.mem_singleton_self _) (hnobody i)
  | closesDir =>
      cases hwalk with
      | closing hstack => exact h.of_fs hguard hdesc hpairs hstep (.reading hstack) rfl

end Calls

/-! ## Whole runs -/

section Runs

variable {v : Version} {size : ℤ} {stack : ℕ} {s s' : ProgramState W}

theorem Stack.of_grows {cur : Option (List EntryName)} (h : job.Stack now cur loops)
    (hgrows : Grows now now') (hentries : ∀ n, now'.entries n = now.entries n) :
    job.Stack now' cur loops := by
  induction h with
  | ended h => exact .ended (h.mono hgrows)
  | top => exact .top
  | loop hloop hcur hdone hrest ih =>
      obtain ⟨hsrc, hdest, hdir, hfind, hlisted, e, es, he, hpath, hes, hnames⟩ := hloop
      exact .loop ⟨hsrc, hdest, hdir, hgrows.find hfind, hlisted, e, es, hgrows.descend he,
        hgrows.find hpath, (hentries e).trans hes, hnames⟩ hcur
        (fun c hc hne => (hdone c hc hne).mono hgrows) ih

/-- The workers change no path, and not the descriptor that the manager is about to hand over. -/
theorem WalkInv.of_grows {k k' : Kernel} {w : Walk DirStream ℕ} (h : job.WalkInv k w)
    (hgrows : Grows k.fs k'.fs) (hentries : ∀ n, k'.fs.entries n = k.fs.entries n)
    (hdescend : ∀ p, k'.fs.descend job.copy p = k.fs.descend job.copy p)
    (htable : ∀ fd ∈ w.half, k'.table fd = k.table fd) : job.WalkInv k' w := by
  cases h with
  | opening hn hdir hfind hnew hstack =>
      exact .opening hn hdir (hgrows.find hfind) ((hdescend _).trans hnew)
        (hstack.of_grows hgrows hentries)
  | making hn hfind hlisted hreturned hnew hstack =>
      exact .making hn (hgrows.find hfind) hlisted hreturned ((hdescend _).trans hnew)
        (hstack.of_grows hgrows hentries)
  | reading hstack => exact .reading (hstack.of_grows hgrows hentries)
  | openingSrc hn hdir hfind hnew hstack =>
      exact .openingSrc hn hdir (fun source hsource => hgrows.find (hfind source hsource))
        ((hdescend _).trans hnew) (hstack.of_grows hgrows hentries)
  | openingDest hn hdir hopen hnew hstack =>
      exact .openingDest hn hdir
        (fun source hsource => (htable _ List.mem_cons_self).trans (hopen source hsource))
        ((hdescend _).trans hnew) (hstack.of_grows hgrows hentries)
  | pushing hstack => exact .pushing (hstack.of_grows hgrows hentries)
  | closing hstack => exact .closing (hstack.of_grows hgrows hentries)

/-- What a worker does to the file system: nothing, or it gives a file another content. -/
inductive Writes (now : FileSystem) : FileSystem → Prop
  | same : Writes now now
  | content (n : ℕ) (bytes : Text) : Writes now (now.setContent n bytes)

theorem writes_write (k : Kernel) (fd : ℕ) (bytes : Text) :
    Writes k.fs (k.write fd bytes).fs := by
  unfold Kernel.write
  split
  · exact .same
  · split
    · exact .content _ _
    · exact .same

/-- Every path stays what it was. -/
theorem Writes.paths (h : Writes now now') : Grows now now' ∧
    now'.nodes.length = now.nodes.length ∧ (∀ n, now'.entries n = now.entries n) ∧
    ∀ root p, now'.descend root p = now.descend root p := by
  cases h with
  | same => exact ⟨.refl _, rfl, fun _ => rfl, fun _ _ => rfl⟩
  | content n bytes =>
      exact ⟨(grows_setContent _ _ _).1, length_setContent _ _ _,
        fun m => entries_setContent _ _ _ m, fun root p => descend_setContent _ _ root p⟩

/-- A step of the threads. -/
theorem Filling.threads (h : job.Filling s) (hguard : Guarded job.fs job.srcDir s.kernel)
    (hdesc : DescriptorInv size s) (hpairs : PairsInv s) (hstep : GoodStep v s s')
    (hwrites : Writes s.kernel.fs s'.kernel.fs)
    (hwalk : s'.walk = s.walk ∨ ∃ item, s.walk.pc = .pushing item ∧
      s'.walk = ⟨.reading, s.walk.loops⟩)
    (htable : ∀ fd ∈ s.walk.half, s'.kernel.table fd = s.kernel.table fd) :
    job.Filling s' := by
  obtain ⟨hinv, ⟨hlt, hunique, hfresh, hinSource, hdirs⟩, hfind, htop, hfiles⟩ := id h
  obtain ⟨hgrows, hlength, hentries, hdescend⟩ := hwrites.paths
  refine ⟨?_, ⟨by omega, fun p q m hp hq => ?_, fun p m hp => ?_, fun p m hp => ?_,
    fun p n m hn hp hsome => ?_⟩, hgrows.find hfind, htop, fun p n m source hn hm hsource => ?_⟩
  · have hkept := hinv.of_grows hgrows hentries (hdescend _) htable
    rcases hwalk with heq | ⟨item, hpc, heq⟩
    · rwa [heq]
    · rw [heq]
      obtain ⟨copy, w, k, readBuffer⟩ := s
      cases hkept with
      | pushing hstack => exact .reading hstack
      | _ => cases hpc
  · rw [hdescend] at hp hq
    exact hunique p q m hp hq
  · rw [hdescend] at hp
    exact hfresh p m hp
  · rw [hdescend] at hp
    exact hinSource p m hp
  · rw [hdescend] at hp
    rw [hentries]
    exact hdirs p n m hn hp hsome
  · rw [hdescend] at hm
    exact h.files_step hguard hdesc hpairs hstep hn hm hsource

/-- The descriptor of a half-opened pair is no worker's. -/
theorem half_ne (hdesc : DescriptorInv size s) {i : Fin W} {item : Item}
    (hi : item ∈ (s.copy.workers i).held) {fd : ℕ} (hfd : fd ∈ s.walk.half) :
    fd ≠ item.srcFd ∧ fd ≠ item.destFd := by
  obtain ⟨hsrc, hdest⟩ := descriptors_of_mem (Multiset.mem_coe.2 (hdesc.mem_pairs_of_held hi))
  have hdisjoint := Multiset.disjoint_left.1 (Multiset.nodup_add.1 hdesc.ledger.nodup).2.2 hfd
  exact ⟨fun heq => hdisjoint (heq ▸ hsrc), fun heq => hdisjoint (heq ▸ hdest)⟩

theorem Filling.step (h : job.Filling s) (hguard : Guarded job.fs job.srcDir s.kernel)
    (hdesc : DescriptorInv size s) (hpairs : PairsInv s) (hstep : GoodStep v s s') :
    job.Filling s' := by
  have hthreads := h.threads hguard hdesc hpairs hstep
  cases hstep with
  | calls walk kernel hidle hcall => exact h.calls hguard hdesc hpairs hidle hcall
  | hands item hidle hpc => exact hthreads .same (.inr ⟨item, hpc, rfl⟩) fun _ _ => rfl
  | turns copy hcopy hcalm => exact hthreads .same (.inl rfl) fun _ _ => rfl
  | reads i item n hi hempty =>
      refine hthreads ?_ (.inl rfl) fun fd hfd => Kernel.read_table_of_ne
        (half_ne hdesc (i := i) (by rw [hi]; exact Multiset.mem_singleton_self item) hfd).1
      dsimp only
      rw [Kernel.read_fs]
      exact .same
  | ends i item n hi hempty hn hnone => exact hthreads .same (.inl rfl) fun _ _ => rfl
  | writes i item hi =>
      exact hthreads (writes_write _ _ _) (.inl rfl) fun fd hfd => Kernel.write_table_of_ne
        (half_ne hdesc (i := i) (by rw [hi]; exact Multiset.mem_singleton_self item) hfd).2
  | closesSrc i item hi =>
      exact hthreads .same (.inl rfl) fun fd hfd => update_of_ne
        (half_ne hdesc (i := i) (by rw [hi]; exact Multiset.mem_singleton_self item) hfd).1 _ _
  | closesDest i item hi =>
      exact hthreads .same (.inl rfl) fun fd hfd => update_of_ne
        (half_ne hdesc (i := i) (by rw [hi]; exact Multiset.mem_singleton_self item) hfd).2 _ _

/-- Nothing is below a directory without entries. -/
theorem descend_of_empty {root : ℕ} (hes : now.entries root = some []) {m : ℕ}
    (h : now.descend root p = some m) : p = [] ∧ m = root := by
  cases p with
  | nil => exact ⟨rfl, (Option.some.inj h).symm⟩
  | cons name rest =>
      rw [FileSystem.descend, hes] at h
      cases h

/-- The destination is made. -/
theorem Starting.makes (hfs : s.kernel.fs = job.fs) {dir : DirStream}
    (hdir : dir.dir = job.top)
    (hlisted : ∃ es, job.fs.entries job.top = some es ∧ dir.listed = dirNames es)
    (hreturned : dir.returned = [])
    (hwalk : s'.walk = ⟨.reading, [⟨dir, job.srcDir, job.destDir⟩]⟩)
    (hmade : s'.kernel.fs = s.kernel.fs.create job.parent job.name true) :
    job.Filling s' := by
  obtain ⟨l, hl, hlist⟩ := hlisted
  obtain ⟨es, hes, -⟩ := entries_of_missing job.missing
  rw [hfs] at hmade
  have hempty : s'.kernel.fs.entries job.copy = some [] := by
    rw [hmade]
    exact entries_create_new hes
  have hfind : s'.kernel.fs.find true job.destDir = .found job.copy := by
    rw [hmade]
    exact find_create job.missing true
  refine ⟨?_, ⟨?_, ?_, ?_, ?_, ?_⟩, hfind, ⟨l, hl⟩, ?_⟩
  · rw [hwalk]
    refine .reading (.loop (p := []) ⟨(under_nil _).symm, (under_nil _).symm, ?_, ?_, ⟨l, ?_, hlist⟩, job.copy, [], rfl, hfind,
      hempty, nofun⟩ nofun (fun name hname => ?_) .top)
    · exact congrArg some hdir.symm
    · rw [hmade, hdir]
      exact (grows_create _ _ _ _).find job.found
    · rw [hdir]
      exact hl
    · rw [hreturned] at hname
      cases hname
  · rw [hmade, length_create hes]
    exact Nat.lt_succ_self _
  · intro p q m hp hq
    rw [(descend_of_empty hempty hp).1, (descend_of_empty hempty hq).1]
  · intro p m hp
    rw [(descend_of_empty hempty hp).2]
    exact le_refl _
  · intro p m hp
    rw [(descend_of_empty hempty hp).1]
    rfl
  · intro p n m hn hm hsome
    rw [(descend_of_empty hempty hm).2, hempty]
    rfl
  · intro p n m source hn hm hsource
    -- the top of the source is no file
    rw [(descend_of_empty hempty hm).1] at hn
    obtain rfl := Option.some.inj hn
    obtain ⟨parent, hnode⟩ := entries_eq_some_iff.1 hl
    rw [content_eq_some_iff, hnode] at hsource
    cases hsource

/-- No worker has an item as long as none is opened. -/
theorem Starting.no_item (h : job.Starting s) (hdesc : DescriptorInv size s) {i : Fin W}
    {item : Item} : item ∉ (s.copy.workers i).held := by
  intro hi
  have hitem := hdesc.mem_pairs_of_held hi
  rw [h.pairs] at hitem
  cases hitem

theorem Starting.step (h : job.Starting s) (hguard : Guarded job.fs job.srcDir s.kernel)
    (hdesc : DescriptorInv size s) (hstep : GoodStep v s s') :
    (job.Starting s' ∨ job.Filling s') ∧ Guarded job.fs job.srcDir s'.kernel := by
  have hnone : ∀ i item, item ∉ (s.copy.workers i).held := fun _ _ => h.no_item hdesc
  have hpc := h.walk
  cases hstep with
  | calls walk kernel hidle hcall =>
      obtain ⟨hfs, hpairs, hwalk⟩ := h
      obtain ⟨copy, w, k, readBuffer⟩ := s
      obtain ⟨fs, table, opens, closes, entered⟩ := k
      obtain rfl : fs = job.fs := hfs
      obtain rfl | ⟨dir, rfl, hdir, hlisted, hreturned⟩ := hwalk
      · cases hcall with
        | opens hfind hes =>
            obtain rfl := Lookup.found.inj (job.found.symm.trans hfind)
            refine ⟨.inl ⟨rfl, hpairs, .inr ⟨_, rfl, rfl, ⟨_, hes, rfl⟩, rfl⟩⟩,
              hguard.grows, hguard.files, hguard.dirs, hguard.table, fun d hd => ?_⟩
            rcases List.mem_append.1 hd with hd | hd
            · exact hguard.entered d hd
            · rw [List.mem_singleton.1 hd]
              exact ⟨job.top, job.found, .top hes⟩
      · cases hcall with
        | makes hfind =>
            cases job.missing.symm.trans hfind
            exact ⟨.inr (Starting.makes (s := ⟨copy, _, ⟨job.fs, table, opens, closes, entered⟩,
              readBuffer⟩) rfl hdir hlisted hreturned rfl rfl), hguard.create job.outside _ _⟩
        | meets hfind => cases job.missing.symm.trans hfind
  | hands item hidle hpush =>
      rcases hpc with hpc | ⟨dir, hpc, -⟩ <;> rw [hpc] at hpush <;> cases hpush
  | turns copy hcopy hcalm =>
      exact ⟨.inl ⟨h.fs, (hdesc.pairs_of_turn hcopy).trans h.pairs, h.walk⟩, hguard⟩
  | reads i item n hi hempty =>
      exact absurd (by rw [hi]; exact Multiset.mem_singleton_self item) (hnone i item)
  | ends i item n hi hempty hn hends =>
      exact absurd (by rw [hi]; exact Multiset.mem_singleton_self item) (hnone i item)
  | writes i item hi =>
      exact absurd (by rw [hi]; exact Multiset.mem_singleton_self item) (hnone i item)
  | closesSrc i item hi =>
      exact absurd (by rw [hi]; exact Multiset.mem_singleton_self item) (hnone i item)
  | closesDest i item hi =>
      exact absurd (by rw [hi]; exact Multiset.mem_singleton_self item) (hnone i item)

theorem Filling.guarded_step (h : job.Filling s) (hguard : Guarded job.fs job.srcDir s.kernel)
    (hstep : GoodStep v s s') : Guarded job.fs job.srcDir s'.kernel := by
  cases hstep with
  | calls walk kernel hidle hcall => exact h.guarded hguard hcall
  | reads i item n hi hempty => exact hguard.read _ _
  | writes i item hi => exact hguard.write _ _
  | closesSrc i item hi => exact hguard.close _
  | closesDest i item hi => exact hguard.close _
  | _ => exact hguard

/-- What holds in every state of a run in which no call fails. -/
structure CopyInv (job : CopyJob) (s : ProgramState W) : Prop where
  place : job.Starting s ∨ job.Filling s
  guarded : Guarded job.fs job.srcDir s.kernel
  pairs : PairsInv s

theorem CopyInv.step (h : job.CopyInv s) (hdesc : DescriptorInv size s)
    (hstep : GoodStep v s s') : job.CopyInv s' := by
  obtain ⟨hstarting | hfilling, hguard, hpairs⟩ := h
  · have hcreates : WalkCreates s := by
      intro srcFd dest name hpc
      rcases hstarting.walk with heq | ⟨dir, heq, -⟩ <;> rw [heq] at hpc <;> cases hpc
    obtain ⟨hplace, hguard⟩ := hstarting.step hguard hdesc hstep
    exact ⟨hplace, hguard, hpairs.step hdesc hcreates hstep⟩
  · exact ⟨.inr (hfilling.step hguard hdesc hpairs hstep), hfilling.guarded_step hguard hstep,
      hpairs.step hdesc hfilling.creates hstep⟩

/-- No call of the manager has failed. -/
theorem CopyInv.isFailing (h : job.CopyInv s) : s.walk.isFailing = false := by
  rcases h.place with hstarting | hfilling
  · rcases hstarting.walk with heq | ⟨dir, heq, -⟩ <;> rw [heq] <;> rfl
  · have hwalk := hfilling.walk
    generalize s.walk = w at hwalk
    cases hwalk <;> rfl

theorem copyInv_reachable (hsize : 1 ≤ size)
    (h : (copyProgram v W size stack job.fs job.srcDir job.destDir).ReachableUnder CallsSucceed s) :
    job.CopyInv s := by
  refine h.invariant ?_ fun s a s' hs hinv hok hnext =>
    hinv.step (descriptorInv_reachable hsize hs.reachable)
      (goodStep_of_next hinv.isFailing hok hnext)
  rintro s ⟨memory, rfl⟩
  exact ⟨.inl ⟨rfl, rfl, .inl rfl⟩, (sourceInv_start memory size _ _ _).guarded, nofun, nofun,
    fun _ _ => rfl⟩

end Runs

/-- What the destination has to be in the end: the paths of the source and no others, directories
    where the source has directories, and for every regular file a file with the same text. -/
structure Copied (job : CopyJob) (now : FileSystem) : Prop where
  find : now.find true job.destDir = .found job.copy
  paths : ∀ p, (now.descend job.copy p).isSome = (job.fs.descend job.top p).isSome
  dirs : ∀ p n m, job.fs.descend job.top p = some n → now.descend job.copy p = some m →
    (job.fs.entries n).isSome = true → (now.entries m).isSome = true
  files : ∀ p n m source, job.fs.descend job.top p = some n →
    now.descend job.copy p = some m → job.fs.content n = some source →
    now.content m = some source

/-- When all threads have returned, the walk is over and every pair is closed. -/
theorem Filling.copied {size : ℤ} {s : ProgramState W} (h : job.Filling s)
    (hdesc : DescriptorInv size s) (hW : 1 ≤ W) (hmanager : s.copy.manager = .finished)
    (hworkers : ∀ i, s.copy.workers i = .finished) : job.Copied s.kernel.fs := by
  obtain ⟨hwalk, htree, hfind, htop, hfiles⟩ := h
  have hover := hdesc.walked (by rw [hmanager]; rfl)
  have hmirrored : job.Mirrored s.kernel.fs [] := by
    generalize s.walk = w at hwalk hover
    cases hwalk with
    | reading hstack =>
        cases hstack with
        | ended h => exact h
        | loop => cases hover
    | _ => cases hover
  refine ⟨hfind, fun p => ?_, htree.dirs, fun p n m source hn hm hsource => ?_⟩
  · rw [Bool.eq_iff_iff]
    constructor
    · intro hsome
      obtain ⟨m, hm⟩ := Option.isSome_iff_exists.1 hsome
      exact htree.inSource p m hm
    · exact hmirrored p
  · cases hfiles p n m source hn hm hsource with
    | made hcontent => exact hcontent
    | making item written pending hitem hcopies =>
        -- the source of a pair is closed by now
        obtain ⟨-, -, hclosed⟩ := hdesc.closed_of_finished hW hmanager hworkers hitem
        rw [ProgramState.isOpen, hcopies.src] at hclosed
        cases hclosed

end CopyJob

/-- **The tree is copied.** In a run in which no call fails, a source below which no path is cut off
    is copied to a destination that was not there, in a directory outside the source: when all
    threads have returned the destination has the paths of the source and no others, a directory
    for every directory and a file with the same text for every regular file; and the source is what
    it was. -/
theorem tree_copied (job : CopyJob) {v : Version} {size : ℤ} {stack : ℕ} {s : ProgramState W}
    (hW : 1 ≤ W) (hsize : 1 ≤ size)
    (h : (copyProgram v W size stack job.fs job.srcDir job.destDir).ReachableUnder CallsSucceed s)
    (hmanager : s.copy.manager = .finished) (hworkers : ∀ i, s.copy.workers i = .finished) :
    job.Copied s.kernel.fs ∧ SourceKept job.fs job.srcDir s := by
  have hinv := CopyJob.copyInv_reachable hsize h
  have hdesc := descriptorInv_reachable hsize h.reachable
  have hover := hdesc.walked (by rw [hmanager]; rfl)
  refine ⟨?_, hinv.guarded.files, hinv.guarded.entered⟩
  rcases hinv.place with hstarting | hfilling
  · rcases hstarting.walk with hwalk | ⟨dir, hwalk, -⟩ <;> rw [hwalk] at hover <;> cases hover
  · exact hfilling.copied hdesc hW hmanager hworkers

/-- The source `s` of `smallFs`, to be copied to `t`. -/
def smallJob : CopyJob where
  fs := smallFs
  srcDir := ['s']
  destDir := ['t']
  top := 1
  parent := 0
  name := .ofChar 't' (by decide) (by decide)
  found := rfl
  missing := rfl
  outside := fun h => absurd (sourceDir_small h) (by decide)
  fits := by
    intro p hp
    -- the source has the paths of its directory and of its file
    match p with
    | [] => decide
    | [name] =>
        have hname : name = .ofChar 'f' (by decide) (by decide) := by
          by_contra hne
          simp [descend, smallFs, entries, List.lookup_cons, beq_false_of_ne hne] at hp
        rw [hname]
        decide
    | name :: name' :: rest =>
        have hname : name = .ofChar 'f' (by decide) (by decide) := by
          by_contra hne
          simp [descend, smallFs, entries, List.lookup_cons, beq_false_of_ne hne] at hp
        rw [hname] at hp
        cases hp

/-- A run of HW5 with one worker to its end, in which every call succeeds. -/
theorem tree_copied_small : ∃ s : ProgramState 1, smallJob.Copied s.kernel.fs ∧
    s.kernel.fs.descend 3 [.ofChar 'f' (by decide) (by decide)] = some 4 ∧
    s.kernel.fs.content 4 = some ['x'] := by
  obtain ⟨s, hs, hmanager, hworker, hpath, hcontent⟩ : ∃ s : ProgramState 1,
      (copyProgram .hw5 1 1 2 smallFs ['s'] ['t']).execUnder CallsSucceed
        (programStart 1 (fun _ => ⟨0, 0, []⟩) 1 smallFs ['s'] ['t'])
        [.walk .succeeds, .walk .succeeds, .walk (.entry ['.']), .walk (.entry ['f']),
          .walk .succeeds, .walk .succeeds, .walk .succeeds, .manager none, .worker 0 1,
          .worker 0 1, .worker 0 1, .worker 0 1, .worker 0 1, .worker 0 1,
          .walk (.entry ['.', '.']), .walk .succeeds, .walk .succeeds, .manager none, .worker 0 1,
          .worker 0 1, .worker 0 1, .manager none, .manager none, .worker 0 1] = some s ∧
      s.copy.manager = .finished ∧ s.copy.workers 0 = .finished ∧
      s.kernel.fs.descend 3 [.ofChar 'f' (by decide) (by decide)] = some 4 ∧
      s.kernel.fs.content 4 = some ['x'] := ⟨_, rfl, rfl, rfl, rfl, rfl⟩
  have hreach : (copyProgram .hw5 1 1 2 smallFs ['s'] ['t']).ReachableUnder CallsSucceed s :=
    Machine.ReachableUnder.exec _ (.init ⟨_, rfl⟩) hs
  have hall : ∀ i, s.copy.workers i = .finished := fun i => by rwa [Subsingleton.elim i 0]
  exact ⟨s, (tree_copied smallJob (le_refl 1) (le_refl 1) hreach hmanager hall).1, hpath,
    hcontent⟩

end SystemProgramming.Copy
