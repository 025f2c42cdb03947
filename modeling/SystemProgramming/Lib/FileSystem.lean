import SystemProgramming.Lib.PathName

set_option autoImplicit false

/-! # File systems

Directories, regular files and symbolic links, numbered by their inodes; hard links are two entries
with one number. `find` follows a path as `open` and `mkdir` do. A file system only `Grows` while
files and directories are created and contents change: what a path leads to, it leads to ever after
(`Grows.find`). `TreeDir` and `TreeFile` are the directories and files below a directory. -/

namespace SystemProgramming

/-- What an inode is; `..` of a directory is its parent. -/
inductive Node
  | dir (parent : ℕ) (entries : List (EntryName × ℕ))
  | file (content : Text)
  | link (target : Text)

/-- The inodes that a directory refers to. -/
def Node.targets : Node → List ℕ
  | .dir parent entries => parent :: entries.map Prod.snd
  | _ => []

/-- What can become of an inode while nothing is removed or renamed. -/
def Node.Grown : Node → Node → Prop
  | .dir parent entries, .dir parent' entries' =>
      parent' = parent ∧ ∀ name n, entries.lookup name = some n → entries'.lookup name = some n
  | .file _, .file _ => True
  | .link target, .link target' => target' = target
  | _, _ => False

theorem Node.Grown.refl (node : Node) : node.Grown node := by
  cases node with
  | dir parent entries => exact ⟨rfl, fun _ _ h => h⟩
  | file content => trivial
  | link target => rfl

theorem Node.Grown.trans {a b c : Node} (h : a.Grown b) (h' : b.Grown c) : a.Grown c := by
  cases a <;> cases b <;> cases c <;> simp_all [Node.Grown]

/-- The inodes, the root directory, and the working directory of the process. No directory refers to
    an inode that is not there. -/
structure FileSystem where
  nodes : List Node
  root : ℕ
  cwd : ℕ
  sound : ∀ node ∈ nodes, ∀ n ∈ node.targets, n < nodes.length

namespace FileSystem

variable {fs fs' fs'' : FileSystem} {n m d k : ℕ} {name : EntryName}

/-- The entries of a directory, `.` and `..` aside. -/
def entries (fs : FileSystem) (n : ℕ) : Option (List (EntryName × ℕ)) :=
  match fs.nodes[n]? with
  | some (.dir _ entries) => some entries
  | _ => none

/-- The content of a regular file. -/
def content (fs : FileSystem) (n : ℕ) : Option Text :=
  match fs.nodes[n]? with
  | some (.file content) => some content
  | _ => none

/-! ## Following a path -/

/-- Where a path leads. -/
inductive Lookup
  | found (n : ℕ)
  /-- all but its last name is there -/
  | missing (dir : ℕ) (name : EntryName)
  | fails
deriving DecidableEq

/-- Where one component leads from an inode. -/
inductive Step
  | goes (n : ℕ)
  /-- a symbolic link, its own inode and where its target starts -/
  | link (n start : ℕ) (target : Text)
  /-- a directory without this name -/
  | absent (name : EntryName)
  /-- no directory -/
  | stuck

/-- The entry is there. -/
def Step.isThere : Step → Bool
  | goes _ | link _ _ _ => true
  | _ => false

/-- One component of a path, from the inode `n`. -/
def step (fs : FileSystem) (n : ℕ) (c : Component) : Step :=
  match fs.nodes[n]? with
  | some (.dir parent entries) =>
      match c with
      | .here => .goes n
      | .up => .goes parent
      | .name name =>
          match entries.lookup name with
          | none => .absent name
          | some m =>
              match fs.nodes[m]? with
              | some (.link target) =>
                  .link m (if target.head? = some '/' then fs.root else n) target
              | _ => .goes m
  | _ => .stuck

/-- Follow components from an inode. `chase` goes on behind a symbolic link; at the end of the path
    a link is followed only on demand. -/
def follow (fs : FileSystem) (last : Bool) (chase : ℕ → List Component → Lookup) :
    ℕ → List Component → Lookup
  | n, [] => .found n
  | n, c :: rest =>
      match fs.step n c with
      | .goes m => fs.follow last chase m rest
      | .link m start target =>
          if rest = [] ∧ last = false then .found m else chase start (components target ++ rest)
      | .absent name => if rest = [] then .missing n name else .fails
      | .stuck => .fails

/-- `follow` through a number of symbolic links. -/
def followLinks (fs : FileSystem) (last : Bool) : ℕ → ℕ → List Component → Lookup
  | 0 => fs.follow last fun _ _ => .fails
  | links + 1 => fs.follow last (fs.followLinks last links)

/-- Where a path leads, through 40 symbolic links at most. -/
def find (fs : FileSystem) (last : Bool) (path : Text) : Lookup :=
  if path = [] then .fails
  else fs.followLinks last 40 (if path.head? = some '/' then fs.root else fs.cwd)
    (components path)

/-! ## Changes -/

/-- Make an empty file or directory under a name of a directory. -/
def createNodes (nodes : List Node) (dir : ℕ) (name : EntryName) (isDir : Bool) : List Node :=
  match nodes[dir]? with
  | some (.dir parent entries) =>
      nodes.set dir (.dir parent (entries ++ [(name, nodes.length)])) ++
        [if isDir then .dir dir [] else .file []]
  | _ => nodes

theorem createNodes_sound {nodes : List Node}
    (h : ∀ node ∈ nodes, ∀ n ∈ node.targets, n < nodes.length) (dir : ℕ) (name : EntryName)
    (isDir : Bool) : ∀ node ∈ createNodes nodes dir name isDir, ∀ n ∈ node.targets,
      n < (createNodes nodes dir name isDir).length := by
  unfold createNodes
  split
  · next parent entries hdir =>
      have hlt : dir < nodes.length := (List.getElem?_eq_some_iff.1 hdir).1
      have hold := h _ (List.mem_of_getElem? hdir)
      intro node hnode n hn
      rw [List.length_append, List.length_set, List.length_singleton]
      rcases List.mem_append.1 hnode with hnode | hnode
      · rcases List.mem_or_eq_of_mem_set hnode with hnode | rfl
        · have := h node hnode n hn
          omega
        · simp only [Node.targets, List.map_append, List.map_cons, List.map_nil, List.mem_cons,
            List.mem_append, List.not_mem_nil, or_false] at hn
          rcases hn with rfl | hn | rfl
          · have := hold n (by simp [Node.targets])
            omega
          · have := hold n (by simp only [Node.targets, List.mem_cons]; exact Or.inr hn)
            omega
          · omega
      · rw [List.mem_singleton.1 hnode] at hn
        cases isDir with
        | false => simp [Node.targets] at hn
        | true =>
            simp only [Node.targets, if_true, List.map_nil, List.mem_singleton] at hn
            omega
  · exact h

/-- A new entry, an empty directory or an empty file. -/
def create (fs : FileSystem) (dir : ℕ) (name : EntryName) (isDir : Bool) : FileSystem where
  nodes := createNodes fs.nodes dir name isDir
  root := fs.root
  cwd := fs.cwd
  sound := createNodes_sound fs.sound dir name isDir

/-- Give a regular file another content. -/
def writeNodes (nodes : List Node) (n : ℕ) (content : Text) : List Node :=
  match nodes[n]? with
  | some (.file _) => nodes.set n (.file content)
  | _ => nodes

theorem writeNodes_sound {nodes : List Node}
    (h : ∀ node ∈ nodes, ∀ n ∈ node.targets, n < nodes.length) (n : ℕ) (content : Text) :
    ∀ node ∈ writeNodes nodes n content, ∀ m ∈ node.targets,
      m < (writeNodes nodes n content).length := by
  unfold writeNodes
  split
  · intro node hnode m hm
    rw [List.length_set]
    rcases List.mem_or_eq_of_mem_set hnode with hnode | rfl
    · exact h node hnode m hm
    · simp [Node.targets] at hm
  · exact h

/-- A file has this content now. -/
def setContent (fs : FileSystem) (n : ℕ) (content : Text) : FileSystem where
  nodes := writeNodes fs.nodes n content
  root := fs.root
  cwd := fs.cwd
  sound := writeNodes_sound fs.sound n content

/-! ## Growing -/

/-- Files and directories have been created and contents have changed. -/
structure Grows (fs fs' : FileSystem) : Prop where
  root : fs'.root = fs.root
  cwd : fs'.cwd = fs.cwd
  nodes : ∀ (n : ℕ) (node : Node), fs.nodes[n]? = some node → ∃ node', fs'.nodes[n]? = some node' ∧
    node.Grown node'

theorem Grows.refl (fs : FileSystem) : Grows fs fs :=
  ⟨rfl, rfl, fun _ node h => ⟨node, h, Node.Grown.refl node⟩⟩

theorem Grows.trans (h : Grows fs fs') (h' : Grows fs' fs'') : Grows fs fs'' := by
  refine ⟨h'.root.trans h.root, h'.cwd.trans h.cwd, ?_⟩
  intro n node hn
  obtain ⟨node', hn', hgrown⟩ := h.nodes n node hn
  obtain ⟨node'', hn'', hgrown'⟩ := h'.nodes n node' hn'
  exact ⟨node'', hn'', hgrown.trans hgrown'⟩

/-- A new entry changes the directory that it is in, and no other node. -/
theorem getElem?_create {node : Node} (h : fs.nodes[n]? = some node) {dir : ℕ}
    (hother : ∀ parent es, node = .dir parent es → dir ≠ n) (name : EntryName) (isDir : Bool) :
    (fs.create dir name isDir).nodes[n]? = some node := by
  show (createNodes fs.nodes dir name isDir)[n]? = _
  unfold createNodes
  split
  · next parent entries hdir =>
      have hlt : n < fs.nodes.length := (List.getElem?_eq_some_iff.1 h).1
      have hne : dir ≠ n := by
        rintro rfl
        rw [hdir] at h
        exact hother parent entries (Option.some.inj h).symm rfl
      rw [List.getElem?_append_left (by rwa [List.length_set]), List.getElem?_set_ne hne, h]
  · exact h

theorem grows_create (fs : FileSystem) (dir : ℕ) (name : EntryName) (isDir : Bool) :
    Grows fs (fs.create dir name isDir) := by
  refine ⟨rfl, rfl, ?_⟩
  intro n node hn
  by_cases heq : dir = n
  · subst heq
    show ∃ node', (createNodes fs.nodes dir name isDir)[dir]? = some node' ∧ _
    unfold createNodes
    split
    · next parent entries hdir =>
        have hlt : dir < fs.nodes.length := (List.getElem?_eq_some_iff.1 hn).1
        rw [hdir] at hn
        cases hn
        refine ⟨.dir parent (entries ++ [(name, fs.nodes.length)]), ?_, rfl, ?_⟩
        · rw [List.getElem?_append_left (by rwa [List.length_set]), List.getElem?_set_self hlt]
        · intro key m hkey
          rw [List.lookup_append, hkey]
          rfl
    · exact ⟨node, hn, Node.Grown.refl node⟩
  · exact ⟨node, getElem?_create hn (fun _ _ _ => heq) name isDir, Node.Grown.refl node⟩

theorem getElem?_setContent (fs : FileSystem) (n : ℕ) (bytes : Text) (m : ℕ) :
    (fs.setContent n bytes).nodes[m]? =
      if n = m ∧ fs.content n ≠ none then some (.file bytes) else fs.nodes[m]? := by
  show (writeNodes fs.nodes n bytes)[m]? = _
  unfold writeNodes content
  cases hn : fs.nodes[n]? with
  | none => simp
  | some node =>
      have hlt : n < fs.nodes.length := (List.getElem?_eq_some_iff.1 hn).1
      cases node with
      | dir parent entries => simp
      | link target => simp
      | file content =>
          simp only [List.getElem?_set, hlt, if_true, ne_eq, reduceCtorEq, not_false_eq_true,
            and_true]

theorem content_eq_some_iff {bytes : Text} :
    fs.content n = some bytes ↔ fs.nodes[n]? = some (.file bytes) := by
  unfold content
  split
  · next content h => simp [h]
  · next h => exact ⟨nofun, fun hn => absurd hn (h bytes)⟩

theorem grows_setContent (fs : FileSystem) (n : ℕ) (bytes : Text) :
    Grows fs (fs.setContent n bytes) ∧ Grows (fs.setContent n bytes) fs := by
  have hfile : ∀ m, (n = m ∧ fs.content n ≠ none) →
      ∃ content, fs.nodes[m]? = some (.file content) := by
    rintro m ⟨rfl, hne⟩
    obtain ⟨content, hcontent⟩ := Option.ne_none_iff_exists'.1 hne
    exact ⟨content, content_eq_some_iff.1 hcontent⟩
  refine ⟨⟨rfl, rfl, ?_⟩, rfl, rfl, ?_⟩ <;> intro m node hm
  · rw [getElem?_setContent]
    split
    · next h =>
        obtain ⟨content, hcontent⟩ := hfile m h
        rw [hcontent] at hm
        cases hm
        exact ⟨_, rfl, trivial⟩
    · exact ⟨node, hm, Node.Grown.refl node⟩
  · rw [getElem?_setContent] at hm
    split at hm
    · next h =>
        obtain ⟨content, hcontent⟩ := hfile m h
        cases hm
        exact ⟨_, hcontent, trivial⟩
    · exact ⟨node, hm, Node.Grown.refl node⟩

/-! ### What growing keeps -/

theorem entries_eq_some_iff {es : List (EntryName × ℕ)} :
    fs.entries n = some es ↔ ∃ parent, fs.nodes[n]? = some (.dir parent es) := by
  unfold entries
  split
  · next parent entries h => simp [h]
  · next h => exact ⟨nofun, fun ⟨parent, hn⟩ => absurd hn (h parent es)⟩

/-- What a directory refers to is there. -/
theorem exists_node {es : List (EntryName × ℕ)} (h : fs.entries d = some es)
    (hname : es.lookup name = some n) : ∃ node, fs.nodes[n]? = some node := by
  obtain ⟨parent, hd⟩ := entries_eq_some_iff.1 h
  obtain ⟨before, after, rfl, -⟩ := List.lookup_eq_some_iff.1 hname
  have hlt := fs.sound _ (List.mem_of_getElem? hd) n (by simp [Node.targets])
  exact ⟨fs.nodes[n], List.getElem?_eq_getElem hlt⟩

theorem Grows.step (h : Grows fs fs') {c : Component} {r : Step} (hstep : fs.step n c = r)
    (hthere : r.isThere = true) : fs'.step n c = r := by
  subst hstep
  unfold FileSystem.step at hthere ⊢
  cases hn : fs.nodes[n]? with
  | none => simp [hn, Step.isThere] at hthere
  | some node =>
      obtain ⟨node', hn', hgrown⟩ := h.nodes n node hn
      rw [hn']
      cases node with
      | file content => simp [hn, Step.isThere] at hthere
      | link target => simp [hn, Step.isThere] at hthere
      | dir parent entries =>
          cases node' with
          | file content => exact hgrown.elim
          | link target => exact hgrown.elim
          | dir parent' entries' =>
              obtain ⟨rfl, hentries⟩ := hgrown
              cases c with
              | here => rfl
              | up => rfl
              | name name =>
                  dsimp only
                  cases hname : entries.lookup name with
                  | none => simp [hn, hname, Step.isThere] at hthere
                  | some m =>
                      -- the name refers to the same node, and a node keeps its kind
                      have hd : fs.entries n = some entries := entries_eq_some_iff.2 ⟨_, hn⟩
                      obtain ⟨node, hm⟩ := exists_node hd hname
                      obtain ⟨node', hm', hgrown⟩ := h.nodes m node hm
                      rw [hentries name m hname, h.root]
                      dsimp only
                      rw [hm, hm']
                      cases node <;> cases node' <;> simp_all [Node.Grown]

theorem Grows.follow (h : Grows fs fs') {last : Bool} {chase chase' : ℕ → List Component → Lookup}
    (hchase : ∀ n cs k, chase n cs = .found k → chase' n cs = .found k) (cs : List Component)
    (hfound : fs.follow last chase n cs = .found k) :
    fs'.follow last chase' n cs = .found k := by
  induction cs generalizing n with
  | nil => exact hfound
  | cons c rest ih =>
      rw [FileSystem.follow] at hfound ⊢
      split at hfound
      · next m hstep =>
          rw [h.step hstep rfl]
          exact ih hfound
      · next m start target hstep =>
          rw [h.step hstep rfl]
          dsimp only
          split at hfound
          · next hlast => rwa [if_pos hlast]
          · next hlast =>
              rw [if_neg hlast]
              exact hchase _ _ _ hfound
      · split at hfound <;> cases hfound
      · cases hfound

theorem Grows.followLinks (h : Grows fs fs') {last : Bool} (links : ℕ) {cs : List Component}
    (hfound : fs.followLinks last links n cs = .found k) :
    fs'.followLinks last links n cs = .found k := by
  induction links generalizing n cs k with
  | zero => exact h.follow (fun _ _ _ hk => by cases hk) cs hfound
  | succ links ih => exact h.follow (fun _ _ _ => ih) cs hfound

/-- What a path leads to, it leads to ever after. -/
theorem Grows.find (h : Grows fs fs') {last : Bool} {path : Text}
    (hfound : fs.find last path = .found n) : fs'.find last path = .found n := by
  unfold FileSystem.find at hfound ⊢
  split at hfound
  · cases hfound
  · rw [if_neg ‹_›, h.root, h.cwd]
    exact h.followLinks 40 hfound

/-! ### Joining a name -/

theorem follow_join {chase : ℕ → List Component → Lookup} {c : Component}
    (hchase : ∀ n cs, chase n cs = .found d → chase n (cs ++ [c]) = .found m)
    (hstep : fs.step d c = .goes m) (cs : List Component)
    (hfound : fs.follow true chase n cs = .found d) :
    fs.follow true chase n (cs ++ [c]) = .found m := by
  induction cs generalizing n with
  | nil =>
      cases hfound
      rw [List.nil_append, follow, hstep]
      rfl
  | cons head rest ih =>
      rw [follow] at hfound
      rw [List.cons_append, follow]
      cases hhead : fs.step n head with
      | goes m' =>
          rw [hhead] at hfound
          exact ih hfound
      | link m' start target =>
          simp only [hhead, Bool.true_eq_false, and_false, if_false] at hfound
          simp only [Bool.true_eq_false, and_false, if_false]
          -- a link is chased with what is left of the path behind its target
          rw [← List.append_assoc]
          exact hchase _ _ hfound
      | absent name =>
          rw [hhead] at hfound
          dsimp only at hfound
          split at hfound <;> cases hfound
      | stuck =>
          rw [hhead] at hfound
          cases hfound

theorem followLinks_join {c : Component} (hstep : fs.step d c = .goes m) (links : ℕ)
    {cs : List Component} (hfound : fs.followLinks true links n cs = .found d) :
    fs.followLinks true links n (cs ++ [c]) = .found m := by
  induction links generalizing n cs with
  | zero => exact follow_join (fun _ _ hk => by cases hk) hstep cs hfound
  | succ links ih => exact follow_join (fun _ _ => ih) hstep cs hfound

/-- A path to a directory joined with the name of an entry that is no link leads to the entry. -/
theorem find_join {path : Text} (hpath : fs.find true path = .found d)
    (hstep : fs.step d (.name name) = .goes m) :
    fs.find true (path ++ '/' :: name.text) = .found m := by
  unfold find at hpath ⊢
  split at hpath
  · cases hpath
  · next hne =>
      have hhead : (path ++ '/' :: name.text).head? = path.head? := by
        cases path with
        | nil => exact absurd rfl hne
        | cons c path => rfl
      rw [if_neg (by simp), hhead, components_join]
      exact followLinks_join hstep 40 hpath

theorem step_name {es es' : List (EntryName × ℕ)} (hd : fs.entries d = some es)
    (hname : es.lookup name = some m) (hm : fs.entries m = some es') :
    fs.step d (.name name) = .goes m := by
  obtain ⟨parent, hd⟩ := entries_eq_some_iff.1 hd
  obtain ⟨parent', hm⟩ := entries_eq_some_iff.1 hm
  simp [step, hd, hname, hm]

/-! ### What a change keeps -/

theorem content_create {bytes : Text} (h : fs.content n = some bytes) (dir : ℕ) (name : EntryName)
    (isDir : Bool) : (fs.create dir name isDir).content n = some bytes := by
  rw [content_eq_some_iff] at h ⊢
  exact getElem?_create h nofun name isDir

theorem entries_create {es : List (EntryName × ℕ)} (h : fs.entries n = some es) {dir : ℕ}
    (hne : dir ≠ n) (name : EntryName) (isDir : Bool) :
    (fs.create dir name isDir).entries n = some es := by
  obtain ⟨parent, h⟩ := entries_eq_some_iff.1 h
  exact entries_eq_some_iff.2 ⟨parent, getElem?_create h (fun _ _ _ => hne) name isDir⟩

theorem content_setContent (hne : n ≠ m) (bytes : Text) :
    (fs.setContent n bytes).content m = fs.content m := by
  unfold content
  rw [getElem?_setContent, if_neg fun h => hne h.1]

theorem entries_setContent (fs : FileSystem) (n : ℕ) (bytes : Text) (m : ℕ) :
    (fs.setContent n bytes).entries m = fs.entries m := by
  unfold entries
  rw [getElem?_setContent]
  by_cases h : n = m ∧ fs.content n ≠ none
  · obtain ⟨rfl, hne⟩ := h
    obtain ⟨content, hcontent⟩ := Option.ne_none_iff_exists'.1 hne
    rw [if_pos ⟨rfl, hne⟩, content_eq_some_iff.1 hcontent]
  · rw [if_neg h]

/-! ## Trees -/

/-- The directories of the tree under a directory, itself included. -/
inductive TreeDir (fs : FileSystem) (top : ℕ) : ℕ → Prop
  | top {es : List (EntryName × ℕ)} (h : fs.entries top = some es) : TreeDir fs top top
  | entry {d n : ℕ} {es es' : List (EntryName × ℕ)} {name : EntryName} (h : TreeDir fs top d)
      (hd : fs.entries d = some es) (hname : es.lookup name = some n)
      (hn : fs.entries n = some es') : TreeDir fs top n

/-- The regular files of the tree under a directory. -/
def TreeFile (fs : FileSystem) (top n : ℕ) : Prop :=
  ∃ d es name bytes, TreeDir fs top d ∧ fs.entries d = some es ∧ es.lookup name = some n ∧
    fs.content n = some bytes

theorem TreeDir.entries {top : ℕ} (h : TreeDir fs top n) : ∃ es, fs.entries n = some es := by
  cases h with
  | top h => exact ⟨_, h⟩
  | entry _ _ _ hn => exact ⟨_, hn⟩

/-- A directory stays one, and nothing else becomes one. -/
theorem Grows.entries_of_grown (h : Grows fs fs') {node : Node} (hn : fs.nodes[n]? = some node)
    {es' : List (EntryName × ℕ)} (hn' : fs'.entries n = some es') :
    ∃ es, fs.entries n = some es := by
  obtain ⟨parent', hn'⟩ := entries_eq_some_iff.1 hn'
  obtain ⟨node', hnode', hgrown⟩ := h.nodes n node hn
  rw [hn'] at hnode'
  cases hnode'
  cases node with
  | dir parent es => exact ⟨es, entries_eq_some_iff.2 ⟨parent, hn⟩⟩
  | file content => exact hgrown.elim
  | link target => exact hgrown.elim

end FileSystem

end SystemProgramming
