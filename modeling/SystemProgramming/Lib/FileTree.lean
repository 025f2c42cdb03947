import SystemProgramming.Lib.FileSystem

set_option autoImplicit false

/-! # Walking down a file system

`descend` follows the names of entries from a directory, through directories only: neither `.` and
`..` nor symbolic links. A name that is made behind the end of a path is one more inode, and the
only thing that `descend` finds anew (`descend_create`), provided that one path only leads to its
directory. `find` then goes where `descend` does (`find_create`, `find_absent`). -/

namespace SystemProgramming

namespace FileSystem

variable {fs fs' : FileSystem} {n m d k x : ℕ} {name : EntryName} {p q : List EntryName}
  {es : List (EntryName × ℕ)}

/-- Where the names lead from an inode, through directories. -/
def descend (fs : FileSystem) : ℕ → List EntryName → Option ℕ
  | n, [] => some n
  | n, name :: rest =>
      match (fs.entries n).bind fun entries => entries.lookup name with
      | none => none
      | some m => fs.descend m rest

@[simp] theorem descend_nil (fs : FileSystem) (n : ℕ) : fs.descend n [] = some n := rfl

theorem descend_append (p q : List EntryName) :
    fs.descend n (p ++ q) = (fs.descend n p).bind fun m => fs.descend m q := by
  induction p generalizing n with
  | nil => rfl
  | cons name p ih =>
      rw [List.cons_append, descend, descend]
      cases (fs.entries n).bind fun entries => entries.lookup name with
      | none => rfl
      | some m => exact ih

theorem descend_singleton :
    fs.descend n [name] = (fs.entries n).bind fun entries => entries.lookup name := by
  rw [descend]
  cases (fs.entries n).bind fun entries => entries.lookup name <;> rfl

/-- The last name of a path is an entry of the directory that the others lead to. -/
theorem descend_snoc_eq_some : fs.descend n (p ++ [name]) = some m ↔
    ∃ d es, fs.descend n p = some d ∧ fs.entries d = some es ∧ es.lookup name = some m := by
  rw [descend_append]
  simp only [descend_singleton, Option.bind_eq_some_iff]
  exact ⟨fun ⟨d, hd, es, hes, hname⟩ => ⟨d, es, hd, hes, hname⟩,
    fun ⟨d, es, hd, hes, hname⟩ => ⟨d, hd, es, hes, hname⟩⟩

theorem descend_snoc_of_entries (hd : fs.descend n p = some d) (hes : fs.entries d = some es) :
    fs.descend n (p ++ [name]) = es.lookup name := by
  rw [descend_append, hd, Option.bind_some, descend_singleton, hes, Option.bind_some]

/-- Behind what is no directory there is nothing. -/
theorem descend_of_entries_none (hm : fs.descend n p = some m) (hnone : fs.entries m = none)
    (hq : q ≠ []) : fs.descend n (p ++ q) = none := by
  obtain ⟨name, rest, rfl⟩ := List.exists_cons_of_ne_nil hq
  rw [descend_append, hm, Option.bind_some, descend, hnone]
  rfl

theorem descend_isSome_of_append (h : (fs.descend n (p ++ q)).isSome = true) :
    ∃ m, fs.descend n p = some m ∧ (fs.descend m q).isSome = true := by
  rw [descend_append] at h
  cases hp : fs.descend n p with
  | none =>
      rw [hp] at h
      cases h
  | some m =>
      rw [hp] at h
      exact ⟨m, rfl, h⟩

/-- `descend` stays in the file system. -/
theorem descend_lt (hn : n < fs.nodes.length) (h : fs.descend n p = some m) :
    m < fs.nodes.length := by
  induction p generalizing n with
  | nil =>
      obtain rfl := Option.some.inj h
      exact hn
  | cons name p ih =>
      rw [descend] at h
      split at h
      · cases h
      · next x hx =>
          obtain ⟨es, hes, hname⟩ := Option.bind_eq_some_iff.1 hx
          obtain ⟨node, hnode⟩ := exists_node hes hname
          exact ih (List.getElem?_eq_some_iff.1 hnode).1 h

theorem Grows.entries (h : Grows fs fs') (hes : fs.entries n = some es) :
    ∃ es', fs'.entries n = some es' ∧
      ∀ name m, es.lookup name = some m → es'.lookup name = some m := by
  obtain ⟨parent, hn⟩ := entries_eq_some_iff.1 hes
  obtain ⟨node', hn', hgrown⟩ := h.nodes n _ hn
  cases node' with
  | dir parent' es' => exact ⟨es', entries_eq_some_iff.2 ⟨parent', hn'⟩, hgrown.2⟩
  | file content => exact hgrown.elim
  | link target => exact hgrown.elim

theorem Grows.length_le (h : Grows fs fs') : fs.nodes.length ≤ fs'.nodes.length := by
  by_contra hlt
  obtain ⟨node, hnode⟩ : ∃ node, fs.nodes[fs'.nodes.length]? = some node :=
    ⟨_, List.getElem?_eq_getElem (Nat.lt_of_not_le hlt)⟩
  obtain ⟨node', hnode', -⟩ := h.nodes _ _ hnode
  rw [List.getElem?_eq_none (Nat.le_refl _)] at hnode'
  cases hnode'

/-- What is there stays there. -/
theorem Grows.descend (h : Grows fs fs') (hp : fs.descend n p = some m) :
    fs'.descend n p = some m := by
  induction p generalizing n with
  | nil => exact hp
  | cons name p ih =>
      rw [FileSystem.descend] at hp
      split at hp
      · cases hp
      · next x hx =>
          obtain ⟨es, hes, hname⟩ := Option.bind_eq_some_iff.1 hx
          obtain ⟨es', hes', hkept⟩ := h.entries hes
          rw [FileSystem.descend, hes', Option.bind_some, hkept name x hname]
          exact ih hp

/-- The directories on the way are directories of the tree. -/
theorem treeDir_of_descend {top : ℕ} (hp : fs.descend top p = some d)
    (htop : ∃ es, fs.entries top = some es) (hd : ∃ es, fs.entries d = some es) :
    TreeDir fs top d := by
  induction p using List.reverseRecOn generalizing d with
  | nil =>
      obtain rfl := Option.some.inj hp
      obtain ⟨es, hes⟩ := htop
      exact .top hes
  | append_singleton p name ih =>
      obtain ⟨e, es, he, hes, hname⟩ := descend_snoc_eq_some.1 hp
      obtain ⟨es', hes'⟩ := hd
      exact .entry (ih he ⟨es, hes⟩) hes hname hes'

theorem treeFile_of_descend {top : ℕ} {bytes : Text} (hp : fs.descend top p = some n)
    (htop : ∃ es, fs.entries top = some es) (hn : fs.content n = some bytes) :
    TreeFile fs top n := by
  rcases List.eq_nil_or_concat p with rfl | ⟨init, name, rfl⟩
  · -- a directory is no file
    obtain rfl := Option.some.inj hp
    obtain ⟨es, hes⟩ := htop
    obtain ⟨parent, hnode⟩ := entries_eq_some_iff.1 hes
    rw [content_eq_some_iff, hnode] at hn
    cases hn
  · rw [List.concat_eq_append] at hp
    obtain ⟨d, es, hd, hes, hname⟩ := descend_snoc_eq_some.1 hp
    exact ⟨d, es, name, bytes, treeDir_of_descend hd htop ⟨es, hes⟩, hes, hname, hn⟩

/-! ## A new name -/

section Create

variable {parent : ℕ} {isDir : Bool}

/-- The nodes behind `create`: the directory, the new inode, and the others. -/
theorem getElem?_create_eq (hd : fs.nodes[d]? = some (.dir parent es)) (x : ℕ) :
    (fs.create d name isDir).nodes[x]? =
      if x = d then some (.dir parent (es ++ [(name, fs.nodes.length)]))
      else if x = fs.nodes.length then some (if isDir then .dir d [] else .file [])
      else fs.nodes[x]? := by
  have hlt : d < fs.nodes.length := (List.getElem?_eq_some_iff.1 hd).1
  have hnodes : (fs.create d name isDir).nodes
      = fs.nodes.set d (.dir parent (es ++ [(name, fs.nodes.length)])) ++
          [if isDir then .dir d [] else .file []] := by
    show createNodes fs.nodes d name isDir = _
    rw [createNodes, hd]
  rw [hnodes]
  rcases Nat.lt_trichotomy x fs.nodes.length with hx | rfl | hx
  · rw [List.getElem?_append_left (by rwa [List.length_set]),
      if_neg (show ¬ x = fs.nodes.length by omega)]
    split
    · next heq => rw [heq, List.getElem?_set_self hlt]
    · next hne => rw [List.getElem?_set_ne (Ne.symm hne)]
  · rw [List.getElem?_append_right (by rw [List.length_set]), List.length_set, Nat.sub_self,
      if_neg (show ¬ fs.nodes.length = d by omega), if_pos rfl]
    rfl
  · have hlength : (fs.nodes.set d (.dir parent (es ++ [(name, fs.nodes.length)])) ++
        [if isDir then Node.dir d [] else .file []]).length = fs.nodes.length + 1 := by
      rw [List.length_append, List.length_set, List.length_singleton]
    rw [if_neg (show ¬ x = d by omega), if_neg (show ¬ x = fs.nodes.length by omega),
      List.getElem?_eq_none (by omega), List.getElem?_eq_none (by omega)]

theorem length_create (hes : fs.entries d = some es) :
    (fs.create d name isDir).nodes.length = fs.nodes.length + 1 := by
  obtain ⟨parent, hd⟩ := entries_eq_some_iff.1 hes
  show (createNodes fs.nodes d name isDir).length = _
  rw [createNodes, hd, List.length_append, List.length_set, List.length_singleton]

theorem entries_create_self (hes : fs.entries d = some es) :
    (fs.create d name isDir).entries d = some (es ++ [(name, fs.nodes.length)]) := by
  obtain ⟨parent, hd⟩ := entries_eq_some_iff.1 hes
  rw [entries_eq_some_iff]
  exact ⟨parent, by rw [getElem?_create_eq hd, if_pos rfl]⟩

/-- The new inode: an empty directory, or an empty file. -/
theorem getElem?_create_new (hes : fs.entries d = some es) :
    (fs.create d name isDir).nodes[fs.nodes.length]?
      = some (if isDir then .dir d [] else .file []) := by
  obtain ⟨parent, hd⟩ := entries_eq_some_iff.1 hes
  have hlt : d < fs.nodes.length := (List.getElem?_eq_some_iff.1 hd).1
  rw [getElem?_create_eq hd, if_neg (by omega), if_pos rfl]

theorem entries_create_new (hes : fs.entries d = some es) :
    (fs.create d name isDir).entries fs.nodes.length = if isDir then some [] else none := by
  unfold entries
  rw [getElem?_create_new hes]
  cases isDir <;> rfl

theorem content_create_new (hes : fs.entries d = some es) :
    (fs.create d name false).content fs.nodes.length = some [] := by
  rw [content_eq_some_iff, getElem?_create_new hes]
  rfl

theorem entries_create_of_ne (hes : fs.entries d = some es) (hd : x ≠ d)
    (hnew : x ≠ fs.nodes.length) : (fs.create d name isDir).entries x = fs.entries x := by
  obtain ⟨parent, hnode⟩ := entries_eq_some_iff.1 hes
  unfold entries
  rw [getElem?_create_eq hnode, if_neg hd, if_neg hnew]

/-- Where only one path leads to the directory, the new name is the only new path. -/
theorem descend_create {top : ℕ} (htop : top < fs.nodes.length) (hp : fs.descend top p = some d)
    (hes : fs.entries d = some es) (hname : es.lookup name = none)
    (hunique : ∀ q, fs.descend top q = some d → q = p) (q : List EntryName) :
    (fs.create d name isDir).descend top q =
      if q = p ++ [name] then some fs.nodes.length else fs.descend top q := by
  induction q using List.reverseRecOn with
  | nil => rw [if_neg (by simp), descend_nil, descend_nil]
  | append_singleton q c ih =>
      have hsnoc : ∀ g : FileSystem, g.descend top (q ++ [c])
          = (g.descend top q).bind fun x => (g.entries x).bind fun l => l.lookup c := by
        intro g
        rw [descend_append]
        congr 1
        funext x
        exact descend_singleton
      rw [hsnoc, hsnoc, ih]
      by_cases hq : q = p ++ [name]
      · -- behind the new inode there is nothing
        have hne : ¬ q ++ [c] = p ++ [name] := by
          rw [hq]
          simp
        have hnone : fs.descend top q = none := by
          rw [hq, descend_snoc_of_entries hp hes, hname]
        rw [if_pos hq, if_neg hne, hnone, Option.bind_some, entries_create_new hes]
        cases isDir <;> rfl
      · rw [if_neg hq]
        cases hx : fs.descend top q with
        | none =>
            rw [if_neg]
            · rfl
            · intro heq
              rw [(List.append_inj' heq rfl).1, hp] at hx
              cases hx
        | some x =>
            have hlt := descend_lt htop hx
            rw [Option.bind_some, Option.bind_some]
            by_cases hxd : x = d
            · have hqp := hunique q (by rw [hx, hxd])
              rw [hxd, entries_create_self hes, hes, Option.bind_some, Option.bind_some, hqp,
                List.lookup_append]
              by_cases hc : c = name
              · rw [hc, if_pos rfl, hname]
                simp
              · rw [if_neg (by simpa using hc)]
                cases es.lookup c with
                | none => simp [List.lookup_cons, beq_false_of_ne hc]
                | some y => rfl
            · rw [entries_create_of_ne hes hxd (by omega), if_neg]
              intro heq
              rw [(List.append_inj' heq rfl).1, hp] at hx
              exact hxd (Option.some.inj hx).symm

end Create

/-- The contents of files do not matter. -/
theorem descend_setContent (n : ℕ) (bytes : Text) (top : ℕ) (p : List EntryName) :
    (fs.setContent n bytes).descend top p = fs.descend top p := by
  induction p generalizing top with
  | nil => rfl
  | cons name p ih =>
      rw [descend, descend, entries_setContent]
      split
      · rfl
      · exact ih _

theorem length_setContent (fs : FileSystem) (n : ℕ) (bytes : Text) :
    (fs.setContent n bytes).nodes.length = fs.nodes.length := by
  show (writeNodes fs.nodes n bytes).length = _
  unfold writeNodes
  split
  · exact List.length_set
  · rfl

theorem content_setContent_self {content : Text} (h : fs.content n = some content)
    (bytes : Text) : (fs.setContent n bytes).content n = some bytes := by
  rw [content_eq_some_iff, getElem?_setContent, if_pos ⟨rfl, by rw [h]; exact nofun⟩]

/-- A file is one of the inodes. -/
theorem lt_of_content {content : Text} (h : fs.content n = some content) : n < fs.nodes.length :=
  (List.getElem?_eq_some_iff.1 (content_eq_some_iff.1 h)).1

/-! ## Paths -/

/-- What `follow` answers behind a path that leads to a directory. -/
theorem follow_append {last : Bool} {chase chase' : ℕ → List Component → Lookup} {c : Component}
    {r : Lookup} (hchase : ∀ n cs, chase n cs = .found d → chase' n (cs ++ [c]) = r)
    (hend : fs.follow last chase' d [c] = r) (cs : List Component)
    (hfound : fs.follow true chase n cs = .found d) : fs.follow last chase' n (cs ++ [c]) = r := by
  induction cs generalizing n with
  | nil =>
      cases hfound
      exact hend
  | cons head rest ih =>
      rw [follow] at hfound
      rw [List.cons_append, follow]
      cases hhead : fs.step n head with
      | goes m' =>
          rw [hhead] at hfound
          exact ih hfound
      | link m' start target =>
          simp only [hhead, Bool.true_eq_false, and_false, if_false] at hfound
          have hmore : ¬ (rest ++ [c] = [] ∧ last = false) := by simp
          dsimp only
          rw [if_neg hmore, ← List.append_assoc]
          exact hchase _ _ hfound
      | absent name =>
          rw [hhead] at hfound
          dsimp only at hfound
          split at hfound <;> cases hfound
      | stuck =>
          rw [hhead] at hfound
          cases hfound

/-- A path to a directory joined with a name that the directory does not have. -/
theorem find_absent {path : Text} (hpath : fs.find true path = .found d)
    (hes : fs.entries d = some es) (hname : es.lookup name = none) (last : Bool) :
    fs.find last (path ++ '/' :: name.text) = .missing d name := by
  have hstep : fs.step d (.name name) = .absent name := by
    obtain ⟨parent, hd⟩ := entries_eq_some_iff.1 hes
    simp [step, hd, hname]
  have hend : ∀ chase : ℕ → List Component → Lookup,
      fs.follow last chase d [.name name] = .missing d name := by
    intro chase
    rw [follow, hstep]
    rfl
  have hlinks : ∀ (links n : ℕ) (cs : List Component),
      fs.followLinks true links n cs = .found d →
      fs.followLinks last links n (cs ++ [.name name]) = .missing d name := by
    intro links
    induction links with
    | zero => exact fun n cs hfound => follow_append (fun _ _ hk => by cases hk) (hend _) cs hfound
    | succ links ih => exact fun n cs hfound => follow_append ih (hend _) cs hfound
  unfold find at hpath ⊢
  split at hpath
  · cases hpath
  · next hne =>
      have hhead : (path ++ '/' :: name.text).head? = path.head? := by
        cases path with
        | nil => exact absurd rfl hne
        | cons c path => rfl
      rw [if_neg (by simp), hhead, components_join]
      exact hlinks 40 _ _ hpath

/-- An entry that is a regular file. -/
theorem step_file {bytes : Text} (hd : fs.entries d = some es) (hname : es.lookup name = some m)
    (hm : fs.content m = some bytes) : fs.step d (.name name) = .goes m := by
  obtain ⟨parent, hd⟩ := entries_eq_some_iff.1 hd
  rw [content_eq_some_iff] at hm
  simp [step, hd, hname, hm]

theorem step_eq_absent {c : Component} (h : fs.step n c = .absent name) :
    c = .name name ∧ ∃ es, fs.entries n = some es ∧ es.lookup name = none := by
  unfold step at h
  split at h
  · next parent es hn =>
      cases c with
      | here => cases h
      | up => cases h
      | name other =>
          dsimp only at h
          split at h
          · next hnone =>
              cases h
              exact ⟨rfl, es, entries_eq_some_iff.2 ⟨parent, hn⟩, hnone⟩
          · split at h <;> cases h
  · cases h

/-- The last name of a missing path is missing in a directory. -/
theorem entries_of_missing {last : Bool} {path : Text} (h : fs.find last path = .missing d name) :
    ∃ es, fs.entries d = some es ∧ es.lookup name = none := by
  have hfollow : ∀ {chase : ℕ → List Component → Lookup},
      (∀ n cs, chase n cs = .missing d name →
        ∃ es, fs.entries d = some es ∧ es.lookup name = none) →
      ∀ (cs : List Component) (n : ℕ), fs.follow last chase n cs = .missing d name →
        ∃ es, fs.entries d = some es ∧ es.lookup name = none := by
    intro chase hchase cs
    induction cs with
    | nil => exact fun n h => by cases h
    | cons c rest ih =>
        intro n h
        rw [follow] at h
        split at h
        · exact ih _ h
        · split at h
          · cases h
          · exact hchase _ _ h
        · next other hstep =>
            split at h
            · cases h
              exact (step_eq_absent hstep).2
            · cases h
        · cases h
  have hlinks : ∀ (links n : ℕ) (cs : List Component),
      fs.followLinks last links n cs = .missing d name →
      ∃ es, fs.entries d = some es ∧ es.lookup name = none := by
    intro links
    induction links with
    | zero => exact fun n cs h => hfollow (fun _ _ hk => by cases hk) cs n h
    | succ links ih => exact fun n cs h => hfollow ih cs n h
  unfold find at h
  split at h
  · cases h
  · exact hlinks _ _ _ h

/-- What was missing at the end of a path and is made there, the path leads to. -/
theorem find_create {last : Bool} {path : Text} (h : fs.find last path = .missing d name)
    (isDir : Bool) : (fs.create d name isDir).find true path = .found fs.nodes.length := by
  have hgrows := grows_create fs d name isDir
  obtain ⟨es, hes, hname⟩ := entries_of_missing h
  have hstep : (fs.create d name isDir).step d (.name name) = .goes fs.nodes.length := by
    have hself : (fs.create d name isDir).entries d = some (es ++ [(name, fs.nodes.length)]) :=
      entries_create_self hes
    obtain ⟨parent, hd⟩ := entries_eq_some_iff.1 hself
    have hlookup : (es ++ [(name, fs.nodes.length)]).lookup name = some fs.nodes.length := by
      rw [List.lookup_append, hname]
      simp
    unfold step
    rw [hd]
    dsimp only
    rw [hlookup]
    dsimp only
    rw [getElem?_create_new hes]
    cases isDir <;> rfl
  have hfollow : ∀ {chase chase' : ℕ → List Component → Lookup},
      (∀ n cs, chase n cs = .missing d name → chase' n cs = .found fs.nodes.length) →
      ∀ (cs : List Component) (n : ℕ), fs.follow last chase n cs = .missing d name →
        (fs.create d name isDir).follow true chase' n cs = .found fs.nodes.length := by
    intro chase chase' hchase cs
    induction cs with
    | nil => exact fun n h => by cases h
    | cons c rest ih =>
        intro n h
        rw [follow] at h ⊢
        split at h
        · next m hgoes =>
            rw [hgrows.step hgoes rfl]
            exact ih _ h
        · next m start target hlink =>
            rw [hgrows.step hlink rfl]
            dsimp only
            rw [if_neg (by simp)]
            split at h
            · cases h
            · exact hchase _ _ h
        · next other habsent =>
            split at h
            · next hrest =>
                cases h
                obtain ⟨rfl, -⟩ := step_eq_absent habsent
                rw [hstep, hrest]
                rfl
            · cases h
        · cases h
  have hlinks : ∀ (links n : ℕ) (cs : List Component),
      fs.followLinks last links n cs = .missing d name →
      (fs.create d name isDir).followLinks true links n cs = .found fs.nodes.length := by
    intro links
    induction links with
    | zero => exact fun n cs h => hfollow (fun _ _ hk => by cases hk) cs n h
    | succ links ih => exact fun n cs h => hfollow ih cs n h
  unfold find at h ⊢
  split at h
  · cases h
  · rw [if_neg ‹_›]
    exact hlinks _ _ _ h

end FileSystem

end SystemProgramming
