import SystemProgramming.Copy.Transfer
import SystemProgramming.Lib.FileTree

set_option autoImplicit false

/-! # A file and its copy

While a pair is open, the destination holds what has been written of the source, and what has been
read and not yet written is in the buffer of the worker that has the pair (`Copies`). A destination
that is a new file belongs to one pair, so that nobody else writes into it; when the pair is closed
the copy is whole (`FileInv`). -/

namespace SystemProgramming.Copy

open Function FileSystem

variable {W : ℕ}

/-- What has been read for the item and not yet written. -/
def Pending (s : ProgramState W) (item : Item) (bytes : Text) : Prop :=
  (∃ i, s.copy.workers i = .copying item ∧ s.readBuffer i = bytes) ∨
    (∀ i, s.copy.workers i ≠ .copying item) ∧ bytes = []

/-- The item copies the text `source` from the inode `n` to the inode `m`: `written` characters are
    in the destination, and `pending` follow them. -/
structure Copies (s : ProgramState W) (item : Item) (n m : ℕ) (source : Text) (written : ℕ)
    (pending : Text) : Prop where
  src : s.kernel.table item.srcFd = some ⟨n, written + pending.length, false⟩
  dest : s.kernel.table item.destFd = some ⟨m, written, true⟩
  content : s.kernel.fs.content m = some (source.take written)
  le : written + pending.length ≤ source.length
  bytes : pending = (source.drop written).take pending.length
  pending : Pending s item pending
  whole : ∀ i, s.copy.workers i = .closingSrc item → written = source.length

/-- The inode of the destination, while the pair is open. -/
def ProgramState.destInode (s : ProgramState W) (item : Item) : Option ℕ :=
  (s.kernel.table item.destFd).map OpenFile.inode

/-- The source of the item is open, and the destination is `m`. -/
def ProgramState.writesTo (s : ProgramState W) (item : Item) (m : ℕ) : Prop :=
  (s.kernel.table item.srcFd).isSome = true ∧ s.destInode item = some m

/-- `m` becomes the copy of `n`, or it is the copy and nobody will write into it any more. -/
inductive FileInv (s : ProgramState W) (n m : ℕ) (source : Text) : Prop
  | making (item : Item) (written : ℕ) (pending : Text) (hitem : item ∈ s.pairs)
      (h : Copies s item n m source written pending)
  | made (hcontent : s.kernel.fs.content m = some source)
      (hquiet : ∀ item ∈ s.pairs, ¬ s.writesTo item m)

/-- The destinations of the open pairs are different inodes, and the workers outside their copy
    loops have nothing to write. -/
structure PairsInv (s : ProgramState W) : Prop where
  once : ∀ item ∈ s.pairs, ∀ item' ∈ s.pairs, ∀ m, s.destInode item = some m →
    s.destInode item' = some m → item = item'
  lt : ∀ item ∈ s.pairs, ∀ m, s.destInode item = some m → m < s.kernel.fs.nodes.length
  readBuffer : ∀ i, (∀ item, s.copy.workers i ≠ .copying item) → s.readBuffer i = []

/-! ## Reading and writing -/

section Calls

variable {k : Kernel} {fd fd' n count : ℕ} {file : OpenFile} {bytes : Text}

theorem Kernel.read_of_table (h : k.table fd = some file) (count : ℕ) :
    k.read fd count = ((((k.fs.content file.inode).getD []).drop file.offset).take count,
      { k with table := update k.table fd (some { file with
          offset := file.offset + ((((k.fs.content file.inode).getD []).drop
            file.offset).take count).length }) }) := by
  rw [Kernel.read, h]

theorem Kernel.read_fs (k : Kernel) (fd count : ℕ) : (k.read fd count).2.fs = k.fs := by
  unfold Kernel.read
  split <;> rfl

theorem Kernel.read_table_of_ne (hne : fd' ≠ fd) :
    (k.read fd count).2.table fd' = k.table fd' := by
  unfold Kernel.read
  split
  · rfl
  · exact update_of_ne hne _ _

theorem Kernel.write_table_of_ne (hne : fd' ≠ fd) :
    (k.write fd bytes).table fd' = k.table fd' := by
  unfold Kernel.write
  split
  · rfl
  · split
    · exact update_of_ne hne _ _
    · rfl

theorem Kernel.write_of_table (h : k.table fd = some ⟨n, count, true⟩) :
    k.write fd bytes = { k with
      fs := k.fs.setContent n (Kernel.writeAt ((k.fs.content n).getD []) count bytes)
      table := update k.table fd (some ⟨n, count + bytes.length, true⟩) } := by
  rw [Kernel.write, h]
  rfl

/-- A `read` or a `write` moves offsets only. -/
theorem Kernel.read_inode (k : Kernel) (fd count fd' : ℕ) :
    ((k.read fd count).2.table fd').map OpenFile.inode
      = (k.table fd').map OpenFile.inode := by
  by_cases hne : fd' = fd
  · subst hne
    unfold Kernel.read
    split
    · rfl
    · next file hfile => simp [hfile]
  · rw [Kernel.read_table_of_ne hne]

theorem Kernel.write_inode (k : Kernel) (fd : ℕ) (bytes : Text) (fd' : ℕ) :
    ((k.write fd bytes).table fd').map OpenFile.inode
      = (k.table fd').map OpenFile.inode := by
  by_cases hne : fd' = fd
  · subst hne
    unfold Kernel.write
    split
    · rfl
    · next file hfile =>
        split
        · simp [hfile]
        · rfl
  · rw [Kernel.write_table_of_ne hne]

/-- A `write` into another inode. -/
theorem Kernel.write_content {m : ℕ} (h : (k.table fd).map OpenFile.inode ≠ some m) :
    (k.write fd bytes).fs.content m = k.fs.content m := by
  unfold Kernel.write
  split
  · rfl
  · next file hfile =>
      split
      · refine content_setContent ?_ _
        rintro rfl
        exact h (by rw [hfile]; rfl)
      · rfl

theorem Kernel.write_length (k : Kernel) (fd : ℕ) (bytes : Text) :
    (k.write fd bytes).fs.nodes.length = k.fs.nodes.length := by
  unfold Kernel.write
  split
  · rfl
  · split
    · exact length_setContent _ _ _
    · rfl

/-- Writing at the end. -/
theorem Kernel.writeAt_end {content : Text} {offset : ℕ} (h : content.length = offset)
    (bytes : Text) : Kernel.writeAt content offset bytes = content ++ bytes := by
  subst h
  rw [Kernel.writeAt, List.takeD_eq_take nul (Nat.le_refl _), List.take_length,
    List.drop_of_length_le (Nat.le_add_right _ _), List.append_nil]

end Calls

/-! ## The pairs -/

section Pairs

variable {v : Version} {size : ℤ} {s s' : ProgramState W}

/-- A call of the manager adds a pair where it opens a destination. -/
theorem pairs_of_goodCall {walk : Walk DirStream ℕ} {kernel : Kernel}
    (hcall : GoodCall s.kernel s.walk walk kernel)
    (hpc : ∀ srcFd dest name, s.walk.pc ≠ .openingDest srcFd dest name) :
    ({ s with walk := walk, kernel := kernel } : ProgramState W).pairs = s.pairs := by
  obtain ⟨copy, w, k, readBuffer⟩ := s
  have hitem : walk.item = w.item := by
    cases hcall with
    | delivers hnew hentry =>
        rw [(half_item_onEntry _ _ _).2]
        rfl
    | opensDest hopen => exact absurd rfl (hpc _ _ _)
    | _ => rfl
  unfold ProgramState.pairs ProgramState.inManager
  rw [hitem]

/-- A turn of the threads keeps the pairs. -/
theorem DescriptorInv.pairs_of_turn (h : DescriptorInv size s) {copy : CopyState W Item}
    (hstep : CopyStep v s.copy copy) :
    ({ s with copy := copy } : ProgramState W).pairs = s.pairs := by
  have hrest := (h.flow.step hstep).rest
  unfold ProgramState.pairs ProgramState.inManager
  dsimp only
  rw [← List.append_assoc, hrest, List.append_assoc]

theorem pairs_of_hands {item : Item} (hidle : s.copy.manager = .pushing [])
    (hpc : s.walk.pc = .pushing item) :
    ({ s with copy := { s.copy with manager := .pushing [item] }
              walk := ⟨.reading, s.walk.loops⟩ } : ProgramState W).pairs = s.pairs := by
  unfold ProgramState.pairs ProgramState.inManager Walk.item
  rw [hidle, hpc]
  rfl

/-- A step that opens no destination. -/
theorem PairsInv.of_le (h : PairsInv s) (hpairs : s'.pairs = s.pairs)
    (hinode : ∀ item ∈ s.pairs, ∀ m, s'.destInode item = some m → s.destInode item = some m)
    (hlength : s.kernel.fs.nodes.length ≤ s'.kernel.fs.nodes.length)
    (hread : ∀ i, (∀ item, s'.copy.workers i ≠ .copying item) → s'.readBuffer i = []) :
    PairsInv s' := by
  refine ⟨fun item hitem item' hitem' m hm hm' => ?_, fun item hitem m hm => ?_, hread⟩
  · rw [hpairs] at hitem hitem'
    exact h.once item hitem item' hitem' m (hinode item hitem m hm) (hinode item' hitem' m hm')
  · rw [hpairs] at hitem
    exact (h.lt item hitem m (hinode item hitem m hm)).trans_le hlength

/-- What is opened in a good call is a new descriptor. -/
theorem table_of_goodCall {k k' : Kernel} {w w' : Walk DirStream ℕ} (hcall : GoodCall k w w' k')
    {fd : ℕ} (hfd : fd < k.opens) :
    k'.table fd = k.table fd := by
  cases hcall with
  | opensSrc hfind => exact update_of_ne hfd.ne _ _
  | opensDest hopen =>
      obtain ⟨-, fs, file, -, rfl⟩ := Kernel.openDest_spec hopen
      exact update_of_ne hfd.ne _ _
  | _ => rfl

/-- What the calls of the walk must not do: meet a destination file. -/
def WalkCreates (s : ProgramState W) : Prop :=
  ∀ srcFd dest name, s.walk.pc = .openingDest srcFd dest name →
    ∃ d key, s.kernel.fs.find true dest = .missing d key

theorem openDest_missing {k k' : Kernel} {path : Text} {reply : Option ℕ} {d : ℕ}
    {name : EntryName} (hfind : k.fs.find true path = .missing d name)
    (h : k.openDest path = some (reply, k')) :
    k' = { k with fs := k.fs.create d name false }.allocate ⟨k.fs.nodes.length, 0, true⟩ := by
  unfold Kernel.openDest at h
  rw [hfind] at h
  cases h
  rfl

/-- A good call changes the file system only by making something new. -/
theorem grows_of_goodCall {k k' : Kernel} {w w' : Walk DirStream ℕ} (hcall : GoodCall k w w' k') :
    Grows k.fs k'.fs := by
  cases hcall with
  | makes hfind => exact grows_create _ _ _ _
  | opensDest hopen =>
      obtain ⟨-, fs, file, hgrows, rfl⟩ := Kernel.openDest_spec hopen
      exact hgrows
  | _ => exact .refl _

theorem DescriptorInv.destInode_of_table (h : DescriptorInv size s) {item : Item}
    (hitem : item ∈ s.pairs)
    (htable : ∀ fd, fd < s.kernel.opens → s'.kernel.table fd = s.kernel.table fd) :
    s'.destInode item = s.destInode item := by
  unfold ProgramState.destInode
  rw [htable _ (h.lt_opens hitem).2]

theorem PairsInv.opensDest (h : PairsInv s) (hdesc : DescriptorInv size s) {srcFd : ℕ}
    {name : Text} {d : ℕ} {key : EntryName} {walk : Walk DirStream ℕ} {k' : Kernel}
    (hitem : s.walk.item = []) (hwalk : walk.item = [⟨srcFd, s.kernel.opens, name⟩])
    (hk' : k' = { s.kernel with fs := s.kernel.fs.create d key false }.allocate
      ⟨s.kernel.fs.nodes.length, 0, true⟩) (hes : ∃ es, s.kernel.fs.entries d = some es) :
    PairsInv { s with walk := walk, kernel := k' } := by
  obtain ⟨es, hes⟩ := hes
  have hlen : k'.fs.nodes.length = s.kernel.fs.nodes.length + 1 := by
    rw [hk']
    exact length_create hes
  have hpairs : ({ s with walk := walk, kernel := k' } : ProgramState W).pairs
      = s.pairs ++ [⟨srcFd, s.kernel.opens, name⟩] := by
    unfold ProgramState.pairs ProgramState.inManager
    dsimp only
    rw [hitem, hwalk, List.append_nil, List.append_assoc]
  have hold : ∀ item ∈ s.pairs,
      ({ s with walk := walk, kernel := k' } : ProgramState W).destInode item
        = s.destInode item := by
    intro item hitem
    refine hdesc.destInode_of_table hitem fun fd hfd => ?_
    show k'.table fd = _
    rw [hk']
    exact update_of_ne hfd.ne _ _
  have hnew : ({ s with walk := walk, kernel := k' } : ProgramState W).destInode
      ⟨srcFd, s.kernel.opens, name⟩ = some s.kernel.fs.nodes.length := by
    unfold ProgramState.destInode
    dsimp only
    rw [hk']
    simp [Kernel.allocate]
  refine ⟨?_, ?_, h.readBuffer⟩
  · intro item hitem item' hitem' m hm hm'
    rw [hpairs] at hitem hitem'
    rcases List.mem_append.1 hitem with hitem | hitem <;>
      rcases List.mem_append.1 hitem' with hitem' | hitem'
    · rw [hold item hitem] at hm
      rw [hold item' hitem'] at hm'
      exact h.once item hitem item' hitem' m hm hm'
    · rw [hold item hitem] at hm
      rw [List.mem_singleton.1 hitem', hnew] at hm'
      obtain rfl := Option.some.inj hm'
      exact absurd (h.lt item hitem _ hm) (Nat.lt_irrefl _)
    · rw [hold item' hitem'] at hm'
      rw [List.mem_singleton.1 hitem, hnew] at hm
      obtain rfl := Option.some.inj hm
      exact absurd (h.lt item' hitem' _ hm') (Nat.lt_irrefl _)
    · rw [List.mem_singleton.1 hitem, List.mem_singleton.1 hitem']
  · intro item hitem m hm
    show m < k'.fs.nodes.length
    rw [hpairs] at hitem
    rcases List.mem_append.1 hitem with hitem | hitem
    · rw [hold item hitem] at hm
      have := h.lt item hitem m hm
      omega
    · rw [List.mem_singleton.1 hitem, hnew] at hm
      obtain rfl := Option.some.inj hm
      omega

theorem PairsInv.step (h : PairsInv s) (hdesc : DescriptorInv size s) (hcreates : WalkCreates s)
    (hstep : GoodStep v s s') : PairsInv s' := by
  cases hstep with
  | calls walk kernel hidle hcall =>
      by_cases hpc : ∃ srcFd dest name, s.walk.pc = .openingDest srcFd dest name
      · obtain ⟨srcFd, dest, name, hpc⟩ := hpc
        obtain ⟨d, key, hfind⟩ := hcreates srcFd dest name hpc
        obtain ⟨es, hes, -⟩ := entries_of_missing hfind
        obtain ⟨copy, w, k, readBuffer⟩ := s
        cases hcall with
        | opensDest hopen =>
            cases hpc
            exact h.opensDest hdesc rfl rfl (openDest_missing hfind hopen) ⟨es, hes⟩
        | delivers hnew hentry => cases hpc
        | _ => cases hpc
      · have hne : ∀ srcFd dest name, s.walk.pc ≠ .openingDest srcFd dest name :=
          fun srcFd dest name heq => hpc ⟨srcFd, dest, name, heq⟩
        refine h.of_le (pairs_of_goodCall hcall hne) (fun item hitem m hm => ?_)
          (grows_of_goodCall hcall).length_le h.readBuffer
        have hsame : ({ s with walk := walk, kernel := kernel } : ProgramState W).destInode item
            = s.destInode item := hdesc.destInode_of_table hitem fun fd hfd =>
          table_of_goodCall hcall hfd
        rwa [hsame] at hm
  | hands item hidle hpc =>
      exact h.of_le (pairs_of_hands hidle hpc) (fun _ _ _ hm => hm) (Nat.le_refl _) h.readBuffer
  | turns copy hstep hcalm =>
      refine h.of_le (hdesc.pairs_of_turn hstep) (fun _ _ _ hm => hm) (Nat.le_refl _) ?_
      intro i hi
      refine h.readBuffer i fun item hcopying => ?_
      rcases hcalm i with heq | ⟨hnone, -⟩
      · rw [hcopying] at heq
        exact hi item (WorkerPC.phase_eq_copying.1 heq)
      · rw [hcopying] at hnone
        cases hnone
  | reads i item n hi hempty =>
      refine h.of_le rfl (fun item' _ m hm => ?_) (by rw [Kernel.read_fs]) ?_
      · rwa [ProgramState.destInode, Kernel.read_inode] at hm
      · intro j hj
        by_cases hij : j = i
        · rw [hij] at hj
          exact absurd hi (hj item)
        · dsimp only
          rw [update_of_ne hij]
          exact h.readBuffer j hj
  | ends i item n hi hempty hn hnone =>
      refine h.of_le rfl (fun _ _ _ hm => hm) (Nat.le_refl _) ?_
      intro j hj
      by_cases hij : j = i
      · rw [hij]
        exact hempty
      · dsimp only at hj
        rw [update_of_ne hij] at hj
        exact h.readBuffer j hj
  | writes i item hi =>
      refine h.of_le rfl (fun item' _ m hm => ?_) (by rw [Kernel.write_length]) ?_
      · rwa [ProgramState.destInode, Kernel.write_inode] at hm
      · intro j hj
        by_cases hij : j = i
        · rw [hij]
          exact update_self _ _ _
        · dsimp only
          rw [update_of_ne hij]
          exact h.readBuffer j hj
  | closesSrc i item hi =>
      refine h.of_le rfl (fun item' hitem' m hm => ?_) (Nat.le_refl _) ?_
      · unfold ProgramState.destInode Kernel.close at hm
        dsimp only at hm
        by_cases heq : item'.destFd = item.srcFd
        · rw [heq, update_self] at hm
          cases hm
        · rwa [update_of_ne heq] at hm
      · intro j hj
        refine h.readBuffer j fun item' hcopying => ?_
        have hij : j ≠ i := by
          rintro rfl
          rw [hi] at hcopying
          cases hcopying
        exact hj item' (by rw [← hcopying]; exact update_of_ne hij _ _)
  | closesDest i item hi =>
      refine h.of_le rfl (fun item' hitem' m hm => ?_) (Nat.le_refl _) ?_
      · unfold ProgramState.destInode Kernel.close at hm
        dsimp only at hm
        by_cases heq : item'.destFd = item.destFd
        · rw [heq, update_self] at hm
          cases hm
        · rwa [update_of_ne heq] at hm
      · intro j hj
        refine h.readBuffer j fun item' hcopying => ?_
        have hij : j ≠ i := by
          rintro rfl
          rw [hi] at hcopying
          cases hcopying
        exact hj item' (by rw [← hcopying]; exact update_of_ne hij _ _)

end Pairs

/-! ## A copy is made -/

section Step

variable {v : Version} {size : ℤ} {s s' : ProgramState W} {item item' : Item} {n m written : ℕ}
  {source pending : Text} {i : Fin W}

/-- A step that touches neither the item nor its copy. -/
theorem Copies.frame (h : Copies s item n m source written pending)
    (hsrc : s'.kernel.table item.srcFd = s.kernel.table item.srcFd)
    (hdest : s'.kernel.table item.destFd = s.kernel.table item.destFd)
    (hcontent : s'.kernel.fs.content m = s.kernel.fs.content m)
    (hpending : Pending s' item pending)
    (hwhole : ∀ i, s'.copy.workers i = .closingSrc item →
      ∃ j, s.copy.workers j = .closingSrc item) : Copies s' item n m source written pending := by
  refine ⟨hsrc.trans h.src, hdest.trans h.dest, hcontent.trans h.content, h.le, h.bytes, hpending,
    fun i hi => ?_⟩
  obtain ⟨j, hj⟩ := hwhole i hi
  exact h.whole j hj

/-- What is pending is in the buffer of the worker that has the item. -/
theorem DescriptorInv.pending_eq (h : DescriptorInv size s) (hp : Pending s item pending)
    (hi : s.copy.workers i = .copying item) : pending = s.readBuffer i := by
  rcases hp with ⟨j, hj, rfl⟩ | ⟨hnone, -⟩
  · rw [h.eq_of_held (i := i) (j := j) (by rw [hi]; exact Multiset.mem_singleton_self item)
      (by rw [hj]; exact Multiset.mem_singleton_self item)]
  · exact absurd hi (hnone i)

/-- One worker moves on, which does not copy the item. -/
theorem Pending.update_worker (hp : Pending s item pending) {x : WorkerPC Item}
    (hworkers : s'.copy.workers = update s.copy.workers i x) (hread : s'.readBuffer = s.readBuffer)
    (hi : s.copy.workers i ≠ .copying item) (hx : x ≠ .copying item) :
    Pending s' item pending := by
  rcases hp with ⟨j, hj, rfl⟩ | ⟨hnone, rfl⟩
  · refine .inl ⟨j, ?_, by rw [hread]⟩
    rw [hworkers, update_of_ne, hj]
    rintro rfl
    exact hi hj
  · refine .inr ⟨fun j => ?_, rfl⟩
    rw [hworkers]
    by_cases hij : j = i
    · rw [hij, update_self]
      exact hx
    · rw [update_of_ne hij]
      exact hnone j

/-- The buffer of another worker changes. -/
theorem Pending.update_readBuffer (hp : Pending s item pending) {bytes : Text}
    (hworkers : s'.copy.workers = s.copy.workers)
    (hread : s'.readBuffer = update s.readBuffer i bytes)
    (hi : s.copy.workers i ≠ .copying item) : Pending s' item pending := by
  rcases hp with ⟨j, hj, rfl⟩ | ⟨hnone, rfl⟩
  · refine .inl ⟨j, by rw [hworkers, hj], ?_⟩
    rw [hread, update_of_ne]
    rintro rfl
    exact hi hj
  · exact .inr ⟨fun j => by rw [hworkers]; exact hnone j, rfl⟩

theorem Pending.turn (hp : Pending s item pending) (hpairs : PairsInv s)
    {copy : CopyState W Item} (hcalm : Calm s.copy copy) :
    Pending { s with copy := copy } item pending := by
  rcases hp with ⟨j, hj, rfl⟩ | ⟨hnone, rfl⟩
  · refine .inl ⟨j, ?_, rfl⟩
    rcases hcalm j with heq | ⟨hphase, -⟩
    · rw [hj] at heq
      exact WorkerPC.phase_eq_copying.1 heq
    · rw [hj] at hphase
      cases hphase
  · by_cases hnew : ∃ j, copy.workers j = .copying item
    · -- a worker has just popped the item
      obtain ⟨j, hj⟩ := hnew
      refine .inl ⟨j, hj, hpairs.readBuffer j fun other hother => ?_⟩
      rcases hcalm j with heq | ⟨hphase, -⟩
      · rw [hj, hother] at heq
        cases heq
        exact hnone j hother
      · rw [hother] at hphase
        cases hphase
    · exact .inr ⟨fun j hj => hnew ⟨j, hj⟩, rfl⟩

theorem Calm.closing {c c' : CopyState W Item} (h : Calm c c')
    (hi : c'.workers i = .closingSrc item) : c.workers i = .closingSrc item := by
  rcases h i with heq | ⟨-, other, hother⟩
  · rw [hi] at heq
    exact WorkerPC.phase_eq_closing.1 heq.symm
  · rw [hi] at hother
    cases hother

/-- A worker that copies the item has its source open. -/
theorem DescriptorInv.isSome_of_copying (h : DescriptorInv size s)
    (hi : s.copy.workers i = .copying item) : (s.kernel.table item.srcFd).isSome = true := by
  have hheld : item ∈ (s.copy.workers i).held := by
    rw [hi]
    exact Multiset.mem_singleton_self item
  refine h.isSome_srcFd (DescriptorInv.mem_placed_of_held hheld) fun j hj => ?_
  have hij : i = j := h.eq_of_held hheld (by rw [hj]; exact Multiset.mem_singleton_self item)
  rw [← hij, hi] at hj
  cases hj

/-- A worker that closes the destination has closed the source. -/
theorem DescriptorInv.isNone_of_closingDest (h : DescriptorInv size s)
    (hi : s.copy.workers i = .closingDest item) : s.kernel.table item.srcFd = none := by
  have hmem : item ∈ s.pairs :=
    h.mem_pairs_of_held (i := i) (by rw [hi]; exact Multiset.mem_singleton_self item)
  have hclosed : item.srcFd ∈ s.closed := by
    refine Multiset.mem_add.2 (.inr (Multiset.mem_sum.2 ⟨i, Finset.mem_univ i, ?_⟩))
    rw [hi]
    exact Multiset.mem_singleton_self _
  rw [← Option.isNone_iff_eq_none, ← Option.not_isSome, Bool.not_eq_true',
    ← Bool.not_eq_true, h.isSome_iff (descriptors_of_mem (Multiset.mem_coe.2 hmem)).1]
  exact not_not.2 hclosed

/-- `read` delivers what follows what was read before. -/
theorem Copies.reads (h : Copies s item n m source written []) (hdesc : DescriptorInv size s)
    (hitem : item ∈ s.pairs) (hi : s.copy.workers i = .copying item)
    (hsource : s.kernel.fs.content n = some source) (k : ℕ) :
    Copies { s with kernel := (s.kernel.read item.srcFd k).2
                    readBuffer := update s.readBuffer i (s.kernel.read item.srcFd k).1 }
      item n m source written ((source.drop written).take k) := by
  obtain ⟨hsrc, hdest, hcontent, hle, -, -, hwhole⟩ := h
  simp only [List.length_nil, Nat.add_zero] at hsrc hle
  have hread := Kernel.read_of_table hsrc k
  simp only [hsource, Option.getD_some] at hread
  refine ⟨?_, ?_, ?_, ?_, ?_, .inl ⟨i, hi, ?_⟩, hwhole⟩
  · rw [hread]
    exact update_self _ _ _
  · exact (Kernel.read_table_of_ne (hdesc.srcFd_ne_destFd hitem hitem).symm).trans hdest
  · dsimp only
    rw [Kernel.read_fs, hcontent]
  · rw [List.length_take, List.length_drop]
    omega
  · rw [List.length_take, ← List.take_take, List.take_length]
  · rw [hread]
    exact update_self _ _ _

/-- `write` appends what was read. -/
theorem Copies.writes (h : Copies s item n m source written (s.readBuffer i))
    (hdesc : DescriptorInv size s) (hitem : item ∈ s.pairs)
    (hi : s.copy.workers i = .copying item) :
    Copies { s with kernel := s.kernel.write item.destFd (s.readBuffer i)
                    readBuffer := update s.readBuffer i [] }
      item n m source (written + (s.readBuffer i).length) [] := by
  obtain ⟨hsrc, hdest, hcontent, hle, hbytes, -, hwhole⟩ := h
  have hlength : (source.take written).length = written := by
    rw [List.length_take]
    omega
  refine ⟨?_, ?_, ?_, hle, rfl, .inl ⟨i, hi, update_self _ _ _⟩, fun j hj => ?_⟩
  · exact (Kernel.write_table_of_ne (hdesc.srcFd_ne_destFd hitem hitem)).trans hsrc
  · dsimp only
    rw [Kernel.write_of_table hdest]
    exact update_self _ _ _
  · dsimp only
    rw [Kernel.write_of_table hdest]
    dsimp only
    rw [content_setContent_self hcontent, hcontent, Option.getD_some,
      Kernel.writeAt_end hlength, List.take_add, ← hbytes]
  · have := hwhole j hj
    omega

/-- The copy loop ends where the source does. -/
theorem Copies.ends (h : Copies s item n m source written []) (hdesc : DescriptorInv size s)
    (hi : s.copy.workers i = .copying item) (hsource : s.kernel.fs.content n = some source) {k : ℕ}
    (hk : 1 ≤ k) (hnone : (s.kernel.read item.srcFd k).1 = []) :
    Copies { s with copy := { s.copy with workers := update s.copy.workers i (.closingSrc item) } }
      item n m source written [] := by
  obtain ⟨hsrc, hdest, hcontent, hle, hbytes, -, -⟩ := h
  refine ⟨hsrc, hdest, hcontent, hle, hbytes, .inr ⟨fun j hj => ?_, rfl⟩, fun _ _ => ?_⟩
  · dsimp only at hj
    by_cases hij : j = i
    · rw [hij, update_self] at hj
      cases hj
    · rw [update_of_ne hij] at hj
      have hheld : item ∈ (s.copy.workers j).held := by
        rw [hj]
        exact Multiset.mem_singleton_self item
      exact hij (hdesc.eq_of_held hheld (by rw [hi]; exact Multiset.mem_singleton_self item))
  · simp only [List.length_nil, Nat.add_zero] at hsrc hle
    rw [Kernel.read_of_table hsrc] at hnone
    simp only [hsource, Option.getD_some] at hnone
    have hlength := congrArg List.length hnone
    rw [List.length_take, List.length_drop, List.length_nil] at hlength
    omega

/-- A good call of the manager keeps the content of a file and the pairs, and what it opens is
    new. -/
theorem WalkCreates.calls (h : WalkCreates s) {walk : Walk DirStream ℕ} {kernel : Kernel}
    (hcall : GoodCall s.kernel s.walk walk kernel) {bytes : Text}
    (hbytes : s.kernel.fs.content m = some bytes) :
    kernel.fs.content m = some bytes ∧
      (∀ {item}, item ∈ s.pairs →
        item ∈ ({ s with walk := walk, kernel := kernel } : ProgramState W).pairs) ∧
      ∀ item ∈ ({ s with walk := walk, kernel := kernel } : ProgramState W).pairs,
        item ∈ s.pairs ∨
          ({ s with walk := walk, kernel := kernel } : ProgramState W).destInode item ≠ some m := by
  by_cases hpc : ∃ srcFd dest name, s.walk.pc = .openingDest srcFd dest name
  · obtain ⟨srcFd, dest, name, hpc⟩ := hpc
    obtain ⟨d, key, hfind⟩ := h srcFd dest name hpc
    obtain ⟨copy, w, k, readBuffer⟩ := s
    cases hcall with
    | opensDest hopen =>
        cases hpc
        have hk := openDest_missing hfind hopen
        subst hk
        refine ⟨content_create hbytes d key false, fun {item} hitem => ?_, fun item hitem => ?_⟩
        · unfold ProgramState.pairs ProgramState.inManager at hitem ⊢
          simp only [Walk.item, List.append_nil] at hitem
          rw [← List.append_assoc]
          exact List.mem_append_left _ hitem
        · unfold ProgramState.pairs ProgramState.inManager at hitem ⊢
          simp only [Walk.item, List.append_nil] at hitem ⊢
          rw [← List.append_assoc] at hitem
          refine (List.mem_append.1 hitem).imp_right fun hnew => ?_
          rw [List.mem_singleton.1 hnew]
          have hlt := lt_of_content hbytes
          simp only [ProgramState.destInode, Kernel.allocate, update_self, Option.map_some, ne_eq,
            Option.some.injEq]
          exact fun heq => absurd heq (Nat.ne_of_gt hlt)
    | delivers hnew hentry => cases hpc
    | _ => cases hpc
  · have hne : ∀ srcFd dest name, s.walk.pc ≠ .openingDest srcFd dest name :=
      fun srcFd dest name heq => hpc ⟨srcFd, dest, name, heq⟩
    have hsame := pairs_of_goodCall hcall hne
    refine ⟨?_, fun {item} hitem => by rwa [hsame], fun item hitem => .inl (by rwa [hsame] at hitem)⟩
    obtain ⟨copy, w, k, readBuffer⟩ := s
    cases hcall with
    | makes hfind => exact content_create hbytes _ _ _
    | opensDest hopen => exact absurd rfl (hne _ _ _)
    | _ => exact hbytes

theorem FileInv.content_isSome (h : FileInv s n m source) :
    ∃ bytes, s.kernel.fs.content m = some bytes := by
  cases h with
  | making item written pending hitem hcopies => exact ⟨_, hcopies.content⟩
  | made hcontent hquiet => exact ⟨_, hcontent⟩

/-- The copy of a file is made, whatever the threads do, as long as the manager only makes new
    destinations. -/
theorem FileInv.step (h : FileInv s n m source) (hdesc : DescriptorInv size s)
    (hpairs : PairsInv s) (hcreates : WalkCreates s)
    (hsource : s.kernel.fs.content n = some source) (hstep : GoodStep v s s') :
    FileInv s' n m source := by
  obtain ⟨bytes, hbytes⟩ := h.content_isSome
  cases hstep with
  | calls walk kernel hidle hcall =>
      have htable : ∀ fd, fd < s.kernel.opens → kernel.table fd = s.kernel.table fd :=
        fun fd hfd => table_of_goodCall hcall hfd
      obtain ⟨hcontent, hmem, hnew⟩ := hcreates.calls hcall hbytes
      cases h with
      | making item written pending hitem hcopies =>
          refine .making item written pending (hmem hitem) (hcopies.frame
            (htable _ (hdesc.lt_opens hitem).1) (htable _ (hdesc.lt_opens hitem).2)
            (hcontent.trans hbytes.symm) hcopies.pending fun i hi => ⟨i, hi⟩)
      | made hmade hquiet =>
          refine .made (hcontent.trans (hbytes.symm.trans hmade)) fun item hitem hwrites => ?_
          rcases hnew item hitem with hitem | hne
          · refine hquiet item hitem ⟨?_, ?_⟩
            · rw [← htable _ (hdesc.lt_opens hitem).1]
              exact hwrites.1
            · have hsame : ({ s with walk := walk, kernel := kernel } : ProgramState W).destInode
                  item = s.destInode item := hdesc.destInode_of_table hitem htable
              exact hsame.symm.trans hwrites.2
          · exact hne hwrites.2
  | hands item' hidle hpc =>
      have hsame := pairs_of_hands hidle hpc
      cases h with
      | making item written pending hitem hcopies =>
          exact .making item written pending (by rw [hsame]; exact hitem)
            (hcopies.frame rfl rfl rfl hcopies.pending fun i hi => ⟨i, hi⟩)
      | made hmade hquiet =>
          exact .made hmade fun item hitem => hquiet item (by rwa [hsame] at hitem)
  | turns copy hstep hcalm =>
      have hsame := hdesc.pairs_of_turn hstep
      cases h with
      | making item written pending hitem hcopies =>
          exact .making item written pending (by rw [hsame]; exact hitem)
            (hcopies.frame rfl rfl rfl (hcopies.pending.turn hpairs hcalm)
              fun i hi => ⟨i, hcalm.closing hi⟩)
      | made hmade hquiet =>
          exact .made hmade fun item hitem => hquiet item (by rwa [hsame] at hitem)
  | reads i item' k hi hempty =>
      have hitem' : item' ∈ s.pairs :=
        hdesc.mem_pairs_of_held (i := i) (by rw [hi]; exact Multiset.mem_singleton_self item')
      cases h with
      | making item written pending hitem hcopies =>
          by_cases heq : item' = item
          · subst heq
            have hnone := (hdesc.pending_eq hcopies.pending hi).trans hempty
            rw [hnone] at hcopies
            exact .making item' written _ hitem (hcopies.reads hdesc hitem hi hsource k)
          · refine .making item written pending hitem (hcopies.frame
              (Kernel.read_table_of_ne fun hfd => heq (hdesc.eq_of_srcFd hitem' hitem hfd.symm))
              (Kernel.read_table_of_ne (hdesc.srcFd_ne_destFd hitem' hitem).symm)
              (by dsimp only; rw [Kernel.read_fs])
              (hcopies.pending.update_readBuffer rfl rfl ?_) fun i hi => ⟨i, hi⟩)
            rw [hi]
            exact fun hcopying => heq (WorkerPC.copying.inj hcopying)
      | made hmade hquiet =>
          refine .made (by dsimp only; rw [Kernel.read_fs, hmade]) fun item hitem hwrites => ?_
          refine hquiet item hitem ⟨?_, ?_⟩
          · rw [← (Kernel.same_read s.kernel item'.srcFd k).table]
            exact hwrites.1
          · have hinode := hwrites.2
            rwa [ProgramState.destInode, Kernel.read_inode] at hinode
  | ends i item' k hi hempty hk hnone =>
      cases h with
      | making item written pending hitem hcopies =>
          by_cases heq : item' = item
          · subst heq
            have hnopending := (hdesc.pending_eq hcopies.pending hi).trans hempty
            subst hnopending
            exact .making item' written [] hitem (hcopies.ends hdesc hi hsource hk hnone)
          · have hother : s.copy.workers i ≠ .copying item := by
              rw [hi]
              exact fun hcopying => heq (WorkerPC.copying.inj hcopying)
            refine .making item written pending hitem (hcopies.frame rfl rfl rfl
              (hcopies.pending.update_worker rfl rfl hother nofun) fun j hj => ⟨j, ?_⟩)
            dsimp only at hj
            by_cases hij : j = i
            · rw [hij, update_self] at hj
              exact absurd (WorkerPC.closingSrc.inj hj) heq
            · rwa [update_of_ne hij] at hj
      | made hmade hquiet => exact .made hmade hquiet
  | writes i item' hi =>
      have hitem' : item' ∈ s.pairs :=
        hdesc.mem_pairs_of_held (i := i) (by rw [hi]; exact Multiset.mem_singleton_self item')
      cases h with
      | making item written pending hitem hcopies =>
          by_cases heq : item' = item
          · subst heq
            have hpending := hdesc.pending_eq hcopies.pending hi
            subst hpending
            exact .making item' _ [] hitem (hcopies.writes hdesc hitem hi)
          · have hother : s.destInode item' ≠ some m := fun hinode =>
              heq (hpairs.once item' hitem' item hitem m hinode (by
                rw [ProgramState.destInode, hcopies.dest]
                rfl))
            refine .making item written pending hitem (hcopies.frame
              (Kernel.write_table_of_ne (hdesc.srcFd_ne_destFd hitem hitem'))
              (Kernel.write_table_of_ne fun hfd => heq (hdesc.eq_of_destFd hitem' hitem hfd.symm))
              (Kernel.write_content hother) (hcopies.pending.update_readBuffer rfl rfl ?_)
              fun i hi => ⟨i, hi⟩)
            rw [hi]
            exact fun hcopying => heq (WorkerPC.copying.inj hcopying)
      | made hmade hquiet =>
          have hother : s.destInode item' ≠ some m := fun hinode =>
            hquiet item' hitem' ⟨hdesc.isSome_of_copying hi, hinode⟩
          refine .made ((Kernel.write_content hother).trans hmade) fun item hitem hwrites => ?_
          refine hquiet item hitem ⟨?_, ?_⟩
          · rw [← (Kernel.same_write s.kernel item'.destFd (s.readBuffer i)).table]
            exact hwrites.1
          · have hinode := hwrites.2
            rwa [ProgramState.destInode, Kernel.write_inode] at hinode
  | closesSrc i item' hi =>
      have hitem' : item' ∈ s.pairs :=
        hdesc.mem_pairs_of_held (i := i) (by rw [hi]; exact Multiset.mem_singleton_self item')
      have hinode : ∀ item ∈ s.pairs, (s.kernel.close item'.srcFd).table item.destFd
          = s.kernel.table item.destFd := fun item hitem =>
        update_of_ne (hdesc.srcFd_ne_destFd hitem' hitem).symm _ _
      have hclosed' : (s.kernel.close item'.srcFd).table item'.srcFd = none := update_self _ _ _
      cases h with
      | making item written pending hitem hcopies =>
          by_cases heq : item' = item
          · subst heq
            have hwhole := hcopies.whole i hi
            have hcontent := hcopies.content
            rw [hwhole, List.take_length] at hcontent
            refine .made hcontent fun item hitem₂ hwrites => ?_
            -- the destination belongs to this item, and its source is closed now
            obtain ⟨hopen, hinode'⟩ := hwrites
            unfold ProgramState.destInode at hinode'
            rw [hinode item hitem₂] at hinode'
            obtain rfl := hpairs.once item hitem₂ item' hitem m hinode' (by
              rw [ProgramState.destInode, hcopies.dest]
              rfl)
            rw [hclosed'] at hopen
            cases hopen
          · refine .making item written pending hitem (hcopies.frame
              (update_of_ne (fun hfd => heq (hdesc.eq_of_srcFd hitem' hitem hfd.symm)) _ _)
              (hinode item hitem) rfl (hcopies.pending.update_worker rfl rfl (by rw [hi]; nofun)
                nofun) fun j hj => ⟨j, ?_⟩)
            dsimp only at hj
            by_cases hij : j = i
            · rw [hij, update_self] at hj
              cases hj
            · rwa [update_of_ne hij] at hj
      | made hmade hquiet =>
          refine .made hmade fun item hitem hwrites => ?_
          obtain ⟨hopen, hinode'⟩ := hwrites
          unfold ProgramState.destInode at hinode'
          rw [hinode item hitem] at hinode'
          refine hquiet item hitem ⟨?_, hinode'⟩
          by_cases hfd : item.srcFd = item'.srcFd
          · rw [hfd, hclosed'] at hopen
            cases hopen
          · rwa [show (s.kernel.close item'.srcFd).table item.srcFd = _ from update_of_ne hfd _ _]
              at hopen
  | closesDest i item' hi =>
      have hitem' : item' ∈ s.pairs :=
        hdesc.mem_pairs_of_held (i := i) (by rw [hi]; exact Multiset.mem_singleton_self item')
      have hsrc : ∀ item ∈ s.pairs, (s.kernel.close item'.destFd).table item.srcFd
          = s.kernel.table item.srcFd := fun item hitem =>
        update_of_ne (hdesc.srcFd_ne_destFd hitem hitem') _ _
      cases h with
      | making item written pending hitem hcopies =>
          have heq : item' ≠ item := by
            rintro rfl
            have := hcopies.src
            rw [hdesc.isNone_of_closingDest hi] at this
            cases this
          refine .making item written pending hitem (hcopies.frame (hsrc item hitem)
            (update_of_ne (fun hfd => heq (hdesc.eq_of_destFd hitem' hitem hfd.symm)) _ _) rfl
            (hcopies.pending.update_worker rfl rfl (by rw [hi]; nofun) nofun) fun j hj => ⟨j, ?_⟩)
          dsimp only at hj
          by_cases hij : j = i
          · rw [hij, update_self] at hj
            cases hj
          · rwa [update_of_ne hij] at hj
      | made hmade hquiet =>
          refine .made hmade fun item hitem hwrites => ?_
          obtain ⟨hopen, hinode'⟩ := hwrites
          rw [hsrc item hitem] at hopen
          refine hquiet item hitem ⟨hopen, ?_⟩
          unfold ProgramState.destInode at hinode' ⊢
          by_cases hfd : item.destFd = item'.destFd
          · rw [hfd, show (s.kernel.close item'.destFd).table item'.destFd = none
              from update_self _ _ _] at hinode'
            cases hinode'
          · rwa [show (s.kernel.close item'.destFd).table item.destFd = _
              from update_of_ne hfd _ _] at hinode'

end Step

end SystemProgramming.Copy
