import SystemProgramming.Copy.PipelineSafety
import SystemProgramming.Copy.Program

set_option autoImplicit false

/-! # Who owns the descriptors

The manager opens the two files of an item, the buffer carries the pair of descriptors to one of the
workers, and that worker closes both. `Ledger` is the account of the kernel: every descriptor that
was ever opened has been closed once, or belongs to a pair or to the manager, and is open.
`DescriptorInv` joins it to `FlowInv`, which says where the pairs are. -/

namespace SystemProgramming.Copy

open Function

variable {W : ℕ}

/-! ## Pairs and places -/

/-- A source whose destination is not open yet. -/
def Walk.half {δ φ : Type} (w : Walk δ φ) : List φ :=
  match w.pc with
  | .openingDest srcFd _ _ | .closingSrc srcFd => [srcFd]
  | .destroying left | .destroyed left | .exited left | .undefined left => left
  | _ => []

/-- The pair that the manager has opened and not yet given to `buffer_push`. -/
def Walk.item {δ φ : Type} (w : Walk δ φ) : List (BufferElement φ) :=
  match w.pc with
  | .pushing item => [item]
  | _ => []

namespace ProgramState

/-- The pairs in the hands of the manager. -/
def inManager (s : ProgramState W) : List Item := s.copy.manager.rest ++ s.walk.item

/-- The pairs that have been opened. -/
def pairs (s : ProgramState W) : List Item := s.copy.pushed ++ s.inManager

/-- One of the two descriptors is open. -/
def isOpen (s : ProgramState W) (item : Item) : Bool :=
  (s.kernel.table item.srcFd).isSome || (s.kernel.table item.destFd).isSome

/-- The pairs that have been opened and not yet closed. -/
def openPairs (s : ProgramState W) : List Item := s.pairs.filter s.isOpen

end ProgramState

/-- Where a pair can be. -/
inductive Place (W : ℕ)
  | manager
  | buffer
  | worker (i : Fin W)

/-- The pairs at a place. -/
def ProgramState.holding (s : ProgramState W) : Place W → Multiset Item
  | .manager => s.inManager
  | .buffer => s.copy.buffer.stored
  | .worker i => (s.copy.workers i).held

/-! ## The account of the kernel -/

/-- The descriptors of some pairs. -/
def descriptors (items : Multiset Item) : Multiset ℕ :=
  items.map BufferElement.srcFd + items.map BufferElement.destFd

@[simp] theorem descriptors_zero : descriptors 0 = 0 := rfl

@[simp] theorem descriptors_singleton (item : Item) :
    descriptors {item} = {item.srcFd} + {item.destFd} := rfl

@[simp] theorem descriptors_add (items items' : Multiset Item) :
    descriptors (items + items') = descriptors items + descriptors items' := by
  simp only [descriptors, Multiset.map_add]
  exact add_add_add_comm _ _ _ _

theorem descriptors_of_mem {items : Multiset Item} {item : Item} (h : item ∈ items) :
    item.srcFd ∈ descriptors items ∧ item.destFd ∈ descriptors items :=
  ⟨Multiset.mem_add.2 (.inl (Multiset.mem_map_of_mem _ h)),
    Multiset.mem_add.2 (.inr (Multiset.mem_map_of_mem _ h))⟩

/-- The descriptors of the pairs `pairs` and of the half pair `half` are all there are, and those in
    `closed` have been closed by the workers. -/
structure Ledger (k : Kernel) (half : List ℕ) (pairs : List Item) (closed : Multiset ℕ) : Prop where
  sum : (k.closes : Multiset ℕ) + (half + descriptors pairs) = Multiset.range k.opens + closed
  nodup : ((half : Multiset ℕ) + descriptors pairs).Nodup
  lt : ∀ fd ∈ (half : Multiset ℕ) + descriptors pairs, fd < k.opens
  closes_lt : ∀ fd ∈ k.closes, fd < k.opens
  table : ∀ fd, (k.table fd).isSome = true ↔ fd < k.opens ∧ fd ∉ k.closes

namespace Ledger

variable {k k' : Kernel} {half : List ℕ} {pairs : List Item} {closed : Multiset ℕ} {fd : ℕ}

/-- No descriptor is opened or closed. -/
theorem of_eq (h : Ledger k half pairs closed) (hopens : k'.opens = k.opens)
    (hcloses : k'.closes = k.closes)
    (htable : ∀ fd, (k'.table fd).isSome = (k.table fd).isSome) : Ledger k' half pairs closed := by
  refine ⟨?_, h.nodup, ?_, ?_, ?_⟩
  · rw [hcloses, hopens, h.sum]
  · rw [hopens]
    exact h.lt
  · rw [hcloses, hopens]
    exact h.closes_lt
  · intro fd
    rw [htable, hopens, hcloses, h.table]

/-- The next descriptor is new. -/
theorem opens_not_mem (h : Ledger k half pairs closed) :
    k.opens ∉ (half : Multiset ℕ) + descriptors pairs := fun hmem => (h.lt _ hmem).ne rfl

theorem table_allocate (h : Ledger k half pairs closed) (file : OpenFile) (fd : ℕ) :
    ((k.allocate file).table fd).isSome = true ↔
      fd < (k.allocate file).opens ∧ fd ∉ (k.allocate file).closes := by
  show (update k.table k.opens (some file) fd).isSome = true ↔ fd < k.opens + 1 ∧ fd ∉ k.closes
  by_cases heq : fd = k.opens
  · subst heq
    have hnew : k.opens ∉ k.closes := fun hmem => (h.closes_lt _ hmem).ne rfl
    simp [hnew]
  · rw [update_of_ne heq, h.table]
    have : fd < k.opens + 1 ↔ fd < k.opens := by omega
    rw [this]

theorem opensSrc (h : Ledger k [] pairs closed) (file : OpenFile) :
    Ledger (k.allocate file) [k.opens] pairs closed := by
  refine ⟨?_, ?_, ?_, fun fd hfd => (h.closes_lt fd hfd).trans (Nat.lt_succ_self _),
    h.table_allocate file⟩
  · have hsum := h.sum
    simp only [Multiset.coe_nil, zero_add] at hsum
    show (k.closes : Multiset ℕ) + ({k.opens} + descriptors pairs) =
      Multiset.range (k.opens + 1) + closed
    rw [Multiset.range_succ, Multiset.cons_add, ← hsum, add_left_comm, Multiset.singleton_add]
  · show (({k.opens} : Multiset ℕ) + descriptors pairs).Nodup
    have hnodup := h.nodup
    have hnew := h.opens_not_mem
    simp only [Multiset.coe_nil, zero_add] at hnodup hnew
    rw [Multiset.singleton_add]
    exact Multiset.nodup_cons.2 ⟨hnew, hnodup⟩
  · intro fd hfd
    show fd < k.opens + 1
    rcases Multiset.mem_add.1 hfd with hfd | hfd
    · rw [List.mem_singleton.1 hfd]
      exact Nat.lt_succ_self _
    · exact (h.lt fd (by simpa using hfd)).trans (Nat.lt_succ_self _)

theorem opensDest (h : Ledger k [fd] pairs closed) (file : OpenFile) (name : Text) :
    Ledger (k.allocate file) [] (pairs ++ [⟨fd, k.opens, name⟩]) closed := by
  -- the pair is the half pair and the new descriptor
  have hmore : ((([] : List ℕ) : Multiset ℕ) +
      descriptors ((pairs ++ [⟨fd, k.opens, name⟩] : List Item) : Multiset Item)) =
        k.opens ::ₘ ((([fd] : List ℕ) : Multiset ℕ) + descriptors pairs) := by
    rw [← Multiset.coe_add, descriptors_add, Multiset.coe_nil, zero_add, Multiset.coe_singleton,
      descriptors_singleton, Multiset.coe_singleton, ← Multiset.singleton_add]
    abel
  refine ⟨?_, ?_, ?_, fun fd hfd => (h.closes_lt fd hfd).trans (Nat.lt_succ_self _),
    h.table_allocate file⟩
  · rw [hmore]
    show (k.closes : Multiset ℕ) + _ = Multiset.range (k.opens + 1) + closed
    rw [Multiset.range_succ, Multiset.cons_add, ← h.sum, Multiset.add_cons]
  · rw [hmore]
    exact Multiset.nodup_cons.2 ⟨h.opens_not_mem, h.nodup⟩
  · rw [hmore]
    intro fd hfd
    show fd < k.opens + 1
    rcases Multiset.mem_cons.1 hfd with rfl | hfd
    · exact Nat.lt_succ_self _
    · exact (h.lt fd hfd).trans (Nat.lt_succ_self _)

theorem table_close (h : Ledger k half pairs closed) (fd fd' : ℕ) :
    ((k.close fd).table fd').isSome = true ↔
      fd' < (k.close fd).opens ∧ fd' ∉ (k.close fd).closes := by
  show (update k.table fd none fd').isSome = true ↔ fd' < k.opens ∧ fd' ∉ k.closes ++ [fd]
  by_cases heq : fd' = fd
  · subst heq
    simp
  · rw [update_of_ne heq, h.table]
    simp [heq]

theorem closesHalf (h : Ledger k [fd] pairs closed) : Ledger (k.close fd) [] pairs closed := by
  have hnodup := h.nodup
  rw [Multiset.coe_singleton, Multiset.singleton_add, Multiset.nodup_cons] at hnodup
  have hmem : fd ∈ (([fd] : List ℕ) : Multiset ℕ) + descriptors pairs := by simp
  refine ⟨?_, ?_, ?_, ?_, h.table_close fd⟩
  · show ((k.closes ++ [fd] : List ℕ) : Multiset ℕ) + _ = _
    rw [← Multiset.coe_add, Multiset.coe_nil, zero_add, add_assoc]
    exact h.sum
  · simpa using hnodup.2
  · intro fd' hfd'
    refine h.lt fd' ?_
    rw [Multiset.mem_add]
    exact .inr (by simpa using hfd')
  · intro fd' hfd'
    rcases List.mem_append.1 hfd' with hfd' | hfd'
    · exact h.closes_lt fd' hfd'
    · rw [List.mem_singleton.1 hfd']
      exact h.lt fd hmem

theorem closesPair (h : Ledger k half pairs closed) (hmem : fd ∈ descriptors pairs) :
    Ledger (k.close fd) half pairs (closed + {fd}) := by
  refine ⟨?_, h.nodup, h.lt, ?_, h.table_close fd⟩
  · show ((k.closes ++ [fd] : List ℕ) : Multiset ℕ) + _ = Multiset.range k.opens + _
    rw [← Multiset.coe_add, Multiset.coe_singleton, add_right_comm, h.sum, add_assoc]
  · intro fd' hfd'
    rcases List.mem_append.1 hfd' with hfd' | hfd'
    · exact h.closes_lt fd' hfd'
    · rw [List.mem_singleton.1 hfd']
      exact h.lt fd (Multiset.mem_add.2 (.inr hmem))

/-- How often a descriptor has been closed is how often the workers have closed it. -/
theorem count_closes (h : Ledger k half pairs closed)
    (hmem : fd ∈ (half : Multiset ℕ) + descriptors pairs) :
    k.closes.count fd = closed.count fd := by
  have hone := Multiset.count_eq_one_of_mem h.nodup hmem
  have hrange := Multiset.count_eq_one_of_mem (Multiset.nodup_range k.opens)
    (Multiset.mem_range.2 (h.lt fd hmem))
  have hcount := congrArg (Multiset.count fd) h.sum
  rw [Multiset.count_add, hone, Multiset.count_add, hrange, Multiset.coe_count] at hcount
  omega

/-- Every descriptor that is open belongs to a pair or a half pair. -/
theorem mem_of_isSome (h : Ledger k half pairs closed) (hopen : (k.table fd).isSome = true) :
    fd ∈ (half : Multiset ℕ) + descriptors pairs := by
  obtain ⟨hlt, hnot⟩ := (h.table fd).1 hopen
  have hmem : fd ∈ Multiset.range k.opens + closed :=
    Multiset.mem_add.2 (.inl (Multiset.mem_range.2 hlt))
  rw [← h.sum, Multiset.mem_add] at hmem
  exact hmem.resolve_left hnot

end Ledger

/-! ## What the calls do to the account -/

section Calls

variable {k k' : Kernel}

theorem isSome_update_table {fd : ℕ} {file file' : OpenFile} (h : k.table fd = some file)
    (fd' : ℕ) :
    (update k.table fd (some file') fd').isSome = (k.table fd').isSome := by
  by_cases heq : fd' = fd
  · subst heq
    simp [h]
  · rw [update_of_ne heq]

/-- A call that opens and closes no descriptor. -/
structure Kernel.Same (k k' : Kernel) : Prop where
  opens : k'.opens = k.opens
  closes : k'.closes = k.closes
  table : ∀ fd, (k'.table fd).isSome = (k.table fd).isSome

theorem Kernel.same_read (k : Kernel) (fd count : ℕ) : k.Same (k.read fd count).2 := by
  unfold Kernel.read
  split
  · exact ⟨rfl, rfl, fun _ => rfl⟩
  · next file hfile => exact ⟨rfl, rfl, isSome_update_table hfile⟩

theorem Kernel.same_write (k : Kernel) (fd : ℕ) (bytes : Text) : k.Same (k.write fd bytes) := by
  unfold Kernel.write
  split
  · exact ⟨rfl, rfl, fun _ => rfl⟩
  · next file hfile =>
      split
      · exact ⟨rfl, rfl, isSome_update_table hfile⟩
      · exact ⟨rfl, rfl, fun _ => rfl⟩

/-- At the start of the loop body nothing is open. -/
theorem half_item_onEntry (f : Frame DirStream) (entry : Dirent) (loops : List (Frame DirStream)) :
    (⟨Walk.onEntry f entry, loops⟩ : Walk DirStream ℕ).half = [] ∧
      (⟨Walk.onEntry f entry, loops⟩ : Walk DirStream ℕ).item = [] := by
  unfold Walk.onEntry
  split
  · dsimp only
    split <;> exact ⟨rfl, rfl⟩
  · exact ⟨rfl, rfl⟩

/-- A call of `copy_directory` keeps the account of the kernel. -/
theorem Ledger.calls {closed : Multiset ℕ} {w w' : Walk DirStream ℕ} {choice : Choice}
    {pushed : List Item} (h : Ledger k w.half (pushed ++ w.item) closed)
    (hcall : CallStep k choice w w' k') : Ledger k' w'.half (pushed ++ w'.item) closed := by
  cases hcall with
  | fails hpc =>
      rcases hpc with ⟨path, dest, rfl⟩ | ⟨dir, path, dest, rfl⟩ | ⟨path, dest, name, rfl⟩ <;>
        exact h
  | opens hfind hes => exact h.of_eq rfl rfl fun _ => rfl
  | makes hgrows hmkdir => exact h.of_eq rfl rfl fun _ => rfl
  | delivers hdir hchoice hentry =>
      rw [(half_item_onEntry _ _ _).1, (half_item_onEntry _ _ _).2]
      exact h
  | ends => exact h
  | opensSrc => exact h.opensSrc _
  | @opensDest srcFd dest name loops fs file hgrows hopen =>
      -- the item of the walk is new, so that what was pushed is all there was
      have hfs : Ledger { k with fs := fs } [srcFd] (pushed ++ []) closed :=
        h.of_eq rfl rfl fun _ => rfl
      rw [List.append_nil] at hfs
      exact hfs.opensDest file (itemName name)
  | failsDest hpc => rcases hpc with rfl | rfl <;> exact h
  | closesSrc => exact h.closesHalf
  | exits | closesDir => exact h

/-- The walk holds one pair or half pair. -/
theorem CallStep.length_half_item {w w' : Walk DirStream ℕ} {choice : Choice}
    (h : CallStep k choice w w' k') (hold : w.half.length + w.item.length ≤ 1) :
    w'.half.length + w'.item.length ≤ 1 := by
  cases h with
  | delivers hdir hchoice hentry =>
      rw [(half_item_onEntry _ _ _).1, (half_item_onEntry _ _ _).2]
      exact Nat.zero_le 1
  | failsDest hpc => rcases hpc with rfl | rfl <;> exact le_refl 1
  | opensSrc | opensDest => exact le_refl 1
  | exits => exact hold
  | fails | opens | makes | ends | closesSrc | closesDir => exact Nat.zero_le 1

end Calls

/-! ## The invariant -/

/-- The descriptors that the workers have closed. -/
def ProgramState.closed (s : ProgramState W) : Multiset ℕ :=
  descriptors (s.copy.closed.map Prod.snd) +
    sumAt (fun _ pc => WorkerPC.srcClosed pc) s.copy.workers

theorem ProgramState.closed_of_quiet {s : ProgramState W} {copy : CopyState W Item}
    (h : Quiet s.copy copy) : ({ s with copy := copy } : ProgramState W).closed = s.closed := by
  unfold ProgramState.closed
  rw [h.closed]
  congr 1
  exact sumAt_congr h.srcClosed

/-- Where the pairs are, and the account of the kernel. -/
structure DescriptorInv (size : ℤ) (s : ProgramState W) : Prop where
  flow : FlowInv (s.copy.pushed ++ s.copy.manager.rest) s.copy
  capacity : s.copy.buffer.capacity = size
  one : s.copy.manager.rest.length ≤ 1
  /-- the walk waits for `buffer_push` to return -/
  busy : s.copy.manager.rest ≠ [] → s.walk.pc = .reading
  walked : s.copy.manager.isPast = true → s.walk.isOver = true
  inWalk : s.walk.half.length + s.walk.item.length ≤ 1
  ledger : Ledger s.kernel s.walk.half s.pairs s.closed

theorem CopyStep.capacity {α : Type*} {v : Version} {s s' : CopyState W α} (h : CopyStep v s s') :
    s'.buffer.capacity = s.buffer.capacity := by
  cases h with
  | managerPushes item rest b woken workers hm hpush hsignal =>
      obtain ⟨-, hb⟩ := Option.ite_none_left_eq_some.1 hpush
      cases hb
      rfl
  | workerPops i item b hi hpop =>
      unfold bufferPop at hpop
      split at hpop
      · cases hpop
      · split at hpop <;> cases hpop
        rfl
  | _ => rfl

theorem CopyStep.rest_suffix {α : Type*} {v : Version} {s s' : CopyState W α}
    (h : CopyStep v s s') : s'.manager.rest <:+ s.manager.rest := by
  cases h with
  | managerSleeps item rest hm => simp [hm, ManagerPC.rest]
  | managerPushes item rest b woken workers hm => simp [hm, ManagerPC.rest]
  | managerSetsDone hm => cases v <;> simp [Version.lastStep, ManagerPC.rest]
  | managerWakes rest hm => simp [hm, ManagerPC.rest]
  | workerPops i item b hi hpop => cases hm : s.manager <;> simp [ManagerPC.wake, ManagerPC.rest]
  | managerArrives | managerLeaves => simp [ManagerPC.rest]
  | _ => exact List.suffix_refl _

theorem CopyStep.isPast {α : Type*} {v : Version} {s s' : CopyState W α} (h : CopyStep v s s')
    (hpast : s'.manager.isPast = true) : s.manager.isPast = true ∨ s.manager = .pushing [] := by
  cases h with
  | managerSetsDone hm => exact .inr hm
  | managerSleeps | managerPushes | managerWakes => simp [ManagerPC.isPast] at hpast
  | managerArrives hm | managerLeaves hm => simp [hm, ManagerPC.isPast]
  | workerPops i item b hi hpop =>
      cases hm : s.manager <;> simp_all [ManagerPC.wake, ManagerPC.isPast]
  | _ => exact .inl hpast

/-- The manager of `copyMachine` gets one more item to push. -/
theorem FlowInv.hands {α : Type*} {items : List α} {s : CopyState W α} (h : FlowInv items s)
    (hidle : s.manager = .pushing []) (item : α) :
    FlowInv (items ++ [item]) { s with manager := .pushing [item] } := by
  have hrest := h.rest
  rw [hidle, ManagerPC.rest, List.append_nil] at hrest
  refine ⟨h.stores, h.flow, ?_, ?_, h.ended, h.held⟩
  · rw [← hrest]
    rfl
  · rw [h.done_eq, hidle]
    rfl

/-- What a worker holds was pushed. -/
theorem FlowInv.mem_pushed {α : Type*} {items : List α} {s : CopyState W α} (h : FlowInv items s)
    {i : Fin W} {item : α} (hitem : item ∈ (s.workers i).held) : item ∈ s.pushed := by
  have hheld : (i, item) ∈ sumAt heldBy s.workers := by
    refine Multiset.mem_sum.2 ⟨i, Finset.mem_univ i, ?_⟩
    exact Multiset.mem_map.2 ⟨item, hitem, rfl⟩
  have hpopped : (i, item) ∈ (s.popped : Multiset (Fin W × α)) := by
    rw [h.held]
    exact Multiset.mem_add.2 (.inr hheld)
  rw [← h.flow]
  exact List.mem_append_left _ (List.mem_map.2 ⟨_, hpopped, rfl⟩)

section Step

variable {size : ℤ} {s : ProgramState W}

theorem DescriptorInv.mem_descriptors (h : DescriptorInv size s) {i : Fin W} {item : Item}
    (hitem : item ∈ (s.copy.workers i).held) :
    item.srcFd ∈ descriptors s.pairs ∧ item.destFd ∈ descriptors s.pairs :=
  descriptors_of_mem (List.mem_append_left _ (h.flow.mem_pushed hitem))

theorem closed_of_closesSrc {i : Fin W} {item : Item}
    (hi : s.copy.workers i = .closingSrc item) (kernel : Kernel) :
    ({ s with copy := { s.copy with workers := update s.copy.workers i (.closingDest item) }
              kernel := kernel } : ProgramState W).closed = s.closed + {item.srcFd} := by
  have hupdate := sumAt_update (fun _ pc => WorkerPC.srcClosed pc) s.copy.workers i
    (.closingDest item)
  have hnone : (WorkerPC.closingSrc item).srcClosed = 0 := rfl
  have hitem : (WorkerPC.closingDest item).srcClosed = {item.srcFd} := rfl
  rw [hi, hnone, hitem, add_zero] at hupdate
  simp only [ProgramState.closed, hupdate, add_assoc]

theorem closed_of_closesDest {i : Fin W} {item : Item}
    (hi : s.copy.workers i = .closingDest item) (kernel : Kernel) :
    ({ s with copy := { s.copy with workers := update s.copy.workers i .popping
                                    closed := s.copy.closed ++ [(i, item)] }
              kernel := kernel } : ProgramState W).closed = s.closed + {item.destFd} := by
  have hupdate := sumAt_update (fun _ pc => WorkerPC.srcClosed pc) s.copy.workers i .popping
  have hnone : (WorkerPC.popping : WorkerPC Item).srcClosed = 0 := rfl
  have hitem : (WorkerPC.closingDest item).srcClosed = {item.srcFd} := rfl
  rw [hi, hnone, hitem, add_zero] at hupdate
  simp only [ProgramState.closed, ← hupdate, List.map_append, List.map_cons, List.map_nil,
    ← Multiset.coe_add, descriptors_add, Multiset.coe_singleton, descriptors_singleton]
  abel

theorem DescriptorInv.step {v : Version} {s' : ProgramState W} {a : ProgramMove W}
    (h : DescriptorInv size s) (hstep : ProgramStep v s a s') : DescriptorInv size s' := by
  have hledger := h.ledger
  cases hstep with
  | calls c resume choice reply kernel hidle hnext hanswer =>
      have hcall := callStep_of_answer hnext hanswer
      have hrest : s.copy.manager.rest = [] := by rw [hidle]; rfl
      refine ⟨h.flow, h.capacity, h.one, fun hne => absurd hrest hne, ?_,
        hcall.length_half_item h.inWalk, ?_⟩
      · intro hpast
        rw [hidle] at hpast
        cases hpast
      · simp only [ProgramState.pairs, ProgramState.inManager, hrest, List.nil_append]
          at hledger ⊢
        exact hledger.calls hcall
  | hands item resume choice hidle hnext =>
      obtain ⟨hpc, hresume⟩ := next_eq_push hnext
      have hflow := h.flow
      rw [hidle] at hflow
      have hhands := hflow.hands hidle item
      rw [ManagerPC.rest, List.append_nil] at hhands
      refine ⟨hhands, h.capacity, le_refl 1, fun _ => by rw [hresume], ?_, ?_, ?_⟩
      · intro hpast
        cases hpast
      · show (resume ()).half.length + (resume ()).item.length ≤ 1
        rw [hresume]
        exact Nat.zero_le 1
      · simp only [ProgramState.pairs, ProgramState.inManager, hidle, ManagerPC.rest, Walk.item,
          Walk.half, hpc, hresume] at hledger ⊢
        exact hledger
  | destroys a left pc hpc hpc' =>
      -- the manager has the same descriptors as before, and nothing in `buffer_push`
      have hold : s.walk.half = left ∧ s.walk.item = [] ∧ s.walk.pc ≠ .reading ∧
          s.walk.isOver = false := by
        generalize s.walk = w at hpc
        obtain ⟨pc₀, loops⟩ := w
        rcases hpc with rfl | rfl <;> exact ⟨rfl, rfl, by simp, rfl⟩
      have hnew : (⟨pc, s.walk.loops⟩ : Walk DirStream ℕ).half = left ∧
          (⟨pc, s.walk.loops⟩ : Walk DirStream ℕ).item = [] := by
        rcases hpc' with rfl | rfl <;> exact ⟨rfl, rfl⟩
      have hinWalk := h.inWalk
      refine ⟨h.flow, h.capacity, h.one, fun hne => absurd (h.busy hne) hold.2.2.1, ?_, ?_, ?_⟩
      · intro hpast
        have := h.walked hpast
        rw [hold.2.2.2] at this
        cases this
      · rw [hold.1, hold.2.1] at hinWalk
        rwa [hnew.1, hnew.2]
      · simp only [ProgramState.pairs, ProgramState.inManager, hold.1, hold.2.1] at hledger
        simp only [ProgramState.pairs, ProgramState.inManager, hnew.1, hnew.2]
        exact hledger
  | turns a copy hcopy hquiet hover =>
      have hflow := h.flow.step hcopy
      have hrest := hflow.rest
      refine ⟨hrest ▸ hflow, hcopy.capacity.trans h.capacity,
        hcopy.rest_suffix.length_le.trans h.one, ?_, ?_, h.inWalk, ?_⟩
      · intro hne
        -- the manager only ever gets rid of what it has to push
        refine h.busy ?_
        intro hnil
        have hsuffix := hcopy.rest_suffix
        rw [hnil] at hsuffix
        exact hne (List.suffix_nil.1 hsuffix)
      · intro hpast
        rcases hcopy.isPast hpast with hpast' | hm
        · exact h.walked hpast'
        · refine hover hm ?_
          intro hm'
          rw [hm'] at hpast
          cases hpast
      · have hpairs : ({ s with copy := copy } : ProgramState W).pairs = s.pairs := by
          simp only [ProgramState.pairs, ProgramState.inManager, ← List.append_assoc, hrest]
        rw [hpairs, ProgramState.closed_of_quiet hquiet]
        exact hledger
  | reads i count n item hi =>
      have hsame := Kernel.same_read s.kernel item.srcFd n
      exact ⟨h.flow, h.capacity, h.one, h.busy, h.walked, h.inWalk,
        hledger.of_eq hsame.opens hsame.closes hsame.table⟩
  | writes i count item bytes hi =>
      have hsame := Kernel.same_write s.kernel item.destFd bytes
      exact ⟨h.flow, h.capacity, h.one, h.busy, h.walked, h.inWalk,
        hledger.of_eq hsame.opens hsame.closes hsame.table⟩
  | closesSrc i count item hi =>
      have hmem := h.mem_descriptors (i := i) (by rw [hi]; exact Multiset.mem_singleton_self item)
      refine ⟨h.flow.step (.workerClosesSrc (v := v) i item hi), h.capacity, h.one, h.busy,
        h.walked, h.inWalk, ?_⟩
      rw [closed_of_closesSrc hi]
      exact hledger.closesPair hmem.1
  | closesDest i count item hi =>
      have hmem := h.mem_descriptors (i := i) (by rw [hi]; exact Multiset.mem_singleton_self item)
      refine ⟨h.flow.step (.workerClosesDest (v := v) i item hi), h.capacity, h.one, h.busy,
        h.walked, h.inWalk, ?_⟩
      rw [closed_of_closesDest hi]
      exact hledger.closesPair hmem.2

end Step

theorem descriptorInv_reachable {v : Version} {size : ℤ} (hsize : 1 ≤ size) {stack : ℕ}
    {fs : FileSystem} {srcDir destDir : Text} {s : ProgramState W}
    (h : (copyProgram v W size stack fs srcDir destDir).Reachable s) : DescriptorInv size s := by
  refine h.invariant ?_ fun _ _ _ _ hi hn => hi.step (programStep_of_next hn)
  rintro s ⟨memory, rfl⟩
  refine ⟨flowInv_init hsize [] memory, rfl, Nat.zero_le _, fun hne => absurd rfl hne, nofun,
    Nat.zero_le 1, ?_⟩
  have hnone : (programStart W memory size fs srcDir destDir).closed = 0 := by
    simp [ProgramState.closed, programStart, sumAt, WorkerPC.srcClosed]
  rw [hnone]
  exact ⟨rfl, Multiset.nodup_zero, fun fd hfd => absurd hfd (Multiset.notMem_zero fd),
    fun fd hfd => absurd hfd List.not_mem_nil, fun fd => by simp [programStart]⟩

/-! ## Every open pair is in one place -/

/-- The pairs at all places. -/
def ProgramState.placed (s : ProgramState W) : Multiset Item :=
  s.holding .manager + s.holding .buffer + sumAt (fun _ pc => WorkerPC.held pc) s.copy.workers

theorem map_snd_sumAt_heldBy (workers : Fin W → WorkerPC Item) :
    (sumAt heldBy workers).map Prod.snd = sumAt (fun _ pc => WorkerPC.held pc) workers := by
  have hmap := map_sum (Multiset.mapAddMonoidHom (Prod.snd : Fin W × Item → Item))
    (fun i => heldBy i (workers i)) Finset.univ
  refine hmap.trans (Finset.sum_congr rfl ?_)
  intro i _
  show ((workers i).held.map (Prod.mk i)).map Prod.snd = (workers i).held
  rw [Multiset.map_map]
  exact Multiset.map_id' _

section Results

variable {size : ℤ} {s : ProgramState W}

/-- A pair is with a worker that has finished with it, or at a place. -/
theorem DescriptorInv.pairs_eq (h : DescriptorInv size s) :
    (s.pairs : Multiset Item) = (s.copy.closed.map Prod.snd : List Item) + s.placed := by
  have hpopped : (s.copy.popped.map Prod.snd : List Item) =
      (s.copy.closed.map Prod.snd : List Item) +
        sumAt (fun _ pc => WorkerPC.held pc) s.copy.workers := by
    rw [← map_snd_sumAt_heldBy, ← Multiset.map_coe, h.flow.held, Multiset.map_add,
      Multiset.map_coe]
  have hpushed : (s.copy.pushed : Multiset Item) =
      (s.copy.popped.map Prod.snd : List Item) + (s.copy.buffer.stored : Multiset Item) := by
    rw [← h.flow.flow, Multiset.coe_add]
  rw [ProgramState.pairs, ← Multiset.coe_add, hpushed, hpopped, ProgramState.placed]
  simp only [ProgramState.holding]
  abel

theorem DescriptorInv.nodup_descriptors (h : DescriptorInv size s) :
    (descriptors s.pairs).Nodup :=
  (Multiset.nodup_add.1 h.ledger.nodup).2.1

theorem DescriptorInv.nodup_pairs (h : DescriptorInv size s) : s.pairs.Nodup :=
  Multiset.coe_nodup.1 (Multiset.Nodup.of_map _ (Multiset.nodup_add.1 h.nodup_descriptors).1)

theorem DescriptorInv.count_closes (h : DescriptorInv size s) {fd : ℕ}
    (hmem : fd ∈ descriptors s.pairs) : s.kernel.closes.count fd = s.closed.count fd :=
  h.ledger.count_closes (Multiset.mem_add.2 (.inr hmem))

theorem DescriptorInv.isSome_iff (h : DescriptorInv size s) {fd : ℕ}
    (hmem : fd ∈ descriptors s.pairs) :
    (s.kernel.table fd).isSome = true ↔ fd ∉ s.closed := by
  have hlt := h.ledger.lt fd (Multiset.mem_add.2 (.inr hmem))
  rw [h.ledger.table, and_iff_right hlt, ← List.count_eq_zero, h.count_closes hmem,
    Multiset.count_eq_zero]

/-- The workers have closed both descriptors of a pair that they have finished with. -/
theorem DescriptorInv.not_isOpen (h : DescriptorInv size s) {item : Item}
    (hitem : item ∈ (s.copy.closed.map Prod.snd : List Item)) : s.isOpen item = false := by
  have hmem : item ∈ (s.pairs : Multiset Item) := by
    rw [h.pairs_eq]
    exact Multiset.mem_add.2 (.inl hitem)
  have hclosed := descriptors_of_mem (Multiset.mem_coe.2 hitem)
  have hsrc := (h.isSome_iff (descriptors_of_mem hmem).1).not.2
    (not_not.2 (Multiset.mem_add.2 (.inl hclosed.1)))
  have hdest := (h.isSome_iff (descriptors_of_mem hmem).2).not.2
    (not_not.2 (Multiset.mem_add.2 (.inl hclosed.2)))
  rw [ProgramState.isOpen, Bool.or_eq_false_iff]
  exact ⟨Bool.eq_false_iff.2 hsrc, Bool.eq_false_iff.2 hdest⟩

/-- The destination of a pair at a place is open. -/
theorem DescriptorInv.isOpen_of_placed (h : DescriptorInv size s) {item : Item}
    (hitem : item ∈ s.placed) : s.isOpen item = true := by
  have hmem : item ∈ (s.pairs : Multiset Item) := by
    rw [h.pairs_eq]
    exact Multiset.mem_add.2 (.inr hitem)
  have hnodup := h.nodup_descriptors
  have hnot : item.destFd ∉ s.closed := by
    intro hclosed
    rcases Multiset.mem_add.1 hclosed with hclosed | hclosed
    · rw [h.pairs_eq, descriptors_add] at hnodup
      exact Multiset.disjoint_left.1 (Multiset.nodup_add.1 hnodup).2.2 hclosed
        (descriptors_of_mem hitem).2
    · -- what a worker has closed of the pair in its hands is a source
      obtain ⟨i, -, hi⟩ := Multiset.mem_sum.1 hclosed
      have hsrc : item.destFd ∈ (s.pairs : Multiset Item).map BufferElement.srcFd := by
        cases hpc : s.copy.workers i <;> rw [hpc] at hi <;>
          simp only [WorkerPC.srcClosed, Multiset.mem_singleton, Multiset.notMem_zero] at hi
        next other =>
          rw [hi]
          have hother : other ∈ (s.copy.workers i).held := by
            rw [hpc]
            exact Multiset.mem_singleton_self other
          exact Multiset.mem_map_of_mem _ (List.mem_append_left _ (h.flow.mem_pushed hother))
      exact Multiset.disjoint_left.1 (Multiset.nodup_add.1 hnodup).2.2 hsrc
        (Multiset.mem_map_of_mem _ hmem)
  rw [ProgramState.isOpen, (h.isSome_iff (descriptors_of_mem hmem).2).2 hnot, Bool.or_true]

theorem DescriptorInv.openPairs_eq (h : DescriptorInv size s) :
    (s.openPairs : Multiset Item) = s.placed := by
  have hfilter : (s.openPairs : Multiset Item) =
      Multiset.filter (fun item => s.isOpen item = true) s.pairs := by
    simp [ProgramState.openPairs]
  rw [hfilter, h.pairs_eq, Multiset.filter_add,
    Multiset.filter_eq_nil.2 fun item hitem => by simp [h.not_isOpen hitem], zero_add,
    Multiset.filter_eq_self.2 fun item hitem => h.isOpen_of_placed hitem]

theorem DescriptorInv.card_placed (h : DescriptorInv size s) :
    ((Multiset.card s.placed + s.walk.half.length : ℕ) : ℤ) ≤ size + W + 1 := by
  have hstored : (s.copy.buffer.stored.length : ℤ) ≤ size := by
    rw [← h.flow.stores.count_eq, ← h.capacity]
    exact h.flow.stores.count_le
  have hworkers : Multiset.card (sumAt (fun _ pc => WorkerPC.held pc) s.copy.workers) ≤ W := by
    have hone : ∀ i ∈ Finset.univ, Multiset.card (s.copy.workers i).held ≤ 1 := by
      intro i _
      cases s.copy.workers i <;> simp [WorkerPC.held]
    have hsum := Finset.sum_le_card_nsmul _ _ 1 hone
    rw [sumAt, Multiset.card_sum]
    simpa using hsum
  have hmanager : s.inManager.length + s.walk.half.length ≤ 1 := by
    rw [ProgramState.inManager, List.length_append]
    -- the pair is in `buffer_push`, and the walk waits, or it is still in the walk
    by_cases hrest : s.copy.manager.rest = []
    · have := h.inWalk
      rw [hrest, List.length_nil]
      omega
    · have hpc := h.busy hrest
      have hone := h.one
      have hhalf : s.walk.half = [] := by rw [Walk.half, hpc]
      have hitem : s.walk.item = [] := by rw [Walk.item, hpc]
      rw [hhalf, hitem, List.length_nil]
      omega
  rw [ProgramState.placed, Multiset.card_add, Multiset.card_add]
  show ((s.inManager.length + s.copy.buffer.stored.length + _ + _ : ℕ) : ℤ) ≤ _
  omega

theorem DescriptorInv.existsUnique_place (h : DescriptorInv size s) {item : Item}
    (hitem : item ∈ s.placed) : ∃! place, item ∈ s.holding place := by
  have hnodup : s.placed.Nodup := by
    have hpairs := Multiset.coe_nodup.2 h.nodup_pairs
    rw [h.pairs_eq] at hpairs
    exact (Multiset.nodup_add.1 hpairs).2.1
  obtain ⟨hfirst, hworkers, hdisjoint⟩ := Multiset.nodup_add.1 hnodup
  obtain ⟨-, -, hmanager⟩ := Multiset.nodup_add.1 hfirst
  have hmem : ∀ i, item ∈ (s.copy.workers i).held →
      item ∈ sumAt (fun _ pc => WorkerPC.held pc) s.copy.workers := fun i hi =>
    Multiset.mem_sum.2 ⟨i, Finset.mem_univ i, hi⟩
  have hnotWorker : ∀ i, item ∈ s.holding .manager + s.holding .buffer →
      item ∉ (s.copy.workers i).held := fun i hi hi' =>
    Multiset.disjoint_left.1 hdisjoint hi (hmem i hi')
  rcases Multiset.mem_add.1 hitem with hin | hin
  · rcases Multiset.mem_add.1 hin with hin' | hin'
    · refine ⟨.manager, hin', ?_⟩
      rintro (_ | _ | i) hplace
      · rfl
      · exact absurd hplace (Multiset.disjoint_left.1 hmanager hin')
      · exact absurd hplace (hnotWorker i hin)
    · refine ⟨.buffer, hin', ?_⟩
      rintro (_ | _ | i) hplace
      · exact absurd hin' (Multiset.disjoint_left.1 hmanager hplace)
      · rfl
      · exact absurd hplace (hnotWorker i hin)
  · obtain ⟨i, -, hi⟩ := Multiset.mem_sum.1 hin
    refine ⟨.worker i, hi, ?_⟩
    rintro (_ | _ | j) hplace
    · exact absurd hi (hnotWorker i (Multiset.mem_add.2 (.inl hplace)))
    · exact absurd hi (hnotWorker i (Multiset.mem_add.2 (.inr hplace)))
    · rw [eq_of_nodup_sumAt hworkers hi hplace]

/-- What the workers have closed are descriptors of pairs, each once. -/
theorem DescriptorInv.closed_le (h : DescriptorInv size s) : s.closed ≤ descriptors s.pairs := by
  have hsrc : sumAt (fun _ pc => WorkerPC.srcClosed pc) s.copy.workers ≤
      (sumAt (fun _ pc => WorkerPC.held pc) s.copy.workers).map BufferElement.srcFd := by
    have hmap := map_sum (Multiset.mapAddMonoidHom (BufferElement.srcFd : Item → ℕ))
      (fun i => (s.copy.workers i).held) Finset.univ
    refine le_of_le_of_eq (Finset.sum_le_sum ?_) hmap.symm
    intro i _
    cases s.copy.workers i <;> simp [WorkerPC.srcClosed, WorkerPC.held]
  have hplaced : sumAt (fun _ pc => WorkerPC.srcClosed pc) s.copy.workers ≤
      descriptors s.placed := by
    rw [ProgramState.placed, descriptors_add]
    exact (hsrc.trans (Multiset.le_add_right _ _)).trans (Multiset.le_add_left _ _)
  rw [ProgramState.closed, h.pairs_eq, descriptors_add]
  exact add_le_add_right hplaced _

theorem DescriptorInv.count_closes_le (h : DescriptorInv size s) {fd : ℕ}
    (hmem : fd ∈ descriptors s.pairs) : s.kernel.closes.count fd ≤ 1 := by
  rw [h.count_closes hmem]
  exact (Multiset.count_le_of_le fd h.closed_le).trans
    (Multiset.nodup_iff_count_le_one.1 h.nodup_descriptors fd)

theorem item_of_isOver {w : Walk DirStream ℕ} (h : w.isOver = true) : w.item = [] := by
  obtain ⟨pc, loops⟩ := w
  cases pc <;> simp [Walk.isOver, Walk.item] at h ⊢

/-- Where all items are copied, both descriptors of every item have been closed once. -/
theorem DescriptorInv.closed_of_allCopied (h : DescriptorInv size s) {items : List Item}
    (hall : AllCopied items s.copy) {item : Item} (hitem : item ∈ items) :
    s.kernel.closes.count item.srcFd = 1 ∧ s.kernel.closes.count item.destFd = 1 ∧
      s.isOpen item = false := by
  have hdone : item ∈ (s.copy.closed.map Prod.snd : List Item) := by
    rw [(hall.2.map Prod.snd).mem_iff, hall.1]
    exact hitem
  have hpairs : item ∈ (s.pairs : Multiset Item) := by
    rw [h.pairs_eq]
    exact Multiset.mem_add.2 (.inl hdone)
  have hone : ∀ fd ∈ descriptors (s.copy.closed.map Prod.snd), fd ∈ descriptors s.pairs →
      s.kernel.closes.count fd = 1 := by
    intro fd hfd hmem
    have hclosed : fd ∈ s.closed := Multiset.mem_add.2 (.inl hfd)
    rw [h.count_closes hmem]
    exact Multiset.count_eq_one_of_mem (Multiset.nodup_of_le h.closed_le h.nodup_descriptors)
      hclosed
  exact ⟨hone _ (descriptors_of_mem hdone).1 (descriptors_of_mem hpairs).1,
    hone _ (descriptors_of_mem hdone).2 (descriptors_of_mem hpairs).2, h.not_isOpen hdone⟩

/-- When all threads have finished, every pair is copied. -/
theorem DescriptorInv.closed_of_finished (h : DescriptorInv size s) (hW : 1 ≤ W)
    (hmanager : s.copy.manager = .finished) (hworkers : ∀ i, s.copy.workers i = .finished)
    {item : Item} (hitem : item ∈ s.pairs) :
    s.kernel.closes.count item.srcFd = 1 ∧ s.kernel.closes.count item.destFd = 1 ∧
      s.isOpen item = false := by
  have hall := h.flow.allCopied hW fun i => by rw [hworkers i]; rfl
  refine h.closed_of_allCopied hall ?_
  rw [ProgramState.pairs, ProgramState.inManager,
    item_of_isOver (h.walked (by rw [hmanager]; rfl)), List.append_nil] at hitem
  exact hitem

end Results

/-- **The number of open pairs is bounded.** In every reachable state at most `size + W + 1` pairs
    are open, the half pair of the manager counted; each is at one place; nothing else is open; and
    no descriptor of a pair is closed twice. When all threads have finished, and there is a worker
    at all, every descriptor of a pair has been closed once. A run ends where a thread uses the
    buffer that the manager has destroyed. -/
theorem openPairs_bounded {v : Version} {size : ℤ} (hsize : 1 ≤ size) {stack : ℕ}
    {fs : FileSystem} {srcDir destDir : Text} {s : ProgramState W}
    (h : (copyProgram v W size stack fs srcDir destDir).Reachable s) :
    s.pairs.Nodup ∧ ((s.openPairs.length + s.walk.half.length : ℕ) : ℤ) ≤ size + W + 1 ∧
      (∀ item ∈ s.openPairs, ∃! place, item ∈ s.holding place) ∧
      (∀ fd, (s.kernel.table fd).isSome = true → fd ∈ s.walk.half ∨ fd ∈ descriptors s.openPairs) ∧
      (∀ item ∈ s.pairs, s.kernel.closes.count item.srcFd ≤ 1 ∧
        s.kernel.closes.count item.destFd ≤ 1) ∧
      (1 ≤ W → s.copy.manager = .finished → (∀ i, s.copy.workers i = .finished) →
        ∀ item ∈ s.pairs, s.kernel.closes.count item.srcFd = 1 ∧
          s.kernel.closes.count item.destFd = 1) := by
  have hinv := descriptorInv_reachable hsize h
  have hopen := hinv.openPairs_eq
  refine ⟨hinv.nodup_pairs, ?_, ?_, ?_, ?_, ?_⟩
  · have hcard := hinv.card_placed
    rw [← hopen] at hcard
    exact hcard
  · intro item hitem
    refine hinv.existsUnique_place ?_
    rw [← hopen]
    exact hitem
  · intro fd hfd
    refine (Multiset.mem_add.1 (hinv.ledger.mem_of_isSome hfd)).imp id ?_
    intro hmem
    have hitem : ∃ item ∈ s.pairs, s.isOpen item = true ∧
        (item.srcFd = fd ∨ item.destFd = fd) := by
      rcases Multiset.mem_add.1 hmem with hmem | hmem
      · obtain ⟨item, hitem, rfl⟩ := Multiset.mem_map.1 hmem
        exact ⟨item, hitem, by rw [ProgramState.isOpen, hfd, Bool.true_or], .inl rfl⟩
      · obtain ⟨item, hitem, rfl⟩ := Multiset.mem_map.1 hmem
        exact ⟨item, hitem, by rw [ProgramState.isOpen, hfd, Bool.or_true], .inr rfl⟩
    obtain ⟨item, hitem, hisOpen, hfd⟩ := hitem
    have hin : item ∈ (s.openPairs : Multiset Item) := List.mem_filter.2 ⟨hitem, hisOpen⟩
    have hboth := descriptors_of_mem hin
    rcases hfd with rfl | rfl
    · exact hboth.1
    · exact hboth.2
  · intro item hitem
    have hmem := descriptors_of_mem (Multiset.mem_coe.2 hitem)
    exact ⟨hinv.count_closes_le hmem.1, hinv.count_closes_le hmem.2⟩
  · intro hW hmanager hworkers item hitem
    obtain ⟨hsrc, hdest, -⟩ := hinv.closed_of_finished hW hmanager hworkers hitem
    exact ⟨hsrc, hdest⟩

/-- A run of HW5 with one worker to its end: `s/f` is copied to `t/f`. -/
theorem openPairs_bounded_copied : ∃ s : ProgramState 1,
    (copyProgram .hw5 1 1 2 smallFs ['s'] ['t']).Reachable s ∧ s.pairs = [⟨0, 1, ['f']⟩] ∧
      s.kernel.closes.count 0 = 1 ∧ s.kernel.closes.count 1 = 1 ∧
      s.kernel.fs.content 4 = some ['x'] := by
  obtain ⟨s, hs, hmanager, hworker, hpairs, hcontent⟩ : ∃ s : ProgramState 1,
      (copyProgram .hw5 1 1 2 smallFs ['s'] ['t']).exec
        (programStart 1 (fun _ => ⟨0, 0, []⟩) 1 smallFs ['s'] ['t'])
        [.walk .succeeds, .walk .succeeds, .walk (.entry ['.']), .walk (.entry ['f']),
          .walk .succeeds, .walk .succeeds, .walk .succeeds, .manager none, .worker 0 0,
          .worker 0 1, .worker 0 1, .worker 0 1, .worker 0 0, .worker 0 0,
          .walk (.entry ['.', '.']), .walk .succeeds, .walk .succeeds, .manager none, .worker 0 0,
          .worker 0 0, .worker 0 0, .manager none, .manager none, .worker 0 0] = some s ∧
      s.copy.manager = .finished ∧ s.copy.workers 0 = .finished ∧ s.pairs = [⟨0, 1, ['f']⟩] ∧
      s.kernel.fs.content 4 = some ['x'] := ⟨_, rfl, rfl, rfl, rfl, rfl⟩
  have hreach : (copyProgram .hw5 1 1 2 smallFs ['s'] ['t']).Reachable s :=
    Machine.Reachable.exec _ (.init ⟨_, rfl⟩) hs
  have hall : ∀ i, s.copy.workers i = .finished := fun i => by rwa [Subsingleton.elim i 0]
  have hclosed := (openPairs_bounded (le_refl 1) hreach).2.2.2.2.2 (le_refl 1) hmanager hall
    ⟨0, 1, ['f']⟩ (by rw [hpairs]; exact List.mem_singleton_self _)
  exact ⟨s, hreach, hpairs, hclosed.1, hclosed.2, hcontent⟩

/-- Without a worker the pairs that fit into the buffer are never closed. -/
theorem openPairs_left_open : ¬ ∀ (v : Version) (W : ℕ) (size : ℤ) (stack : ℕ) (fs : FileSystem)
    (srcDir destDir : Text) (s : ProgramState W), 1 ≤ size →
    (copyProgram v W size stack fs srcDir destDir).Reachable s → s.copy.manager = .finished →
    (∀ i, s.copy.workers i = .finished) → ∀ item ∈ s.pairs,
      s.kernel.closes.count item.srcFd = 1 ∧ s.kernel.closes.count item.destFd = 1 := by
  intro hall
  obtain ⟨s, hs, hmanager, hpairs, hcloses⟩ : ∃ s : ProgramState 0,
      (copyProgram .hw5 0 1 2 smallFs ['s'] ['t']).exec
        (programStart 0 (fun _ => ⟨0, 0, []⟩) 1 smallFs ['s'] ['t'])
        [.walk .succeeds, .walk .succeeds, .walk (.entry ['.']), .walk (.entry ['f']),
          .walk .succeeds, .walk .succeeds, .walk .succeeds, .manager none,
          .walk (.entry ['.', '.']), .walk .succeeds, .walk .succeeds, .manager none,
          .manager none, .manager none] = some s ∧
      s.copy.manager = .finished ∧ s.pairs = [⟨0, 1, ['f']⟩] ∧ s.kernel.closes = [] :=
    ⟨_, rfl, rfl, rfl, rfl⟩
  have hclosed := hall .hw5 0 1 2 smallFs ['s'] ['t'] s (le_refl 1)
    (Machine.Reachable.exec _ (.init ⟨_, rfl⟩) hs) hmanager (fun i => i.elim0) ⟨0, 1, ['f']⟩
    (by rw [hpairs]; exact List.mem_singleton_self _)
  rw [hcloses] at hclosed
  exact absurd hclosed.1 (by decide)

end SystemProgramming.Copy
