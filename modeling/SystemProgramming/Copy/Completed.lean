import SystemProgramming.Copy.PipelineSafety
import SystemProgramming.Lib.Bytes

set_option autoImplicit false

/-! # What `Copying completed` says about the files

The copy loop of a worker reads at most 1024 bytes at a time and writes what it has read. It tests
what `read` answers, and nothing else: a failed `read` ends the loop as the end of the file does,
and the answer of `write` is dropped. `main` prints `Copying completed` behind its last join,
whatever the workers have met.

A `FileCopy` is a source with the answers that the loop gets to its calls. The loop touches nothing
that another thread sees, so that `copyMachine` can run over the positions of the files in a list,
and `destination` can tell from its state what has been written. -/

namespace SystemProgramming.Copy

variable {W : ℕ}

/-! ## The copy loop -/

/-- The answers in one turn of the copy loop: how many bytes `read` delivers, and how many of them
    `write` takes, `none` for −1. -/
structure LoopTurn where
  bytesRead : ℕ
  written : Option ℕ

/-- The number of bytes that reach the destination in a turn. -/
def LoopTurn.taken (t : LoopTurn) : ℕ := t.written.getD 0

/-- The copy loop of `worker_function`, with what is left of the source and what the destination
    holds. The read that ends the loop answers 0 at the end of the file (`atEnd`) or −1. `none`:
    these are not the answers of a kernel. -/
def copyLoop (atEnd : Bool) : List Byte → List Byte → List LoopTurn → Option (List Byte)
  | left, dest, [] => if atEnd && !left.isEmpty then none else some dest
  | left, dest, t :: turns =>
      let readBuffer := left.take t.bytesRead
      if 1 ≤ t.bytesRead ∧ t.bytesRead ≤ min 1024 left.length ∧ t.taken ≤ t.bytesRead then
        copyLoop atEnd (left.drop t.bytesRead) (dest ++ readBuffer.take t.taken) turns
      else none

/-- The number of bytes that the reads deliver. -/
def delivered (turns : List LoopTurn) : ℕ := (turns.map LoopTurn.bytesRead).sum

theorem delivered_cons (t : LoopTurn) (turns : List LoopTurn) :
    delivered (t :: turns) = t.bytesRead + delivered turns := List.sum_cons

/-- Every `write` takes all that it is given. -/
def TakesAll (turns : List LoopTurn) : Prop := ∀ t ∈ turns, t.written = some t.bytesRead

theorem takesAll_cons {t : LoopTurn} {turns : List LoopTurn} :
    TakesAll (t :: turns) ↔ t.written = some t.bytesRead ∧ TakesAll turns :=
  List.forall_mem_cons

/-- What one turn does. -/
theorem copyLoop_cons {atEnd : Bool} {left dest out : List Byte} {t : LoopTurn}
    {turns : List LoopTurn} (h : copyLoop atEnd left dest (t :: turns) = some out) :
    (1 ≤ t.bytesRead ∧ t.bytesRead ≤ left.length ∧ t.taken ≤ t.bytesRead) ∧
      copyLoop atEnd (left.drop t.bytesRead)
        (dest ++ (left.take t.bytesRead).take t.taken) turns = some out := by
  obtain ⟨⟨hpos, hle, htaken⟩, h⟩ := Option.ite_none_right_eq_some.1 h
  exact ⟨⟨hpos, hle.trans (min_le_right _ _), htaken⟩, h⟩

theorem copyLoop_nil {atEnd : Bool} {left dest out : List Byte}
    (h : copyLoop atEnd left dest [] = some out) : out = dest := by
  obtain ⟨-, h⟩ := Option.ite_none_left_eq_some.1 h
  exact (Option.some.inj h).symm

/-- When every `write` takes all, the destination holds what the reads have delivered. -/
theorem copyLoop_of_takesAll {atEnd : Bool} {turns : List LoopTurn} (hall : TakesAll turns)
    {left dest out : List Byte} (h : copyLoop atEnd left dest turns = some out) :
    out = dest ++ left.take (delivered turns) := by
  induction turns generalizing left dest with
  | nil => simp [copyLoop_nil h, delivered]
  | cons t turns ih =>
      obtain ⟨hwritten, hall⟩ := takesAll_cons.1 hall
      obtain ⟨-, h⟩ := copyLoop_cons h
      have htaken : t.taken = t.bytesRead := by rw [LoopTurn.taken, hwritten, Option.getD_some]
      rw [ih hall h, htaken, List.take_take, min_self, List.append_assoc, delivered_cons,
        List.take_add]

/-- The destination never gets longer than what was there to copy, and it is as long only if every
    byte was read and every `write` took all. -/
theorem length_copyLoop {atEnd : Bool} {turns : List LoopTurn} {left dest out : List Byte}
    (h : copyLoop atEnd left dest turns = some out) :
    out.length ≤ dest.length + left.length ∧
      (out.length = dest.length + left.length → TakesAll turns ∧ delivered turns = left.length) := by
  induction turns generalizing left dest with
  | nil =>
      rw [copyLoop_nil h]
      refine ⟨Nat.le_add_right _ _, fun hlen => ⟨nofun, ?_⟩⟩
      show 0 = left.length
      omega
  | cons t turns ih =>
      obtain ⟨⟨hpos, hle, htaken⟩, h⟩ := copyLoop_cons h
      obtain ⟨hbound, hfull⟩ := ih h
      simp only [List.length_append, List.length_take, List.length_drop] at hbound hfull
      refine ⟨by omega, fun hlen => ?_⟩
      obtain ⟨hall, hdelivered⟩ := hfull (by omega)
      have hwritten : t.written = some t.bytesRead := by
        have htaken : t.taken = t.bytesRead := by omega
        unfold LoopTurn.taken at htaken
        cases hw : t.written with
        | none =>
            rw [hw, Option.getD_none] at htaken
            omega
        | some n => rw [← htaken, hw, Option.getD_some]
      refine ⟨takesAll_cons.2 ⟨hwritten, hall⟩, ?_⟩
      rw [delivered_cons, hdelivered]
      omega

/-! ## Files -/

/-- A file to copy: its content, the answers to the calls of the copy loop, and what the loop writes
    with these into the destination, which `open` has emptied. -/
structure FileCopy where
  source : List Byte
  turns : List LoopTurn
  atEnd : Bool
  dest : List Byte
  run : copyLoop atEnd source [] turns = some dest

/-- All bytes were read, and every `write` took all that it was given. -/
def FileCopy.Whole (file : FileCopy) : Prop :=
  delivered file.turns = file.source.length ∧ TakesAll file.turns

/-- The copy is the source exactly when the calls were whole: a copy that misses something is
    shorter. -/
theorem FileCopy.dest_eq_source_iff (file : FileCopy) : file.dest = file.source ↔ file.Whole := by
  constructor
  · intro heq
    obtain ⟨hall, hdelivered⟩ := (length_copyLoop file.run).2 (by rw [heq]; exact (zero_add _).symm)
    exact ⟨hdelivered, hall⟩
  · rintro ⟨hdelivered, hall⟩
    rw [copyLoop_of_takesAll hall file.run, List.nil_append, hdelivered, List.take_length]

/-- A worker has copied the item and is about to close it. -/
def WorkerPC.hasCopied (item : ℕ) : WorkerPC ℕ → Bool
  | closingSrc k | closingDest k => k == item
  | _ => false

/-- Some worker has gone through the copy loop with the item. -/
def CopyState.hasCopied (s : CopyState W ℕ) (item : ℕ) : Bool :=
  s.closed.any (fun c => c.2 == item) ||
    (List.finRange W).any fun i => (s.workers i).hasCopied item

/-- What the destination of file `k` holds: nothing since `open`, or what the copy loop has
    written. -/
def destination (files : List FileCopy) (s : CopyState W ℕ) (k : Fin files.length) : List Byte :=
  if s.hasCopied k then (files.get k).dest else []

/-- `main` is behind its joins: it prints `Copying completed` and returns 0. -/
def CopyState.isCompleted (s : CopyState W ℕ) : Prop := s.joined = W + 1

/-! ## Behind the joins -/

/-- A buffer of no capacity takes no item, so that the manager gets past its pushes only without
    items. -/
structure NoRoomInv (items : List ℕ) (s : CopyState W ℕ) : Prop where
  capacity : s.buffer.capacity ≤ 0
  count : s.buffer.count = 0
  rest : s.manager.isPast = false → s.manager.rest = items
  past : s.manager.isPast = true → items = []

theorem NoRoomInv.step {v : Version} {items : List ℕ} {s s' : CopyState W ℕ}
    (h : NoRoomInv items s) (hstep : CopyStep v s s') : NoRoomInv items s' := by
  obtain ⟨hcap, hcount, hrest, hpast⟩ := h
  cases hstep with
  | managerSleeps item rest hm hpush =>
      rw [hm] at hrest
      exact ⟨hcap, hcount, hrest, nofun⟩
  | managerPushes item rest b woken workers hm hpush hsignal =>
      have hfull : s.buffer.capacity ≤ s.buffer.count := by omega
      rw [bufferPush_eq_none.2 hfull] at hpush
      cases hpush
  | managerSetsDone hm =>
      rw [hm] at hrest
      have hnone : items = [] := (hrest rfl).symm
      exact ⟨hcap, hcount, by cases v <;> exact nofun, fun _ => hnone⟩
  | managerArrives hm | managerLeaves hm =>
      rw [hm] at hpast
      exact ⟨hcap, hcount, nofun, fun _ => hpast rfl⟩
  | managerWakes rest hm =>
      rw [hm] at hrest
      exact ⟨hcap, hcount, hrest, nofun⟩
  | workerPops i item b hi hpop =>
      unfold bufferPop at hpop
      cases hdone : s.buffer.done <;> simp [hcount, hdone] at hpop
  | _ => exact ⟨hcap, hcount, hrest, hpast⟩

/-- Behind the joins every item was popped by a worker that is through with it, if there is a worker
    at all. -/
theorem CopyState.isCompleted.allCopied {v : Version} {size : ℤ} {items : List ℕ}
    {s : CopyState W ℕ} (hdone : s.isCompleted) (hW : 1 ≤ W)
    (h : (copyMachine v W size items).Reachable s) :
    items = [] ∨ AllCopied items s := by
  have hjoin := joinInv_reachable h
  by_cases hsize : 1 ≤ size
  · refine .inr ((flowInv_reachable hsize h).allCopied hW ?_)
    intro i
    rw [hjoin.workers i (by rw [hdone]; omega)]
    rfl
  · have hroom : NoRoomInv items s :=
      copy_invariant (fun _ => ⟨by show size ≤ 0; omega, rfl, fun _ => rfl, nofun⟩)
        (fun _ _ _ hi hs => hi.step hs) h
    refine .inl (hroom.past ?_)
    rw [hjoin.manager (by rw [hdone]; omega)]
    rfl

/-- Behind the joins, a file is copied exactly when there is a worker. -/
theorem hasCopied_iff {v : Version} {size : ℤ} {n : ℕ} {s : CopyState W ℕ} (hdone : s.isCompleted)
    (h : (copyMachine v W size (List.range n)).Reachable s) (k : Fin n) :
    s.hasCopied k = true ↔ 1 ≤ W := by
  constructor
  · intro hcopied
    -- without workers there is nobody to ask
    rcases Bool.or_eq_true_iff.1 hcopied with hclosed | hheld
    · obtain ⟨c, -, -⟩ := List.any_eq_true.1 hclosed
      exact c.1.pos
    · obtain ⟨i, -, -⟩ := List.any_eq_true.1 hheld
      exact i.pos
  · intro hW
    rcases hdone.allCopied hW h with hnone | ⟨hpopped, hperm⟩
    · have := congrArg List.length hnone
      rw [List.length_range, List.length_nil] at this
      exact absurd k.isLt (by omega)
    · have hmem : k.val ∈ s.popped.map Prod.snd := by
        rw [hpopped]
        exact List.mem_range.2 k.isLt
      obtain ⟨c, hc, hck⟩ := List.mem_map.1 hmem
      refine Bool.or_eq_true_iff.2 (.inl (List.any_eq_true.2 ⟨c, hperm.mem_iff.2 hc, ?_⟩))
      rw [hck, beq_self_eq_true]

/-- **What a completed run has copied.** When `main` prints `Copying completed`, every destination
    is its source exactly when there was a worker, every byte of the files was read, and every
    `write` took all that it was given; an empty file needs nothing of that. -/
theorem completed_copies_iff {v : Version} {size : ℤ} (files : List FileCopy) {s : CopyState W ℕ}
    (h : (copyMachine v W size (List.range files.length)).Reachable s) (hdone : s.isCompleted) :
    (∀ k, destination files s k = (files.get k).source) ↔
      ∀ file ∈ files, file.source = [] ∨ 1 ≤ W ∧ file.Whole := by
  rw [List.forall_mem_iff_get]
  refine forall_congr' fun k => ?_
  have hcopied := hasCopied_iff hdone h k
  unfold destination
  split
  · next hk =>
      rw [FileCopy.dest_eq_source_iff]
      refine ⟨fun hwhole => .inr ⟨hcopied.1 hk, hwhole⟩, ?_⟩
      rintro (hempty | ⟨-, hwhole⟩)
      · rw [← FileCopy.dest_eq_source_iff, hempty]
        have := (length_copyLoop (files.get k).run).1
        rw [hempty] at this
        exact List.length_eq_zero_iff.1 (by simpa using this)
      · exact hwhole
  · next hk =>
      have hnone : ¬ 1 ≤ W := fun hW => hk (hcopied.2 hW)
      refine ⟨fun hempty => .inl hempty.symm, ?_⟩
      rintro (hempty | ⟨hW, -⟩)
      · exact hempty.symm
      · exact absurd hW hnone

/-- A whole run of HW5 with one worker and one file, to the last join. -/
theorem one_file_completed :
    ∃ s : CopyState 1 ℕ, (copyMachine .hw5 1 1 (List.range 1)).Reachable s ∧ s.isCompleted := by
  obtain ⟨s, hs, hjoined⟩ : ∃ s, (copyMachine .hw5 1 1 (List.range 1)).exec
      ⟨initBuffer (fun _ => 0) 1, .pushing [0], fun _ => .popping, 0, 0, [], [], []⟩
      [.manager none, .worker 0, .worker 0, .worker 0, .worker 0, .manager none, .worker 0,
        .worker 0, .worker 0, .manager none, .manager none, .worker 0, .join, .join] = some s ∧
      s.joined = 2 := ⟨_, rfl, rfl⟩
  exact ⟨s, Machine.Reachable.exec _ (.init ⟨fun _ => 0, rfl⟩) hs, hjoined⟩

/-- One byte that is read and written. -/
def savedFile : FileCopy := ⟨[120], [⟨1, some 1⟩], true, [120], rfl⟩

/-- One byte that is read, and that `write` has no room for. -/
def lostFile : FileCopy := ⟨[120], [⟨1, none⟩], true, [], rfl⟩

theorem completed_copies_iff_saved : ∃ s : CopyState 1 ℕ, s.isCompleted ∧
    ((∀ k, destination [savedFile] s k = ([savedFile].get k).source) ↔
      ∀ file ∈ [savedFile], file.source = [] ∨ 1 ≤ 1 ∧ file.Whole) := by
  obtain ⟨s, h, hdone⟩ := one_file_completed
  exact ⟨s, hdone, completed_copies_iff [savedFile] h hdone⟩

/-- A run that is reported as completed, and the copy misses the byte that could not be written. -/
theorem completed_not_always_copied :
    ¬ ∀ (v : Version) (W : ℕ) (size : ℤ) (files : List FileCopy) (s : CopyState W ℕ),
      (copyMachine v W size (List.range files.length)).Reachable s → s.isCompleted →
      ∀ k, destination files s k = (files.get k).source := by
  intro hall
  obtain ⟨s, h, hdone⟩ := one_file_completed
  have hcopied := hall .hw5 1 1 [lostFile] s h hdone 0
  have hempty : destination [lostFile] s 0 = [] := ite_self []
  rw [hempty] at hcopied
  exact absurd hcopied (by decide)

end SystemProgramming.Copy
