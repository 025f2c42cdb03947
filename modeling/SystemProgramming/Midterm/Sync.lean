import SystemProgramming.Lib.Machine
import SystemProgramming.Lib.Threads

set_option autoImplicit false

/-! # The reader/writer lock of `sync.c`

A `File` entry of the shared table carries two semaphores and a reader counter. `stepPC` is one
step of one process through `reader_enter`, `reader_exit`, `writer_enter` and `writer_exit`: every
`sem_wait`, every `sem_post` and every update of `reader_count` with the test after it is a step of
its own, and `lockMachine` interleaves these steps for any number of processes that share one entry.

`Inv` is the invariant behind exclusion. It ties the two semaphore values and the counter to the
number of processes at each group of program points: `reader_mutex` is free exactly when nobody
holds it, `reader_count` counts the readers from the increment to the decrement, and
`writer_mutex` is held by one writer or, as long as there are readers, by the readers together. -/

namespace SystemProgramming.Sync

open Function

/-! ## The entry and its semaphores -/

/-- `File`: one entry of the shared table. -/
structure File where
  name : List Char
  readerCount : ℤ
  readerMutex : ℕ
  writerMutex : ℕ
deriving DecidableEq

/-- `sem_wait`: blocked (`none`) on the value 0. -/
def semWait : ℕ → Option ℕ
  | 0 => none
  | v + 1 => some v

/-- `sem_post`. -/
def semPost (v : ℕ) : ℕ := v + 1

theorem semWait_eq_some {v w : ℕ} : semWait v = some w ↔ v = w + 1 := by
  cases v with
  | zero => simp [semWait]
  | succ v => simp [semWait]

theorem semWait_eq_none {v : ℕ} : semWait v = none ↔ v = 0 := by
  cases v with
  | zero => simp [semWait]
  | succ v => simp [semWait]

/-! ## One process -/

/-- What a process does next with the entry. -/
inductive Role
  | reader
  | writer
deriving DecidableEq

/-- Where a process is: the name of the function it is in and the statement it is about to run. -/
inductive PC
  | outside
  | readerEnterLock
  | readerEnterCount
  | readerEnterBlock
  | readerEnterUnlock
  | reading
  | readerExitLock
  | readerExitCount
  | readerExitRelease
  | readerExitUnlock
  | writerEnterLock
  | writerEnterExclude
  | writing
  | writerExitAdmit
  | writerExitUnlock
deriving DecidableEq

/-- One step of a process on the entry; `none` is a `sem_wait` on 0. The role matters only outside
    a section, where the process may call either `reader_enter` or `writer_enter`. -/
def stepPC (role : Role) (f : File) : PC → Option (File × PC)
  | .outside =>
      match role with
      | .reader => some (f, .readerEnterLock)
      | .writer => some (f, .writerEnterLock)
  -- `reader_enter`
  | .readerEnterLock =>
      (semWait f.readerMutex).map fun v => ({ f with readerMutex := v }, .readerEnterCount)
  | .readerEnterCount =>
      let count := f.readerCount + 1
      some ({ f with readerCount := count },
        if count = 1 then .readerEnterBlock else .readerEnterUnlock)
  | .readerEnterBlock =>
      (semWait f.writerMutex).map fun v => ({ f with writerMutex := v }, .readerEnterUnlock)
  | .readerEnterUnlock => some ({ f with readerMutex := semPost f.readerMutex }, .reading)
  | .reading => some (f, .readerExitLock)
  -- `reader_exit`
  | .readerExitLock =>
      (semWait f.readerMutex).map fun v => ({ f with readerMutex := v }, .readerExitCount)
  | .readerExitCount =>
      let count := f.readerCount - 1
      some ({ f with readerCount := count },
        if count = 0 then .readerExitRelease else .readerExitUnlock)
  | .readerExitRelease =>
      some ({ f with writerMutex := semPost f.writerMutex }, .readerExitUnlock)
  | .readerExitUnlock => some ({ f with readerMutex := semPost f.readerMutex }, .outside)
  -- `writer_enter`
  | .writerEnterLock =>
      (semWait f.writerMutex).map fun v => ({ f with writerMutex := v }, .writerEnterExclude)
  | .writerEnterExclude =>
      (semWait f.readerMutex).map fun v => ({ f with readerMutex := v }, .writing)
  | .writing => some (f, .writerExitAdmit)
  -- `writer_exit`
  | .writerExitAdmit =>
      some ({ f with readerMutex := semPost f.readerMutex }, .writerExitUnlock)
  | .writerExitUnlock => some ({ f with writerMutex := semPost f.writerMutex }, .outside)

/-! ## The functions as a whole

What each function does to the entry when no other process uses it. -/

/-- `reader_enter` as a whole, when no other process uses the entry; `none` is a call that blocks. -/
def readerEnter (f : File) : Option File :=
  (semWait f.readerMutex).bind fun mutex =>
    let count := f.readerCount + 1
    (if count = 1 then semWait f.writerMutex else some f.writerMutex).map fun writer =>
      { f with readerCount := count, readerMutex := semPost mutex, writerMutex := writer }

/-- `reader_exit` as a whole. -/
def readerExit (f : File) : Option File := do
  let mutex ← semWait f.readerMutex
  let count := f.readerCount - 1
  let writer := if count = 0 then semPost f.writerMutex else f.writerMutex
  some { f with readerCount := count, readerMutex := semPost mutex, writerMutex := writer }

/-- `writer_enter` as a whole. -/
def writerEnter (f : File) : Option File := do
  let writer ← semWait f.writerMutex
  let mutex ← semWait f.readerMutex
  some { f with readerMutex := mutex, writerMutex := writer }

/-- `writer_exit` as a whole. -/
def writerExit (f : File) : Option File :=
  some { f with readerMutex := semPost f.readerMutex, writerMutex := semPost f.writerMutex }

/-- A process alone on the entry moves from one statement to another. -/
def Alone (f : File) (x : PC) (g : File) (y : PC) : Prop :=
  Relation.ReflTransGen (fun a b : File × PC => ∃ role, stepPC role a.1 a.2 = some b) (f, x) (g, y)

theorem Alone.head {f g h : File} {x y z : PC} (role : Role) (hstep : stepPC role f x = some (h, z))
    (hrest : Alone h z g y) : Alone f x g y :=
  Relation.ReflTransGen.head ⟨role, hstep⟩ hrest

theorem readerEnter_eq_some {f g : File} :
    readerEnter f = some g ↔
      ∃ m w, f.readerMutex = m + 1 ∧
        (if f.readerCount + 1 = 1 then semWait f.writerMutex else some f.writerMutex) = some w ∧
        g = { f with readerCount := f.readerCount + 1, writerMutex := w } := by
  simp only [readerEnter, Option.bind_eq_some_iff, Option.map_eq_some_iff, semWait_eq_some]
  constructor
  · rintro ⟨m, hm, w, hw, rfl⟩
    exact ⟨m, w, hm, hw, by rw [semPost, hm]⟩
  · rintro ⟨m, w, hm, hw, rfl⟩
    exact ⟨m, hm, w, hw, by rw [semPost, hm]⟩

theorem readerEnter_alone {f g : File} (h : readerEnter f = some g) :
    Alone f .readerEnterLock g .reading := by
  obtain ⟨m, w, hm, hw, rfl⟩ := readerEnter_eq_some.1 h
  have hlock : semWait f.readerMutex = some m := semWait_eq_some.2 hm
  refine .head .reader (by rw [stepPC, hlock]; rfl) (.head .reader rfl ?_)
  by_cases hcount : f.readerCount + 1 = 1
  · rw [if_pos hcount] at hw
    dsimp only
    rw [if_pos hcount]
    refine .head .reader (by rw [stepPC, hw]; rfl) (.head .reader rfl ?_)
    rw [semPost, ← hm]
    exact .refl
  · rw [if_neg hcount] at hw
    cases hw
    dsimp only
    rw [if_neg hcount]
    refine .head .reader rfl ?_
    rw [semPost, ← hm]
    exact .refl

theorem readerExit_alone {f g : File} (h : readerExit f = some g) :
    Alone f .readerExitLock g .outside := by
  simp only [readerExit, Option.bind_eq_bind, Option.bind_eq_some_iff, Option.some.injEq] at h
  obtain ⟨m, hm, rfl⟩ := h
  refine .head .reader (by rw [stepPC, hm]; rfl) (.head .reader rfl ?_)
  dsimp only
  split
  · exact .head .reader rfl (.head .reader rfl .refl)
  · exact .head .reader rfl .refl

theorem writerEnter_alone {f g : File} (h : writerEnter f = some g) :
    Alone f .writerEnterLock g .writing := by
  simp only [writerEnter, Option.bind_eq_bind, Option.bind_eq_some_iff, Option.some.injEq] at h
  obtain ⟨w, hw, m, hm, rfl⟩ := h
  exact .head .writer (by rw [stepPC, hw]; rfl) (.head .writer (by rw [stepPC, hm]; rfl) .refl)

theorem writerExit_alone {f g : File} (h : writerExit f = some g) :
    Alone f .writerExitAdmit g .outside := by
  cases h
  exact .head .writer rfl (.head .writer rfl .refl)

/-- Each exit undoes its enter. -/
theorem readerExit_of_readerEnter {f g : File} (h : readerEnter f = some g) :
    readerExit g = some f := by
  obtain ⟨m, w, hm, hw, rfl⟩ := readerEnter_eq_some.1 h
  have hlock : semWait f.readerMutex = some m := semWait_eq_some.2 hm
  have hwriter : (if f.readerCount + 1 - 1 = 0 then semPost w else w) = f.writerMutex := by
    by_cases hcount : f.readerCount = 0
    · rw [if_pos (by omega), semWait_eq_some] at hw
      rw [if_pos (by omega), semPost, hw]
    · rw [if_neg (by omega)] at hw
      rw [if_neg (by omega), Option.some.inj hw]
  simp only [readerExit, hlock, Option.bind_eq_bind, Option.bind_some, hwriter]
  rw [Int.add_sub_cancel, semPost, ← hm]

theorem writerExit_of_writerEnter {f g : File} (h : writerEnter f = some g) :
    writerExit g = some f := by
  simp only [writerEnter, Option.bind_eq_bind, Option.bind_eq_some_iff, semWait_eq_some,
    Option.some.injEq] at h
  obtain ⟨w, hw, m, hm, rfl⟩ := h
  rw [writerExit, semPost, semPost, ← hw, ← hm]

/-- The entry as `init_file` makes it, and as it is whenever nobody uses it. -/
def Idle (f : File) : Prop := f.readerCount = 0 ∧ f.readerMutex = 1 ∧ f.writerMutex = 1

theorem Idle.readerEnter {f : File} (h : Idle f) : ∃ g, readerEnter f = some g := by
  obtain ⟨hcount, hm, hw⟩ := h
  exact ⟨_, readerEnter_eq_some.2 ⟨0, 0, hm, by rw [hcount, hw]; rfl, rfl⟩⟩

theorem Idle.writerEnter {f : File} (h : Idle f) : ∃ g, writerEnter f = some g := by
  obtain ⟨-, hm, hw⟩ := h
  rw [Sync.writerEnter, hm, hw]
  exact ⟨_, rfl⟩

/-! ## Any number of processes -/

/-- The shared entry and the program point of every process. -/
structure LockState (ι : Type*) where
  file : File
  pc : ι → PC

/-- The processes `ι` on one entry; a label names the process that moves and its next role. -/
def lockMachine (ι : Type*) [DecidableEq ι] : Machine (LockState ι) (ι × Role) where
  init s := s.file.readerCount = 0 ∧ s.file.readerMutex = 1 ∧ s.file.writerMutex = 1 ∧
    ∀ i, s.pc i = .outside
  next s a := (stepPC a.2 s.file (s.pc a.1)).map fun r => ⟨r.1, update s.pc a.1 r.2⟩

variable {ι : Type*}

theorem next_eq_some [DecidableEq ι] {s s' : LockState ι} {a : ι × Role} :
    (lockMachine ι).next s a = some s' ↔
      ∃ f x, stepPC a.2 s.file (s.pc a.1) = some (f, x) ∧ s' = ⟨f, update s.pc a.1 x⟩ := by
  simp [lockMachine, eq_comm]

/-! ## Groups of program points -/

/-- Between the end of `writer_enter` and the start of `writer_exit`. -/
@[simp] def PC.isWriting : PC → Bool
  | .writing => true
  | _ => false

/-- Between the end of `reader_enter` and the start of `reader_exit`. -/
@[simp] def PC.isReading : PC → Bool
  | .reading => true
  | _ => false

/-- `reader_enter` completed, `reader_mutex` not yet taken in the matching `reader_exit`. -/
@[simp] def PC.isInside : PC → Bool
  | .reading | .readerExitLock => true
  | _ => false

/-- The process has taken `reader_mutex` and not yet posted it. -/
@[simp] def PC.holdsReaderMutex : PC → Bool
  | .readerEnterCount | .readerEnterBlock | .readerEnterUnlock | .readerExitCount
  | .readerExitRelease | .readerExitUnlock | .writing | .writerExitAdmit => true
  | _ => false

/-- The process, a writer, has taken `writer_mutex` and not yet posted it. -/
@[simp] def PC.holdsWriterMutex : PC → Bool
  | .writerEnterExclude | .writing | .writerExitAdmit | .writerExitUnlock => true
  | _ => false

/-- From the increment of `reader_count` to its decrement. -/
@[simp] def PC.isCounted : PC → Bool
  | .readerEnterBlock | .readerEnterUnlock | .reading | .readerExitLock | .readerExitCount => true
  | _ => false

/-- The first reader, counted, waits for the writers. -/
@[simp] def PC.isBlocking : PC → Bool
  | .readerEnterBlock => true
  | _ => false

/-- The last reader, no longer counted, has not yet let the writers in. -/
@[simp] def PC.isReleasing : PC → Bool
  | .readerExitRelease => true
  | _ => false

/-- About to update `reader_count`. -/
@[simp] def PC.isUpdating : PC → Bool
  | .readerEnterCount | .readerExitCount => true
  | _ => false

variable [Fintype ι]

/-- Who updates the counter, blocks or releases the writers or writes holds `reader_mutex`. -/
theorem holders_le (pc : ι → PC) :
    countAt PC.isUpdating pc + countAt PC.isBlocking pc + countAt PC.isReleasing pc
      + countAt PC.isWriting pc ≤ countAt PC.holdsReaderMutex pc := by
  unfold countAt
  rw [← Finset.sum_add_distrib, ← Finset.sum_add_distrib, ← Finset.sum_add_distrib]
  refine Finset.sum_le_sum ?_
  intro i _
  cases pc i <;> decide

/-- The counted readers are those inside and those that hold `reader_mutex`. -/
theorem inside_le_counted (pc : ι → PC) :
    countAt PC.isInside pc ≤ countAt PC.isCounted pc ∧
      countAt PC.isCounted pc ≤ countAt PC.isInside pc + countAt PC.holdsReaderMutex pc := by
  refine ⟨countAt_mono (fun x => by cases x <;> decide) pc, ?_⟩
  unfold countAt
  rw [← Finset.sum_add_distrib]
  refine Finset.sum_le_sum ?_
  intro i _
  cases pc i <;> decide

/-! ## The invariant -/

/-- What ties the entry to the program points of the processes. -/
structure Inv (s : LockState ι) : Prop where
  /-- `reader_mutex` is 1 when nobody holds it, and has at most one holder. -/
  mutex : s.file.readerMutex + countAt PC.holdsReaderMutex s.pc = 1
  /-- `reader_count` is the number of counted readers. -/
  count : s.file.readerCount = countAt PC.isCounted s.pc
  /-- `writer_mutex` is free, or with a writer, or with the readers as a group. The group has it
      from the end of `isBlocking` to the end of `isReleasing`. -/
  writer : s.file.writerMutex + countAt PC.holdsWriterMutex s.pc + countAt PC.isReleasing s.pc
    + min 1 (countAt PC.isCounted s.pc) = 1 + countAt PC.isBlocking s.pc
  /-- The reader that blocks the writers is the only one counted. -/
  block : 0 < countAt PC.isBlocking s.pc → countAt PC.isCounted s.pc = 1
  /-- The reader that lets the writers in leaves no counted reader behind. -/
  release : 0 < countAt PC.isReleasing s.pc → countAt PC.isCounted s.pc = 0

theorem inv_init [DecidableEq ι] {s : LockState ι} (h : (lockMachine ι).init s) : Inv s := by
  obtain ⟨hcount, hrm, hwm, hpc⟩ := h
  have hzero : ∀ p : PC → Bool, p .outside = false → countAt p s.pc = 0 := fun p hp =>
    countAt_eq_zero.2 fun i => by rw [hpc i, hp]
  constructor <;>
    simp [hcount, hrm, hwm, hzero PC.holdsReaderMutex rfl, hzero PC.isCounted rfl,
      hzero PC.holdsWriterMutex rfl, hzero PC.isReleasing rfl, hzero PC.isBlocking rfl]

/-- Every step of every process keeps `Inv`. -/
theorem inv_step [DecidableEq ι] {s s' : LockState ι} {a : ι × Role} (h : Inv s)
    (hstep : (lockMachine ι).next s a = some s') : Inv s' := by
  obtain ⟨f, x, hx, rfl⟩ := next_eq_some.1 hstep
  clear hstep
  obtain ⟨i, role⟩ := a
  obtain ⟨hmutex, hcount, hwriter, hblock, hrelease⟩ := h
  have hle := holders_le s.pc
  have hholds := countAt_update PC.holdsReaderMutex s.pc i x
  have hwrites := countAt_update PC.holdsWriterMutex s.pc i x
  have hcounted := countAt_update PC.isCounted s.pc i x
  have hblocking := countAt_update PC.isBlocking s.pc i x
  have hreleasing := countAt_update PC.isReleasing s.pc i x
  have hupdating : (s.pc i).isUpdating = true → 0 < countAt PC.isUpdating s.pc := countAt_pos_of
  have hinside : (s.pc i).isCounted = true → 0 < countAt PC.isCounted s.pc := countAt_pos_of
  generalize s.pc i = y at hx hholds hwrites hcounted hblocking hreleasing hupdating hinside
  cases y <;> simp only [stepPC] at hx
  -- the calls of the four functions change none of the counters
  case outside =>
    have hcall : f = s.file ∧ (x = .readerEnterLock ∨ x = .writerEnterLock) := by
      cases role <;> obtain ⟨rfl, rfl⟩ := hx <;> simp
    obtain ⟨rfl, rfl | rfl⟩ := hcall <;> simp at * <;> constructor <;> dsimp only <;> omega
  case reading | writing =>
    obtain ⟨rfl, rfl⟩ := hx
    simp at *
    constructor <;> dsimp only <;> omega
  -- `sem_wait` takes 1 from its semaphore
  case readerEnterLock | readerEnterBlock | readerExitLock | writerEnterLock | writerEnterExclude =>
    simp only [Option.map_eq_some_iff, semWait_eq_some, Prod.mk.injEq] at hx
    obtain ⟨v, hv, rfl, rfl⟩ := hx
    simp at *
    constructor <;> dsimp only <;> omega
  -- `sem_post` gives it back
  case readerEnterUnlock | readerExitUnlock | readerExitRelease | writerExitAdmit
      | writerExitUnlock =>
    obtain ⟨rfl, rfl⟩ := hx
    simp at *
    constructor <;> dsimp only [semPost] <;> omega
  -- the holder of `reader_mutex` updates the counter; the test tells the first and the last reader
  case readerEnterCount | readerExitCount =>
    split at hx <;> obtain ⟨rfl, rfl⟩ := hx <;> simp at * <;> constructor <;> dsimp only <;> omega

end SystemProgramming.Sync
