import SystemProgramming.Midterm.Sync

set_option autoImplicit false

/-! # Exclusion of the reader/writer lock

The invariant of `Sync` read off for the sections: one writer at most, no reader beside it, and
semaphores that never exceed 1. -/

namespace SystemProgramming.Sync

variable {ι : Type*} [Fintype ι]

theorem inv_reachable [DecidableEq ι] {s : LockState ι} (h : (lockMachine ι).Reachable s) : Inv s :=
  h.invariant (fun _ => inv_init) fun _ _ _ _ hi hn => inv_step hi hn

theorem Inv.writing_le_one {s : LockState ι} (h : Inv s) : countAt PC.isWriting s.pc ≤ 1 := by
  have hle := holders_le s.pc
  have := h.mutex
  omega

/-- A writer inside holds `reader_mutex` and `writer_mutex`: the readers as a group have neither. -/
theorem Inv.inside_eq_zero {s : LockState ι} (h : Inv s) (hw : 0 < countAt PC.isWriting s.pc) :
    countAt PC.isInside s.pc = 0 := by
  have hle := holders_le s.pc
  have hin := (inside_le_counted s.pc).1
  have hwm : countAt PC.isWriting s.pc ≤ countAt PC.holdsWriterMutex s.pc :=
    countAt_mono (fun x => by cases x <;> decide) s.pc
  have := h.mutex
  have := h.writer
  omega

theorem Inv.writerMutex_le_one {s : LockState ι} (h : Inv s) : s.file.writerMutex ≤ 1 := by
  have hle := holders_le s.pc
  have := h.mutex
  have := h.writer
  have := h.block
  omega

theorem Inv.count_eq_inside {s : LockState ι} (h : Inv s)
    (hfree : countAt PC.holdsReaderMutex s.pc = 0) :
    s.file.readerCount = countAt PC.isInside s.pc := by
  obtain ⟨hlow, hhigh⟩ := inside_le_counted s.pc
  have := h.count
  omega

/-- **Reader/writer exclusion** in every reachable state of any number of processes. -/
theorem readerWriter_exclusion [DecidableEq ι] {s : LockState ι} (h : (lockMachine ι).Reachable s) :
    countAt PC.isWriting s.pc ≤ 1 ∧
      (0 < countAt PC.isWriting s.pc → countAt PC.isReading s.pc = 0) ∧
      s.file.readerMutex ≤ 1 ∧ s.file.writerMutex ≤ 1 ∧
      (countAt PC.holdsReaderMutex s.pc = 0 →
        s.file.readerCount = countAt PC.isInside s.pc) := by
  have hinv := inv_reachable h
  refine ⟨hinv.writing_le_one, fun hw => ?_, ?_, hinv.writerMutex_le_one, hinv.count_eq_inside⟩
  · have hread : countAt PC.isReading s.pc ≤ countAt PC.isInside s.pc :=
      countAt_mono (fun x => by cases x <;> decide) s.pc
    have := hinv.inside_eq_zero hw
    omega
  · have := hinv.mutex
    omega

/-- An entry nobody uses, as `init_file` leaves it, with every process outside. -/
def idle (ι : Type*) : LockState ι := ⟨⟨[], 0, 1, 1⟩, fun _ => .outside⟩

theorem idle_reachable (ι : Type*) [DecidableEq ι] : (lockMachine ι).Reachable (idle ι) :=
  .init ⟨rfl, rfl, rfl, fun _ => rfl⟩

/-- Process 0 writes while process 1 waits in `reader_enter`. -/
theorem readerWriter_exclusion_writing : ∃ s : LockState (Fin 2),
    (lockMachine (Fin 2)).exec (idle (Fin 2))
      [(0, .writer), (0, .writer), (0, .writer), (1, .reader)] = some s ∧
    countAt PC.isWriting s.pc = 1 ∧ countAt PC.isWriting s.pc ≤ 1 ∧
      (0 < countAt PC.isWriting s.pc → countAt PC.isReading s.pc = 0) ∧
      s.file.readerMutex ≤ 1 ∧ s.file.writerMutex ≤ 1 ∧
      (countAt PC.holdsReaderMutex s.pc = 0 →
        s.file.readerCount = countAt PC.isInside s.pc) :=
  ⟨_, rfl, by decide, readerWriter_exclusion ((idle_reachable (Fin 2)).exec
    [(0, .writer), (0, .writer), (0, .writer), (1, .reader)] rfl)⟩

end SystemProgramming.Sync
