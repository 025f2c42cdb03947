import SystemProgramming.Midterm.SyncSafety

set_option autoImplicit false

/-! # When the reader/writer lock can deadlock

`reader_enter` takes `reader_mutex` and, as the first reader, then waits for `writer_mutex`;
`writer_enter` takes `writer_mutex` and then waits for `reader_mutex`. The two orders close a cycle
when the first reader and a writer each get their first semaphore before the other's second one.
This module proves that this crossing is the only way to a deadlock: a run without it always has a
process in a section that can move (`lock_progress`), and after a crossing nobody in a section ever
moves again once the reader has counted itself (`crossed_stuck`). -/

namespace SystemProgramming.Sync

open Function

variable {ι : Type*} [DecidableEq ι]

/-! ## Crossings -/

/-- Process `j` is in `reader_enter` as the first reader and has not got `writer_mutex` yet. -/
def FirstReader (s : LockState ι) (j : ι) : Prop :=
  s.pc j = .readerEnterBlock ∨ (s.pc j = .readerEnterCount ∧ s.file.readerCount = 0)

/-- A writer that has `writer_mutex` but not `reader_mutex` faces a first reader that has
    `reader_mutex` but not `writer_mutex`. -/
def Crossed (s : LockState ι) : Prop :=
  ∃ i j, s.pc i = .writerEnterExclude ∧ FirstReader s j

/-- The discipline without crossings: the first reader does not take `reader_mutex` between the two
    waits of a writer, and no writer takes `writer_mutex` between the two waits of a first reader.
    -/
def NoCrossing (s : LockState ι) (a : ι × Role) : Prop :=
  (s.pc a.1 = .readerEnterLock → s.file.readerCount = 0 → ∀ i, s.pc i ≠ .writerEnterExclude) ∧
    (s.pc a.1 = .writerEnterLock → ∀ j, ¬ FirstReader s j)

instance (s : LockState ι) (j : ι) : Decidable (FirstReader s j) :=
  inferInstanceAs (Decidable (_ ∨ _ ∧ _))

instance [Fintype ι] (s : LockState ι) (a : ι × Role) : Decidable (NoCrossing s a) :=
  inferInstanceAs (Decidable ((_ → _ → ∀ i, s.pc i ≠ _) ∧ (_ → ∀ j, ¬ FirstReader s j)))

/-! ## What a step can bring about -/

theorem stepPC_to_exclude {role : Role} {f f' : File} {y : PC}
    (h : stepPC role f y = some (f', .writerEnterExclude)) :
    y = .writerEnterLock ∧ f'.readerCount = f.readerCount := by
  cases y <;> simp only [stepPC] at h
  case writerEnterLock =>
    simp only [Option.map_eq_some_iff, Prod.mk.injEq] at h
    obtain ⟨v, -, rfl, -⟩ := h
    exact ⟨rfl, rfl⟩
  case outside => cases role <;> simp at h
  case readerEnterCount | readerExitCount => split at h <;> simp at h
  all_goals simp at h

theorem stepPC_to_block {role : Role} {f f' : File} {y : PC}
    (h : stepPC role f y = some (f', .readerEnterBlock)) :
    y = .readerEnterCount ∧ f.readerCount = 0 := by
  cases y <;> simp only [stepPC] at h
  case readerEnterCount =>
    split at h
    · exact ⟨rfl, by omega⟩
    · simp at h
  case outside => cases role <;> simp at h
  case readerExitCount => split at h <;> simp at h
  all_goals simp at h

theorem stepPC_to_count {role : Role} {f f' : File} {y : PC}
    (h : stepPC role f y = some (f', .readerEnterCount)) :
    y = .readerEnterLock ∧ f'.readerCount = f.readerCount := by
  cases y <;> simp only [stepPC] at h
  case readerEnterLock =>
    simp only [Option.map_eq_some_iff, Prod.mk.injEq] at h
    obtain ⟨v, -, rfl, -⟩ := h
    exact ⟨rfl, rfl⟩
  case outside => cases role <;> simp at h
  case readerEnterCount | readerExitCount => split at h <;> simp at h
  all_goals simp at h

/-- Only the two statements that name `reader_count` change it. -/
theorem stepPC_count {role : Role} {f f' : File} {y x : PC}
    (h : stepPC role f y = some (f', x)) (hy : y.isUpdating = false) :
    f'.readerCount = f.readerCount := by
  cases y <;> simp only [stepPC] at h
  case outside => cases role <;> obtain ⟨rfl, rfl⟩ := h <;> rfl
  case readerEnterCount | readerExitCount => simp at hy
  all_goals
    simp only [Option.map_eq_some_iff, Prod.mk.injEq, Option.some.injEq] at h
    first
      | (obtain ⟨v, -, rfl, -⟩ := h; rfl)
      | (obtain ⟨rfl, -⟩ := h; rfl)

/-! ## Runs without crossings -/

/-- Two processes are never at the statements that update the counter. -/
theorem Inv.updating_unique [Fintype ι] {s : LockState ι} (h : Inv s) {i j : ι}
    (hi : (s.pc i).isUpdating = true) (hj : (s.pc j).isUpdating = true) : i = j := by
  have hle := holders_le s.pc
  have := h.mutex
  exact eq_of_countAt_le_one (by omega) hi hj

theorem not_crossed_step [Fintype ι] {s s' : LockState ι} {a : ι × Role} (hinv : Inv s) (h : ¬ Crossed s)
    (hok : NoCrossing s a) (hstep : (lockMachine ι).next s a = some s') : ¬ Crossed s' := by
  obtain ⟨f, x, hx, rfl⟩ := next_eq_some.1 hstep
  obtain ⟨k, role⟩ := a
  obtain ⟨hokr, hokw⟩ := hok
  rintro ⟨i, j, hi, hj⟩
  dsimp only at hx hokr hokw hi
  by_cases hik : i = k
  · -- the step is a writer taking `writer_mutex`; the first reader was there before
    subst hik
    rw [update_self] at hi
    subst hi
    obtain ⟨hy, hcount⟩ := stepPC_to_exclude hx
    have hjk : j ≠ i := by
      rintro rfl
      simp [FirstReader] at hj
    refine hokw hy j ?_
    simpa [FirstReader, update_of_ne hjk, hcount] using hj
  · rw [update_of_ne hik] at hi
    by_cases hjk : j = k
    · -- the step makes `j` a first reader; the writer was there before
      subst hjk
      simp only [FirstReader, update_self] at hj
      rcases hj with rfl | ⟨rfl, hzero⟩
      · exact h ⟨i, j, hi, Or.inr (stepPC_to_block hx)⟩
      · obtain ⟨hy, hcount⟩ := stepPC_to_count hx
        exact hokr hy (hcount ▸ hzero) i hi
    · -- both were there before, and the holder of `reader_mutex` alone changes the counter
      simp only [FirstReader, update_of_ne hjk] at hj
      rcases hj with hblock | ⟨hpc, hzero⟩
      · exact h ⟨i, j, hi, Or.inl hblock⟩
      · have hk : (s.pc k).isUpdating = false := by
          by_contra hupd
          exact hjk (hinv.updating_unique (by simp [hpc]) (by simpa using hupd))
        exact h ⟨i, j, hi, Or.inr ⟨hpc, stepPC_count hx hk ▸ hzero⟩⟩

theorem not_crossed_of_reachableUnder [Fintype ι] {s : LockState ι}
    (h : (lockMachine ι).ReachableUnder NoCrossing s) : ¬ Crossed s := by
  refine h.invariant ?_ fun s a s' hs hi hok hn =>
    not_crossed_step (inv_reachable hs.reachable) hi hok hn
  rintro s ⟨-, -, -, hpc⟩ ⟨i, j, hi, -⟩
  simp [hpc i] at hi

/-! ## Progress -/

/-- The process cannot take its next step, whatever it would like to do. -/
def Stuck (s : LockState ι) (i : ι) : Prop :=
  ∀ role, (lockMachine ι).next s (i, role) = none

/-- A stuck process is at a `sem_wait` whose semaphore is 0. -/
theorem stuck_cases {s : LockState ι} {i : ι} (h : Stuck s i) :
    (s.file.readerMutex = 0 ∧ (s.pc i = .readerEnterLock ∨ s.pc i = .readerExitLock ∨
      s.pc i = .writerEnterExclude)) ∨
    (s.file.writerMutex = 0 ∧ (s.pc i = .readerEnterBlock ∨ s.pc i = .writerEnterLock)) := by
  have hnone := h .reader
  simp only [lockMachine, Option.map_eq_none_iff] at hnone
  cases hpc : s.pc i <;> rw [hpc] at hnone <;>
    simp [stepPC, Option.map_eq_none_iff, semWait_eq_none] at hnone <;> simp [hnone]

theorem progress_of_not_crossed [Fintype ι] {s : LockState ι} (hinv : Inv s) (hno : ¬ Crossed s)
    (hin : ∃ i, s.pc i ≠ .outside) : ∃ i, s.pc i ≠ .outside ∧ ¬ Stuck s i := by
  by_contra hall
  have hstuck : ∀ i, s.pc i ≠ .outside → Stuck s i := fun i hi => by
    by_contra hns
    exact hall ⟨i, hi, hns⟩
  obtain ⟨hmutex, hcount, hwriter, hblock, hrelease⟩ := hinv
  have hle := holders_le s.pc
  by_cases hrm : s.file.readerMutex = 0
  · -- the holder of `reader_mutex` is stuck, so it is the first reader waiting for a writer
    obtain ⟨j, hj⟩ := countAt_pos.1 (show 0 < countAt PC.holdsReaderMutex s.pc by omega)
    have hjb : s.file.writerMutex = 0 ∧ s.pc j = .readerEnterBlock := by
      rcases stuck_cases (hstuck j (by rintro h; simp [h] at hj)) with
        ⟨-, h | h | h⟩ | ⟨hwm, h | h⟩ <;> simp [h] at hj
      exact ⟨hwm, h⟩
    have hpos : 0 < countAt PC.isBlocking s.pc := countAt_pos_of (i := j) (by simp [hjb.2])
    have := hblock hpos
    obtain ⟨i, hi⟩ := countAt_pos.1 (show 0 < countAt PC.holdsWriterMutex s.pc by omega)
    -- that writer is stuck too, so it waits for `reader_mutex`: a crossing
    have hiw : s.pc i = .writerEnterExclude := by
      rcases stuck_cases (hstuck i (by rintro h; simp [h] at hi)) with
        ⟨-, h | h | h⟩ | ⟨-, h | h⟩ <;> simp [h] at hi
      exact h
    exact hno ⟨i, j, hiw, Or.inl hjb.2⟩
  · -- nobody holds `reader_mutex`, so whoever is stuck waits for `writer_mutex`
    obtain ⟨i, hi⟩ := hin
    have hzero : ∀ j, (s.pc j).holdsReaderMutex = false := countAt_eq_zero.1 (by omega)
    have hwm : s.file.writerMutex = 0 := by
      rcases stuck_cases (hstuck i hi) with ⟨h, -⟩ | ⟨h, -⟩
      · exact absurd h hrm
      · exact h
    have hnot : ∀ j, s.pc j ≠ .outside → s.pc j = .writerEnterLock := by
      intro j hj
      rcases stuck_cases (hstuck j hj) with ⟨h, -⟩ | ⟨-, h | h⟩
      · exact absurd h hrm
      · have := hzero j
        simp [h] at this
      · exact h
    have hnone : ∀ p : PC → Bool, p .outside = false → p .writerEnterLock = false →
        countAt p s.pc = 0 := by
      refine fun p hout hlock => countAt_eq_zero.2 ?_
      intro j
      by_cases hj : s.pc j = .outside
      · rw [hj, hout]
      · rw [hnot j hj, hlock]
    have := hnone PC.holdsWriterMutex rfl rfl
    have := hnone PC.isCounted rfl rfl
    omega

/-- **Progress.** In a run without crossings, whenever somebody is in a section, somebody in a
    section can take its next step. -/
theorem lock_progress [Fintype ι] {s : LockState ι} (h : (lockMachine ι).ReachableUnder NoCrossing s)
    (hin : ∃ i, s.pc i ≠ .outside) :
    ∃ i, s.pc i ≠ .outside ∧ ∃ role s', (lockMachine ι).next s (i, role) = some s' := by
  obtain ⟨i, hi, hns⟩ :=
    progress_of_not_crossed (inv_reachable h.reachable) (not_crossed_of_reachableUnder h) hin
  refine ⟨i, hi, ?_⟩
  simpa [Stuck, Option.ne_none_iff_exists', ← ne_eq] using hns

/-- A run without crossings in which process 0 writes and process 1 waits for it. -/
theorem lock_progress_writing :
    ∃ s : LockState (Fin 2), s.pc 0 = .writing ∧ s.pc 1 = .writerEnterLock ∧
      ∃ i, s.pc i ≠ .outside ∧ ∃ role s', (lockMachine (Fin 2)).next s (i, role) = some s' := by
  have h0 : (lockMachine (Fin 2)).ReachableUnder NoCrossing (idle (Fin 2)) :=
    .init ⟨rfl, rfl, rfl, fun _ => rfl⟩
  have h1 := h0.step (a := (0, .writer)) (by decide) rfl
  have h2 := h1.step (a := (0, .writer)) (by decide) rfl
  have h3 := h2.step (a := (0, .writer)) (by decide) rfl
  have h4 := h3.step (a := (1, .writer)) (by decide) rfl
  exact ⟨_, rfl, rfl, lock_progress h4 ⟨0, by decide⟩⟩

/-! ## After a crossing -/

/-- Once the crossing first reader has counted itself, nobody in a section ever moves again. -/
theorem crossed_stuck [Fintype ι] {s : LockState ι} (hinv : Inv s) {i j : ι}
    (hi : s.pc i = .writerEnterExclude) (hj : s.pc j = .readerEnterBlock) {k : ι}
    (hk : s.pc k ≠ .outside) : Stuck s k := by
  obtain ⟨hmutex, hcount, hwriter, hblock, hrelease⟩ := hinv
  have hle := holders_le s.pc
  have hholds : 0 < countAt PC.holdsReaderMutex s.pc := countAt_pos_of (i := j) (by simp [hj])
  have hwrites : 0 < countAt PC.holdsWriterMutex s.pc := countAt_pos_of (i := i) (by simp [hi])
  have hblocks : 0 < countAt PC.isBlocking s.pc := countAt_pos_of (i := j) (by simp [hj])
  have hcounted := hblock hblocks
  have hrm : s.file.readerMutex = 0 := by omega
  have hwm : s.file.writerMutex = 0 := by omega
  have honlyr : (s.pc k).holdsReaderMutex = true → k = j := fun h =>
    eq_of_countAt_le_one (by omega) h (by simp [hj])
  have honlyw : (s.pc k).holdsWriterMutex = true → k = i := fun h =>
    eq_of_countAt_le_one (by omega) h (by simp [hi])
  have honlyc : (s.pc k).isCounted = true → k = j := fun h =>
    eq_of_countAt_le_one (p := PC.isCounted) (by omega) h (by simp [hj])
  have hcases : k = j ∨ k = i ∨ s.pc k = .readerEnterLock ∨ s.pc k = .writerEnterLock := by
    cases hpc : s.pc k <;> simp_all
  intro role
  simp only [lockMachine, Option.map_eq_none_iff]
  rcases hcases with rfl | rfl | h | h
  · simp [hj, stepPC, hwm, semWait]
  · simp [hi, stepPC, hrm, semWait]
  · simp [h, stepPC, hrm, semWait]
  · simp [h, stepPC, hwm, semWait]

/-- A run that lets a first reader and a writer cross can be continued to a state in which all
    the processes that are in a section wait for each other. -/
theorem crossed_deadlocks [Fintype ι] {s : LockState ι} (h : (lockMachine ι).Reachable s)
    (hcross : Crossed s) :
    ∃ labels s', (lockMachine ι).exec s labels = some s' ∧ (∃ i, s'.pc i ≠ .outside) ∧
      ∀ i, s'.pc i ≠ .outside → Stuck s' i := by
  obtain ⟨i, j, hi, hblock | ⟨hcount, hzero⟩⟩ := hcross
  · exact ⟨[], s, rfl, ⟨i, by simp [hi]⟩, fun k hk =>
      crossed_stuck (inv_reachable h) hi hblock hk⟩
  · -- the reader still has to count itself: it finds that it is the first one
    have hij : i ≠ j := by
      rintro rfl
      simp [hi] at hcount
    let t : LockState ι :=
      ⟨{ s.file with readerCount := s.file.readerCount + 1 }, update s.pc j .readerEnterBlock⟩
    have hnext : (lockMachine ι).next s (j, .reader) = some t := by
      simp [lockMachine, hcount, stepPC, hzero, t]
    have hti : t.pc i = .writerEnterExclude := by simp [t, hij, hi]
    have htj : t.pc j = .readerEnterBlock := by simp [t]
    refine ⟨[(j, .reader)], t, by simp [Machine.exec, hnext], ⟨i, by simp [hti]⟩, fun k hk => ?_⟩
    exact crossed_stuck (inv_reachable (h.step hnext)) hti htj hk

/-- The run in which writer 0 takes `writer_mutex`, then reader 1 takes `reader_mutex` and counts
    itself, ends in a deadlock: the lock does not always make progress. -/
theorem lock_not_always_progress :
    ¬ ∀ s : LockState (Fin 2), (lockMachine (Fin 2)).Reachable s → (∃ i, s.pc i ≠ .outside) →
      ∃ i, s.pc i ≠ .outside ∧ ∃ role s', (lockMachine (Fin 2)).next s (i, role) = some s' := by
  intro hall
  obtain ⟨s, hs, h0, h1⟩ : ∃ s, (lockMachine (Fin 2)).exec (idle (Fin 2))
      [(0, .writer), (0, .writer), (1, .reader), (1, .reader), (1, .reader)] = some s ∧
      s.pc 0 = .writerEnterExclude ∧ s.pc 1 = .readerEnterBlock := ⟨_, rfl, rfl, rfl⟩
  have hreach := (idle_reachable (Fin 2)).exec _ hs
  obtain ⟨i, hi, role, s', hnext⟩ := hall s hreach ⟨0, by simp [h0]⟩
  rw [crossed_stuck (inv_reachable hreach) h0 h1 hi role] at hnext
  exact absurd hnext (by simp)

end SystemProgramming.Sync
