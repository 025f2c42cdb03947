import Mathlib.Data.Fintype.Basic
import Mathlib.Logic.Function.Basic

set_option autoImplicit false

/-! # Named pipes

A FIFO between the processes `ρ` that use its read end and the processes `ω` that use its write end.
An `open` for one direction completes when some process has the other direction open or is opening
it, and releases the processes that were blocked in an `open` for the other direction. A read blocks
on the empty pipe while somebody can write to it and returns 0 bytes otherwise. When the last
process closes the pipe, the data in it is discarded; `lost` keeps what was.

The operations are `none` where the call would not return (or would fail: a write without a
reader). -/

namespace SystemProgramming

open Function

/-- What a process has done with its end of a FIFO. -/
inductive FifoEnd
  | closed
  /-- blocked in `open` -/
  | opening
  | opened
deriving DecidableEq

/-- The other side has come: a blocked `open` completes. -/
def FifoEnd.release : FifoEnd → FifoEnd
  | opening => opened
  | e => e

/-- The bytes in the pipe, its two kinds of ends, and history: the bytes that were dropped with the
    last end. -/
structure Fifo (ρ ω β : Type*) where
  data : List β
  readers : ρ → FifoEnd
  writers : ω → FifoEnd
  lost : List β

namespace Fifo

variable {ρ ω β : Type*}

/-- `mkfifo`. -/
def empty : Fifo ρ ω β := ⟨[], fun _ => .closed, fun _ => .closed, []⟩

/-- Somebody has it open for reading, or is about to. -/
def HasReader (f : Fifo ρ ω β) : Prop := ∃ i, f.readers i ≠ .closed

/-- Somebody has it open for writing, or is about to. -/
def HasWriter (f : Fifo ρ ω β) : Prop := ∃ i, f.writers i ≠ .closed

instance [Fintype ρ] (f : Fifo ρ ω β) : Decidable f.HasReader :=
  inferInstanceAs (Decidable (∃ i, f.readers i ≠ .closed))

instance [Fintype ω] (f : Fifo ρ ω β) : Decidable f.HasWriter :=
  inferInstanceAs (Decidable (∃ i, f.writers i ≠ .closed))

/-- Process `i` enters `open(…, O_RDONLY)`. -/
def openRead [DecidableEq ρ] [Fintype ω] (f : Fifo ρ ω β) (i : ρ) : Fifo ρ ω β :=
  if f.HasWriter then
    { f with readers := update f.readers i .opened, writers := fun j => (f.writers j).release }
  else { f with readers := update f.readers i .opening }

/-- Process `i` enters `open(…, O_WRONLY)`. -/
def openWrite [Fintype ρ] [DecidableEq ω] (f : Fifo ρ ω β) (i : ω) : Fifo ρ ω β :=
  if f.HasReader then
    { f with writers := update f.writers i .opened, readers := fun j => (f.readers j).release }
  else { f with writers := update f.writers i .opening }

/-- `read` of up to `n` bytes. -/
def read [Fintype ω] (f : Fifo ρ ω β) (n : ℕ) : Option (List β × Fifo ρ ω β) :=
  if f.data = [] then
    if f.HasWriter then none else some ([], f)
  else some (f.data.take n, { f with data := f.data.drop n })

/-- A `write`; without a reader there is no step. -/
def write [Fintype ρ] (f : Fifo ρ ω β) (bytes : List β) : Option (Fifo ρ ω β) :=
  if f.HasReader then some { f with data := f.data ++ bytes } else none

/-- The data goes with the last process that has the pipe open. -/
def discard [Fintype ρ] [Fintype ω] (f : Fifo ρ ω β) : Fifo ρ ω β :=
  if f.HasReader ∨ f.HasWriter then f else { f with data := [], lost := f.lost ++ f.data }

/-- A `close` of an end for reading. -/
def closeRead [Fintype ρ] [Fintype ω] [DecidableEq ρ] (f : Fifo ρ ω β) (i : ρ) : Fifo ρ ω β :=
  { f with readers := update f.readers i .closed }.discard

/-- A `close` of an end for writing. -/
def closeWrite [Fintype ρ] [Fintype ω] [DecidableEq ω] (f : Fifo ρ ω β) (i : ω) : Fifo ρ ω β :=
  { f with writers := update f.writers i .closed }.discard

/-! ## What the calls do -/

theorem read_cases [Fintype ω] {f f' : Fifo ρ ω β} {n : ℕ} {bytes : List β}
    (h : f.read n = some (bytes, f')) :
    (f.data = [] ∧ ¬ f.HasWriter ∧ bytes = [] ∧ f' = f) ∨
      (f.data ≠ [] ∧ bytes = f.data.take n ∧ f' = { f with data := f.data.drop n }) := by
  unfold read at h
  split at h
  · next hdata =>
      rw [Option.ite_none_left_eq_some] at h
      obtain ⟨hwriter, heq⟩ := h
      obtain ⟨rfl, rfl⟩ := Prod.mk.inj (Option.some.inj heq)
      exact Or.inl ⟨hdata, hwriter, rfl, rfl⟩
  · next hdata =>
      obtain ⟨rfl, rfl⟩ := Prod.mk.inj (Option.some.inj h)
      exact Or.inr ⟨hdata, rfl, rfl⟩

theorem write_eq_some [Fintype ρ] {f f' : Fifo ρ ω β} {bytes : List β} :
    f.write bytes = some f' ↔ f.HasReader ∧ f' = { f with data := f.data ++ bytes } := by
  rw [write, Option.ite_none_right_eq_some, Option.some.injEq, eq_comm (a := f')]

@[simp] theorem discard_readers [Fintype ρ] [Fintype ω] (f : Fifo ρ ω β) :
    f.discard.readers = f.readers := by
  unfold discard
  split <;> rfl

@[simp] theorem discard_writers [Fintype ρ] [Fintype ω] (f : Fifo ρ ω β) :
    f.discard.writers = f.writers := by
  unfold discard
  split <;> rfl

/-- Nothing is discarded from an empty pipe or while somebody has the pipe open. -/
theorem discard_eq_self [Fintype ρ] [Fintype ω] {f : Fifo ρ ω β}
    (h : f.data = [] ∨ f.HasReader ∨ f.HasWriter) : f.discard = f := by
  unfold discard
  split
  · rfl
  · next hnobody =>
      have hdata : f.data = [] := h.resolve_right hnobody
      rw [hdata, List.append_nil]
      cases f
      simp_all

/-! ## Who has an end

An `open` gives the process its end and takes no other process's end away. -/

@[simp] theorem release_eq_closed {e : FifoEnd} : e.release = .closed ↔ e = .closed := by
  cases e <;> simp [FifoEnd.release]

theorem openRead_self [DecidableEq ρ] [Fintype ω] (f : Fifo ρ ω β) (i : ρ) :
    (f.openRead i).readers i ≠ .closed := by
  unfold openRead
  split <;> simp

theorem openRead_writers [DecidableEq ρ] [Fintype ω] (f : Fifo ρ ω β) (i : ρ) (j : ω) :
    (f.openRead i).writers j = .closed ↔ f.writers j = .closed := by
  unfold openRead
  split <;> simp

theorem openRead_opened [DecidableEq ρ] [Fintype ω] {f : Fifo ρ ω β} {i : ρ}
    (h : (f.openRead i).readers i = .opened) : f.HasWriter := by
  unfold openRead at h
  split at h
  · assumption
  · simp at h

@[simp] theorem openRead_data [DecidableEq ρ] [Fintype ω] (f : Fifo ρ ω β) (i : ρ) :
    (f.openRead i).data = f.data := by
  unfold openRead
  split <;> rfl

theorem openWrite_self [Fintype ρ] [DecidableEq ω] (f : Fifo ρ ω β) (i : ω) :
    (f.openWrite i).writers i ≠ .closed := by
  unfold openWrite
  split <;> simp

theorem openWrite_of_ne [Fintype ρ] [DecidableEq ω] (f : Fifo ρ ω β) {i j : ω} (h : j ≠ i) :
    (f.openWrite i).writers j = f.writers j := by
  unfold openWrite
  split <;> simp [update_of_ne h]

theorem openWrite_readers [Fintype ρ] [DecidableEq ω] (f : Fifo ρ ω β) (i : ω) (j : ρ) :
    (f.openWrite i).readers j = .closed ↔ f.readers j = .closed := by
  unfold openWrite
  split <;> simp

theorem openWrite_opened [Fintype ρ] [DecidableEq ω] {f : Fifo ρ ω β} {i : ω}
    (h : (f.openWrite i).writers i = .opened) : f.HasReader := by
  unfold openWrite at h
  split at h
  · assumption
  · simp at h

@[simp] theorem openWrite_data [Fintype ρ] [DecidableEq ω] (f : Fifo ρ ω β) (i : ω) :
    (f.openWrite i).data = f.data := by
  unfold openWrite
  split <;> rfl

@[simp] theorem closeRead_writers [Fintype ρ] [Fintype ω] [DecidableEq ρ] (f : Fifo ρ ω β)
    (i : ρ) : (f.closeRead i).writers = f.writers :=
  discard_writers _

@[simp] theorem closeWrite_readers [Fintype ρ] [Fintype ω] [DecidableEq ω] (f : Fifo ρ ω β)
    (i : ω) : (f.closeWrite i).readers = f.readers :=
  discard_readers _

theorem closeWrite_of_ne [Fintype ρ] [Fintype ω] [DecidableEq ω] (f : Fifo ρ ω β) {i j : ω}
    (h : j ≠ i) : (f.closeWrite i).writers j = f.writers j := by
  rw [closeWrite, discard_writers]
  exact update_of_ne h _ _

/-! ## A pipe between two processes -/

/-- The pipe with this data between one reader and one writer. -/
def pipe (data : List β) (reader writer : FifoEnd) : Fifo Unit Unit β :=
  ⟨data, fun _ => reader, fun _ => writer, []⟩

@[simp] theorem readers_pipe (data : List β) (r w : FifoEnd) : (pipe data r w).readers () = r := rfl

@[simp] theorem writers_pipe (data : List β) (r w : FifoEnd) : (pipe data r w).writers () = w := rfl

theorem hasReader_pipe {data : List β} {r w : FifoEnd} :
    (pipe data r w).HasReader ↔ r ≠ .closed := by
  simp [HasReader, pipe]

theorem hasWriter_pipe {data : List β} {r w : FifoEnd} :
    (pipe data r w).HasWriter ↔ w ≠ .closed := by
  simp [HasWriter, pipe]

theorem update_unit {α : Type*} (f : Unit → α) (x : α) : update f () x = fun _ => x :=
  funext fun _ => update_self ..

/-- The first to open a pipe waits for the other. -/
theorem openRead_pipe_closed (data : List β) (r : FifoEnd) :
    (pipe data r .closed).openRead () = pipe data .opening .closed := by
  rw [openRead, if_neg (by simp [hasWriter_pipe])]
  simp [pipe, update_unit]

theorem openRead_pipe_opening (data : List β) (r : FifoEnd) :
    (pipe data r .opening).openRead () = pipe data .opened .opened := by
  rw [openRead, if_pos (by simp [hasWriter_pipe])]
  simp [pipe, update_unit, FifoEnd.release]

theorem openWrite_pipe_closed (data : List β) (w : FifoEnd) :
    (pipe data .closed w).openWrite () = pipe data .closed .opening := by
  rw [openWrite, if_neg (by simp [hasReader_pipe])]
  simp [pipe, update_unit]

theorem openWrite_pipe_opening (data : List β) (w : FifoEnd) :
    (pipe data .opening w).openWrite () = pipe data .opened .opened := by
  rw [openWrite, if_pos (by simp [hasReader_pipe])]
  simp [pipe, update_unit, FifoEnd.release]

/-- Without a writer the empty pipe is at its end. -/
theorem read_pipe_end (r : FifoEnd) (n : ℕ) :
    (pipe ([] : List β) r .closed).read n = some ([], pipe [] r .closed) := by
  have hwriter : ¬ (pipe ([] : List β) r .closed).HasWriter := by simp [hasWriter_pipe]
  exact (if_pos rfl).trans (if_neg hwriter)

/-- With one a read of it waits. -/
theorem read_pipe_blocked {w : FifoEnd} (hw : w ≠ .closed) (r : FifoEnd) (n : ℕ) :
    (pipe ([] : List β) r w).read n = none :=
  (if_pos rfl).trans (if_pos (hasWriter_pipe.2 hw))

theorem read_pipe {data : List β} (hdata : data ≠ []) (r w : FifoEnd) (n : ℕ) :
    (pipe data r w).read n = some (data.take n, pipe (data.drop n) r w) := if_neg hdata

theorem write_pipe {r : FifoEnd} (hr : r ≠ .closed) (data : List β) (w : FifoEnd)
    (bytes : List β) : (pipe data r w).write bytes = some (pipe (data ++ bytes) r w) :=
  if_pos (hasReader_pipe.2 hr)

theorem closeRead_pipe {data : List β} {w : FifoEnd} (h : data = [] ∨ w ≠ .closed) (r : FifoEnd) :
    (pipe data r w).closeRead () = pipe data .closed w := by
  have hsame : closeRead (pipe data r w) () = (pipe data .closed w).discard := by
    simp [closeRead, pipe, update_unit]
  rw [hsame]
  exact discard_eq_self (h.imp id fun hw => .inr (hasWriter_pipe.2 hw))

theorem closeWrite_pipe {data : List β} {r : FifoEnd} (h : data = [] ∨ r ≠ .closed) (w : FifoEnd) :
    (pipe data r w).closeWrite () = pipe data r .closed := by
  have hsame : closeWrite (pipe data r w) () = (pipe data r .closed).discard := by
    simp [closeWrite, pipe, update_unit]
  rw [hsame]
  exact discard_eq_self (h.imp id fun hr => .inl (hasReader_pipe.2 hr))

end Fifo

end SystemProgramming
