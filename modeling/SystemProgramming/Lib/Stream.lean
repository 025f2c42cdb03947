import Mathlib.Data.List.Basic

set_option autoImplicit false

/-! # Output streams

A stream of stdio collects what is put into it and writes it later: when an element comes that ends
a block (`ends`: a newline in a line buffered stream, every element in an unbuffered one, none in a
fully buffered one), when its buffer is full, and when the process exits. A process that `fork` has
made has a copy of the buffer, so that what was not yet written is written by both. -/

namespace SystemProgramming

/-- A buffered stream: which characters end a block, how much its buffer holds, and what is in it. -/
structure Stream (β : Type*) where
  ends : β → Bool
  size : ℕ
  buffer : List β
  /-- what the process and its children have written -/
  written : List β

namespace Stream

variable {β : Type*}

/-- `fflush` -/
def flush (s : Stream β) : Stream β := { s with written := s.written ++ s.buffer, buffer := [] }

/-- `putc`: a full buffer is written first. -/
def put (s : Stream β) (c : β) : Stream β :=
  let room := if s.buffer.length < s.size then s else s.flush
  let filled := { room with buffer := room.buffer ++ [c] }
  if s.ends c then filled.flush else filled

/-- One element after the other. -/
def puts (s : Stream β) (text : List β) : Stream β := text.foldl put s

/-- The stream of a new process: a copy of the buffer. -/
def fork (s : Stream β) : Stream β := { s with written := [] }

/-- What a process has written when it has exited. -/
def exit (s : Stream β) : List β := s.flush.written

/-- A child has exited. -/
def wait (s : Stream β) (child : List β) : Stream β := { s with written := s.written ++ child }

/-- Nothing of a text stays in the buffer. -/
def Flushes (s : Stream β) (text : List β) : Prop := text = [] ∨ ∃ c ∈ text.getLast?, s.ends c = true

/-! ## What is written -/

theorem put_ends (s : Stream β) (c : β) : (s.put c).ends = s.ends := by
  unfold put
  dsimp only
  split <;> split <;> rfl

theorem puts_ends (s : Stream β) (text : List β) : (s.puts text).ends = s.ends := by
  induction text generalizing s with
  | nil => rfl
  | cons c text ih => exact (ih (s.put c)).trans (s.put_ends c)

theorem put_content (s : Stream β) (c : β) :
    (s.put c).written ++ (s.put c).buffer = s.written ++ s.buffer ++ [c] := by
  unfold put
  dsimp only
  split <;> split <;> simp [flush]

/-- Nothing is lost: what is not written is in the buffer. -/
theorem exit_puts (s : Stream β) (text : List β) : (s.puts text).exit = s.exit ++ text := by
  induction text generalizing s with
  | nil => exact (List.append_nil _).symm
  | cons c text ih =>
      have hrest : ((s.put c).puts text).exit = s.written ++ s.buffer ++ [c] ++ text := by
        rw [← put_content]
        exact ih (s.put c)
      rw [List.append_assoc _ [c], List.singleton_append] at hrest
      exact hrest

theorem put_buffer_eq_nil {s : Stream β} {c : β} : (s.put c).buffer = [] ↔ s.ends c = true := by
  unfold put
  dsimp only
  split
  · next h => exact iff_of_true rfl h
  · next h => exact iff_of_false (by simp) h

theorem puts_concat (s : Stream β) (text : List β) (c : β) :
    s.puts (text ++ [c]) = (s.puts text).put c := List.foldl_concat put s c text

theorem puts_buffer_eq_nil {s : Stream β} (hempty : s.buffer = []) {text : List β} :
    (s.puts text).buffer = [] ↔ s.Flushes text := by
  rcases List.eq_nil_or_concat text with rfl | ⟨init, c, rfl⟩
  · exact iff_of_true hempty (.inl rfl)
  · rw [List.concat_eq_append, puts_concat, put_buffer_eq_nil, puts_ends]
    simp [Flushes]

/-! ## A child that exits -/

/-- A process that puts a text, waits for a child that puts nothing, and exits: what it has
    inherited, the text, and again what was in the buffer. -/
theorem exit_child (s : Stream β) (text : List β) :
    ((s.fork.puts text).wait (s.fork.puts text).fork.exit).exit =
      s.buffer ++ text ++ (s.fork.puts text).buffer := by
  have hcontent : (s.fork.puts text).written ++ (s.fork.puts text).buffer = s.buffer ++ text :=
    s.fork.exit_puts text
  rw [← hcontent]
  rfl

end Stream

end SystemProgramming
