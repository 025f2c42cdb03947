import Mathlib.Data.List.Basic

set_option autoImplicit false

/-! # Bytes in memory

`read` and `write` move the bytes of an `int`; a short `read` leaves the bytes it does not deliver
as they were. A loop of `read` calls delivers bytes in chunks. -/

namespace SystemProgramming

/-- A byte. -/
abbrev Byte := BitVec 8

/-- The bytes of an `int` in memory. -/
def intBytes (x : BitVec 32) : List Byte :=
  [x.extractLsb' 0 8, x.extractLsb' 8 8, x.extractLsb' 16 8, x.extractLsb' 24 8]

/-- The `int` whose bytes these are. -/
def intOfBytes (bytes : List Byte) : BitVec 32 :=
  bytes.getD 3 0 ++ (bytes.getD 2 0 ++ (bytes.getD 1 0 ++ bytes.getD 0 0))

/-- Memory after a `read` that delivered `bytes` to its start. -/
def overwrite {β : Type*} (memory bytes : List β) : List β := bytes ++ memory.drop bytes.length

/-- Bytes that are put behind those that have overwritten the start. -/
theorem overwrite_append {β : Type*} (memory bytes bytes' : List β) :
    (overwrite memory bytes).take bytes.length
        ++ overwrite ((overwrite memory bytes).drop bytes.length) bytes'
      = overwrite memory (bytes ++ bytes') := by
  simp [overwrite, List.append_assoc]

/-- What calls of `read(fd, buffer, size)` deliver of some bytes, `buffer` being filled so far, when
    each delivers as much as it can. -/
def chunksFrom {β : Type*} (size : ℕ) (buffer : List β) : List β → List (List β)
  | [] => if buffer = [] then [] else [buffer]
  | b :: bytes =>
      if buffer.length + 1 = size then (buffer ++ [b]) :: chunksFrom size [] bytes
      else chunksFrom size (buffer ++ [b]) bytes

theorem chunksFrom_flatten {β : Type*} (size : ℕ) (buffer bytes : List β) :
    (chunksFrom size buffer bytes).flatten = buffer ++ bytes := by
  induction bytes generalizing buffer with
  | nil =>
      rw [chunksFrom]
      split <;> simp_all
  | cons b bytes ih =>
      rw [chunksFrom]
      split
      · rw [List.flatten_cons, ih, List.append_assoc, List.nil_append, List.singleton_append]
      · rw [ih, List.append_assoc, List.singleton_append]

theorem chunksFrom_size {β : Type*} {size : ℕ} {buffer : List β} (hsize : buffer.length < size)
    (bytes : List β) : ∀ c ∈ chunksFrom size buffer bytes, c ≠ [] ∧ c.length ≤ size := by
  induction bytes generalizing buffer with
  | nil =>
      intro c hc
      rw [chunksFrom] at hc
      split at hc
      · cases hc
      · rw [List.mem_singleton.1 hc]
        exact ⟨‹_›, Nat.le_of_lt hsize⟩
  | cons b bytes ih =>
      intro c hc
      rw [chunksFrom] at hc
      split at hc
      · rename_i hfull
        rcases List.mem_cons.1 hc with rfl | hc
        · simp [hfull]
        · have hroom : ([] : List β).length < size := Nat.zero_lt_of_lt hsize
          exact ih hroom c hc
      · exact ih (by simp; omega) c hc

@[simp] theorem intBytes_length (x : BitVec 32) : (intBytes x).length = 4 := rfl

theorem intOfBytes_intBytes (x : BitVec 32) : intOfBytes (intBytes x) = x := by
  refine BitVec.eq_of_getLsbD_eq ?_
  intro i hi
  simp only [intOfBytes, intBytes, List.getD_cons_zero, List.getD_cons_succ]
  simp only [BitVec.getLsbD_append, BitVec.getLsbD_extractLsb']
  grind

/-- A full `read` of an `int` stores it. -/
theorem intOfBytes_overwrite (old x : BitVec 32) :
    intOfBytes (overwrite (intBytes old) (intBytes x)) = x := by
  simp only [overwrite, intBytes_length]
  rw [List.drop_eq_nil_of_le (by simp), List.append_nil, intOfBytes_intBytes]

end SystemProgramming
