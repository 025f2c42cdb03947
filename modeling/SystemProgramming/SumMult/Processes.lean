import Mathlib.Algebra.BigOperators.Group.List.Basic
import SystemProgramming.Lib.Bytes
import SystemProgramming.Lib.Fifo
import SystemProgramming.Lib.Machine

set_option autoImplicit false

/-! # Parent and children of HW2

The parent writes the array and the command into FIFO2 and the array into FIFO1; child 1 reads the
array from FIFO1 and writes its sum into FIFO2; child 2 reads the array and the command from FIFO2,
closes it, opens it again and reads the sum.

Each system call on a FIFO is one step of `sumMachine`, an `open` two of them: entering it and
returning from it. System calls do not fail, so a write is no step while nobody has the FIFO open
for reading, and the error paths of `main` are left out. So is what the parent does after its last
system call on a FIFO, the wait for its children. -/

namespace SystemProgramming.SumMult

/-- `"multiply"` with its terminator. -/
def multiplyBytes : List Byte := [109, 117, 108, 116, 105, 112, 108, 121, 0]

/-- Where the parent is, with the loop counter; a loop that has ended goes on with the next call. -/
inductive ParentPC
  | openFifo2
  | writeArray2 (i : ℕ)
  | closeFifo2
  | openFifo1
  | writeArray1 (i : ℕ)
  | waiting
deriving DecidableEq

/-- Where child 1 is. -/
inductive Child1PC
  | openFifo1
  | readArray1 (i : ℕ)
  | openFifo2
  | writeSum
  | closeFifo2
  | exited
deriving DecidableEq

/-- Where child 2 is. -/
inductive Child2PC
  | openFifo2
  | readArray2 (i : ℕ)
  /-- about to close FIFO2 and to compare the command -/
  | closeCommand
  | reopenFifo2
  | readSum
  | closeSum
  /-- behind the last `printf` -/
  | printed
  /-- the command is invalid -/
  | failed
deriving DecidableEq

/-- The two writers of FIFO2. -/
inductive Fifo2Writer
  | parent
  | child1
deriving DecidableEq

instance : Fintype Fifo2Writer := ⟨{.parent, .child1}, fun w => by cases w <;> decide⟩

/-- The program counters, the FIFOs and the locals of the children. -/
structure SumState where
  parent : ParentPC
  child1 : Child1PC
  child2 : Child2PC
  /-- child 1 reads, the parent writes -/
  fifo1 : Fifo Unit Unit Byte
  /-- child 2 reads, the parent and child 1 write -/
  fifo2 : Fifo Unit Fifo2Writer Byte
  /-- `sum` and `num` of child 1 -/
  sum1 : BitVec 32
  num1 : BitVec 32
  /-- `array2`, as far as it is filled, `num`, `command`, `result` and `sum` of child 2 -/
  array2 : List (BitVec 32)
  num2 : BitVec 32
  command : List Byte
  result : BitVec 32
  sum2 : BitVec 32
  /-- history: what the read of the command has returned -/
  commandRead : List Byte

/-- The three processes. -/
inductive Proc
  | parent
  | child1
  | child2

/-- A turn of a process at an `open`: it enters the call or returns from it, or it is blocked. -/
def openTurn (fifoEnd : FifoEnd) (entered returned : SumState) : Option SumState :=
  match fifoEnd with
  | .closed => some entered
  | .opening => none
  | .opened => some returned

/-- A step of the parent: the array and the command into FIFO2, the array into FIFO1. -/
def parentTurn (array : List (BitVec 32)) (s : SumState) : Option SumState :=
  match s.parent with
  | .openFifo2 =>
      openTurn (s.fifo2.writers .parent) { s with fifo2 := s.fifo2.openWrite .parent }
        { s with parent := .writeArray2 0 }
  | .writeArray2 i =>
      match array[i]? with
      | some x =>
          (s.fifo2.write (intBytes x)).map fun fifo2 =>
            { s with fifo2 := fifo2, parent := .writeArray2 (i + 1) }
      | none =>
          (s.fifo2.write multiplyBytes).map fun fifo2 =>
            { s with fifo2 := fifo2, parent := .closeFifo2 }
  | .closeFifo2 => some { s with fifo2 := s.fifo2.closeWrite .parent, parent := .openFifo1 }
  | .openFifo1 =>
      openTurn (s.fifo1.writers ()) { s with fifo1 := s.fifo1.openWrite () }
        { s with parent := .writeArray1 0 }
  | .writeArray1 i =>
      match array[i]? with
      | some x =>
          (s.fifo1.write (intBytes x)).map fun fifo1 =>
            { s with fifo1 := fifo1, parent := .writeArray1 (i + 1) }
      | none => some { s with fifo1 := s.fifo1.closeWrite (), parent := .waiting }
  | .waiting => none

/-- The value of an `int` after `read(fd, &x, sizeof(int))` returned these bytes. -/
def readInt (x : BitVec 32) (bytes : List Byte) : BitVec 32 :=
  intOfBytes (overwrite (intBytes x) bytes)

/-- A step of child 1: the array from FIFO1, its sum into FIFO2. -/
def child1Turn (size : ℕ) (s : SumState) : Option SumState :=
  match s.child1 with
  | .openFifo1 =>
      openTurn (s.fifo1.readers ()) { s with fifo1 := s.fifo1.openRead () }
        { s with child1 := .readArray1 0 }
  | .readArray1 i =>
      if i < size then
        (s.fifo1.read 4).map fun (bytes, fifo1) =>
          { s with fifo1 := fifo1, num1 := readInt s.num1 bytes,
                   sum1 := s.sum1 + readInt s.num1 bytes, child1 := .readArray1 (i + 1) }
      else some { s with fifo1 := s.fifo1.closeRead (), child1 := .openFifo2 }
  | .openFifo2 =>
      openTurn (s.fifo2.writers .child1) { s with fifo2 := s.fifo2.openWrite .child1 }
        { s with child1 := .writeSum }
  | .writeSum =>
      (s.fifo2.write (intBytes s.sum1)).map fun fifo2 =>
        { s with fifo2 := fifo2, child1 := .closeFifo2 }
  | .closeFifo2 => some { s with fifo2 := s.fifo2.closeWrite .child1, child1 := .exited }
  | .exited => none

/-- `strcmp(command, "multiply") == 0`; `strcmp` looks no further than the terminator. -/
def isMultiply (command : List Byte) : Bool := command.take multiplyBytes.length = multiplyBytes

/-- A step of child 2: the array and the command from FIFO2, the product, and the sum from FIFO2,
    which is opened again. -/
def child2Turn (size : ℕ) (s : SumState) : Option SumState :=
  match s.child2 with
  | .openFifo2 =>
      openTurn (s.fifo2.readers ()) { s with fifo2 := s.fifo2.openRead () }
        { s with child2 := .readArray2 0 }
  | .readArray2 i =>
      if i < size then
        (s.fifo2.read 4).map fun (bytes, fifo2) =>
          { s with fifo2 := fifo2, num2 := readInt s.num2 bytes,
                   array2 := s.array2 ++ [readInt s.num2 bytes], child2 := .readArray2 (i + 1) }
      else
        (s.fifo2.read 20).map fun (bytes, fifo2) =>
          { s with fifo2 := fifo2, command := overwrite s.command bytes, commandRead := bytes,
                   child2 := .closeCommand }
  | .closeCommand =>
      if isMultiply s.command then
        some { s with fifo2 := s.fifo2.closeRead (), result := s.array2.foldl (· * ·) 1,
                      child2 := .reopenFifo2 }
      else some { s with fifo2 := s.fifo2.closeRead (), result := 1, child2 := .failed }
  | .reopenFifo2 =>
      openTurn (s.fifo2.readers ()) { s with fifo2 := s.fifo2.openRead () }
        { s with child2 := .readSum }
  | .readSum =>
      (s.fifo2.read 4).map fun (bytes, fifo2) =>
        { s with fifo2 := fifo2, sum2 := readInt s.sum2 bytes, child2 := .closeSum }
  | .closeSum => some { s with fifo2 := s.fifo2.closeRead (), child2 := .printed }
  | .printed | .failed => none

/-- The three processes after the forks; the locals without an initialiser hold anything. -/
def sumMachine (array : List (BitVec 32)) : Machine SumState Proc where
  init s :=
    s.parent = .openFifo2 ∧ s.child1 = .openFifo1 ∧ s.child2 = .openFifo2 ∧
      s.fifo1 = .empty ∧ s.fifo2 = .empty ∧ s.sum1 = 0 ∧ s.array2 = [] ∧ s.command.length = 20
  next s
    | .parent => parentTurn array s
    | .child1 => child1Turn array.length s
    | .child2 => child2Turn array.length s

/-! ## What a step can do -/

/-- The steps of the program, one constructor for each way a step can go. -/
inductive SumStep (array : List (BitVec 32)) (s : SumState) : Proc → SumState → Prop
  | parentEnters2 (h : s.parent = .openFifo2) (he : s.fifo2.writers .parent = .closed) :
      SumStep array s .parent { s with fifo2 := s.fifo2.openWrite .parent }
  | parentOpens2 (h : s.parent = .openFifo2) (he : s.fifo2.writers .parent = .opened) :
      SumStep array s .parent { s with parent := .writeArray2 0 }
  | parentWrites2 (i : ℕ) (x : BitVec 32) (fifo2 : Fifo Unit Fifo2Writer Byte)
      (h : s.parent = .writeArray2 i) (hx : array[i]? = some x)
      (hwrite : s.fifo2.write (intBytes x) = some fifo2) :
      SumStep array s .parent { s with fifo2 := fifo2, parent := .writeArray2 (i + 1) }
  | parentCommands (i : ℕ) (fifo2 : Fifo Unit Fifo2Writer Byte)
      (h : s.parent = .writeArray2 i) (hi : array.length ≤ i)
      (hwrite : s.fifo2.write multiplyBytes = some fifo2) :
      SumStep array s .parent { s with fifo2 := fifo2, parent := .closeFifo2 }
  | parentCloses2 (h : s.parent = .closeFifo2) :
      SumStep array s .parent { s with fifo2 := s.fifo2.closeWrite .parent, parent := .openFifo1 }
  | parentEnters1 (h : s.parent = .openFifo1) (he : s.fifo1.writers () = .closed) :
      SumStep array s .parent { s with fifo1 := s.fifo1.openWrite () }
  | parentOpens1 (h : s.parent = .openFifo1) (he : s.fifo1.writers () = .opened) :
      SumStep array s .parent { s with parent := .writeArray1 0 }
  | parentWrites1 (i : ℕ) (x : BitVec 32) (fifo1 : Fifo Unit Unit Byte)
      (h : s.parent = .writeArray1 i) (hx : array[i]? = some x)
      (hwrite : s.fifo1.write (intBytes x) = some fifo1) :
      SumStep array s .parent { s with fifo1 := fifo1, parent := .writeArray1 (i + 1) }
  | parentCloses1 (i : ℕ) (h : s.parent = .writeArray1 i) (hi : array.length ≤ i) :
      SumStep array s .parent { s with fifo1 := s.fifo1.closeWrite (), parent := .waiting }
  | child1Enters1 (h : s.child1 = .openFifo1) (he : s.fifo1.readers () = .closed) :
      SumStep array s .child1 { s with fifo1 := s.fifo1.openRead () }
  | child1Opens1 (h : s.child1 = .openFifo1) (he : s.fifo1.readers () = .opened) :
      SumStep array s .child1 { s with child1 := .readArray1 0 }
  | child1Reads (i : ℕ) (bytes : List Byte) (fifo1 : Fifo Unit Unit Byte)
      (h : s.child1 = .readArray1 i) (hi : i < array.length)
      (hread : s.fifo1.read 4 = some (bytes, fifo1)) :
      SumStep array s .child1 { s with
        fifo1 := fifo1, num1 := readInt s.num1 bytes, sum1 := s.sum1 + readInt s.num1 bytes,
        child1 := .readArray1 (i + 1) }
  | child1Closes1 (i : ℕ) (h : s.child1 = .readArray1 i) (hi : array.length ≤ i) :
      SumStep array s .child1 { s with fifo1 := s.fifo1.closeRead (), child1 := .openFifo2 }
  | child1Enters2 (h : s.child1 = .openFifo2) (he : s.fifo2.writers .child1 = .closed) :
      SumStep array s .child1 { s with fifo2 := s.fifo2.openWrite .child1 }
  | child1Opens2 (h : s.child1 = .openFifo2) (he : s.fifo2.writers .child1 = .opened) :
      SumStep array s .child1 { s with child1 := .writeSum }
  | child1Writes (fifo2 : Fifo Unit Fifo2Writer Byte) (h : s.child1 = .writeSum)
      (hwrite : s.fifo2.write (intBytes s.sum1) = some fifo2) :
      SumStep array s .child1 { s with fifo2 := fifo2, child1 := .closeFifo2 }
  | child1Closes2 (h : s.child1 = .closeFifo2) :
      SumStep array s .child1 { s with fifo2 := s.fifo2.closeWrite .child1, child1 := .exited }
  | child2Enters (h : s.child2 = .openFifo2) (he : s.fifo2.readers () = .closed) :
      SumStep array s .child2 { s with fifo2 := s.fifo2.openRead () }
  | child2Opens (h : s.child2 = .openFifo2) (he : s.fifo2.readers () = .opened) :
      SumStep array s .child2 { s with child2 := .readArray2 0 }
  | child2Reads (i : ℕ) (bytes : List Byte) (fifo2 : Fifo Unit Fifo2Writer Byte)
      (h : s.child2 = .readArray2 i) (hi : i < array.length)
      (hread : s.fifo2.read 4 = some (bytes, fifo2)) :
      SumStep array s .child2 { s with
        fifo2 := fifo2, num2 := readInt s.num2 bytes,
        array2 := s.array2 ++ [readInt s.num2 bytes], child2 := .readArray2 (i + 1) }
  | child2Commanded (i : ℕ) (bytes : List Byte) (fifo2 : Fifo Unit Fifo2Writer Byte)
      (h : s.child2 = .readArray2 i) (hi : array.length ≤ i)
      (hread : s.fifo2.read 20 = some (bytes, fifo2)) :
      SumStep array s .child2 { s with
        fifo2 := fifo2, command := overwrite s.command bytes, commandRead := bytes,
        child2 := .closeCommand }
  | child2Multiplies (h : s.child2 = .closeCommand) (hc : isMultiply s.command = true) :
      SumStep array s .child2 { s with
        fifo2 := s.fifo2.closeRead (), result := s.array2.foldl (· * ·) 1,
        child2 := .reopenFifo2 }
  | child2Fails (h : s.child2 = .closeCommand) (hc : isMultiply s.command = false) :
      SumStep array s .child2 { s with
        fifo2 := s.fifo2.closeRead (), result := 1, child2 := .failed }
  | child2Reenters (h : s.child2 = .reopenFifo2) (he : s.fifo2.readers () = .closed) :
      SumStep array s .child2 { s with fifo2 := s.fifo2.openRead () }
  | child2Reopens (h : s.child2 = .reopenFifo2) (he : s.fifo2.readers () = .opened) :
      SumStep array s .child2 { s with child2 := .readSum }
  | child2ReadsSum (bytes : List Byte) (fifo2 : Fifo Unit Fifo2Writer Byte)
      (h : s.child2 = .readSum) (hread : s.fifo2.read 4 = some (bytes, fifo2)) :
      SumStep array s .child2 { s with
        fifo2 := fifo2, sum2 := readInt s.sum2 bytes, child2 := .closeSum }
  | child2Closes (h : s.child2 = .closeSum) :
      SumStep array s .child2 { s with fifo2 := s.fifo2.closeRead (), child2 := .printed }

theorem openTurn_cases {fifoEnd : FifoEnd} {entered returned s' : SumState}
    (h : openTurn fifoEnd entered returned = some s') :
    (fifoEnd = .closed ∧ s' = entered) ∨ (fifoEnd = .opened ∧ s' = returned) := by
  cases fifoEnd <;> simp [openTurn] at h <;> simp [h]

theorem sumStep_of_parentTurn {array : List (BitVec 32)} {s s' : SumState}
    (h : parentTurn array s = some s') : SumStep array s .parent s' := by
  unfold parentTurn at h
  split at h
  · next hp =>
      rcases openTurn_cases h with ⟨he, rfl⟩ | ⟨he, rfl⟩
      · exact .parentEnters2 hp he
      · exact .parentOpens2 hp he
  · next i hp =>
      split at h
      · next x hx =>
          obtain ⟨fifo2, hwrite, rfl⟩ := Option.map_eq_some_iff.1 h
          exact .parentWrites2 i x fifo2 hp hx hwrite
      · next hx =>
          obtain ⟨fifo2, hwrite, rfl⟩ := Option.map_eq_some_iff.1 h
          exact .parentCommands i fifo2 hp (List.getElem?_eq_none_iff.1 hx) hwrite
  · next hp =>
      obtain rfl := Option.some.inj h
      exact .parentCloses2 hp
  · next hp =>
      rcases openTurn_cases h with ⟨he, rfl⟩ | ⟨he, rfl⟩
      · exact .parentEnters1 hp he
      · exact .parentOpens1 hp he
  · next i hp =>
      split at h
      · next x hx =>
          obtain ⟨fifo1, hwrite, rfl⟩ := Option.map_eq_some_iff.1 h
          exact .parentWrites1 i x fifo1 hp hx hwrite
      · next hx =>
          obtain rfl := Option.some.inj h
          exact .parentCloses1 i hp (List.getElem?_eq_none_iff.1 hx)
  · exact absurd h (by simp)

theorem sumStep_of_child1Turn {array : List (BitVec 32)} {s s' : SumState}
    (h : child1Turn array.length s = some s') : SumStep array s .child1 s' := by
  unfold child1Turn at h
  split at h
  · next hp =>
      rcases openTurn_cases h with ⟨he, rfl⟩ | ⟨he, rfl⟩
      · exact .child1Enters1 hp he
      · exact .child1Opens1 hp he
  · next i hp =>
      split at h
      · next hi =>
          obtain ⟨⟨bytes, fifo1⟩, hread, rfl⟩ := Option.map_eq_some_iff.1 h
          exact .child1Reads i bytes fifo1 hp hi hread
      · next hi =>
          obtain rfl := Option.some.inj h
          exact .child1Closes1 i hp (Nat.le_of_not_lt hi)
  · next hp =>
      rcases openTurn_cases h with ⟨he, rfl⟩ | ⟨he, rfl⟩
      · exact .child1Enters2 hp he
      · exact .child1Opens2 hp he
  · next hp =>
      obtain ⟨fifo2, hwrite, rfl⟩ := Option.map_eq_some_iff.1 h
      exact .child1Writes fifo2 hp hwrite
  · next hp =>
      obtain rfl := Option.some.inj h
      exact .child1Closes2 hp
  · exact absurd h (by simp)

theorem sumStep_of_child2Turn {array : List (BitVec 32)} {s s' : SumState}
    (h : child2Turn array.length s = some s') : SumStep array s .child2 s' := by
  unfold child2Turn at h
  split at h
  · next hp =>
      rcases openTurn_cases h with ⟨he, rfl⟩ | ⟨he, rfl⟩
      · exact .child2Enters hp he
      · exact .child2Opens hp he
  · next i hp =>
      split at h
      · next hi =>
          obtain ⟨⟨bytes, fifo2⟩, hread, rfl⟩ := Option.map_eq_some_iff.1 h
          exact .child2Reads i bytes fifo2 hp hi hread
      · next hi =>
          obtain ⟨⟨bytes, fifo2⟩, hread, rfl⟩ := Option.map_eq_some_iff.1 h
          exact .child2Commanded i bytes fifo2 hp (Nat.le_of_not_lt hi) hread
  · next hp =>
      split at h
      · next hc =>
          obtain rfl := Option.some.inj h
          exact .child2Multiplies hp hc
      · next hc =>
          obtain rfl := Option.some.inj h
          exact .child2Fails hp (by simpa using hc)
  · next hp =>
      rcases openTurn_cases h with ⟨he, rfl⟩ | ⟨he, rfl⟩
      · exact .child2Reenters hp he
      · exact .child2Reopens hp he
  · next hp =>
      obtain ⟨⟨bytes, fifo2⟩, hread, rfl⟩ := Option.map_eq_some_iff.1 h
      exact .child2ReadsSum bytes fifo2 hp hread
  · next hp =>
      obtain rfl := Option.some.inj h
      exact .child2Closes hp
  · exact absurd h (by simp)
  · exact absurd h (by simp)

theorem sumStep_of_next {array : List (BitVec 32)} {s s' : SumState} {p : Proc}
    (h : (sumMachine array).next s p = some s') : SumStep array s p s' := by
  cases p with
  | parent => exact sumStep_of_parentTurn h
  | child1 => exact sumStep_of_child1Turn h
  | child2 => exact sumStep_of_child2Turn h

end SystemProgramming.SumMult
