import SystemProgramming.SumMult.Ends

set_option autoImplicit false

/-! # When the sum is delivered

Nothing in the program makes child 1 wait with the sum until child 2 has read the command and opened
FIFO2 again. `Disciplined` says which orders of the steps go well, and `sum_delivered` that the sum
arrives in every run that keeps to them. -/

namespace SystemProgramming.SumMult

open Function

/-- The sum that child 1 computes from the array. -/
def arraySum (array : List (BitVec 32)) : BitVec 32 := array.foldl (· + ·) 0

/-- The bytes of the integers of a list. -/
def arrayBytes (array : List (BitVec 32)) : List Byte := array.flatMap intBytes

/-! ## How far the processes are -/

/-- The integers the parent has written into FIFO1, of an array of `n`. -/
def ParentPC.sent1 (n : ℕ) : ParentPC → ℕ
  | writeArray1 i => i
  | waiting => n
  | _ => 0

/-- The integers the parent has written into FIFO2. -/
def ParentPC.sent2 (n : ℕ) : ParentPC → ℕ
  | openFifo2 => 0
  | writeArray2 i => i
  | _ => n

/-- The parent has written the command. -/
def ParentPC.sentCommand : ParentPC → Bool
  | openFifo2 | writeArray2 _ => false
  | _ => true

/-- The integers child 1 has read. -/
def Child1PC.received (n : ℕ) : Child1PC → ℕ
  | openFifo1 => 0
  | readArray1 i => i
  | _ => n

/-- Child 1 has written its sum. -/
def Child1PC.wroteSum : Child1PC → Bool
  | closeFifo2 | exited => true
  | _ => false

/-- The integers child 2 has read. -/
def Child2PC.received (n : ℕ) : Child2PC → ℕ
  | openFifo2 => 0
  | readArray2 i => i
  | _ => n

/-- Child 2 has read the command. -/
def Child2PC.readCommand : Child2PC → Bool
  | openFifo2 | readArray2 _ => false
  | _ => true

/-- Child 2 has read the sum. -/
def Child2PC.gotSum : Child2PC → Bool
  | closeSum | printed => true
  | _ => false

/-- Child 2 has returned from its second `open` of FIFO2. -/
def Child2PC.reopened : Child2PC → Bool
  | readSum | closeSum | printed => true
  | _ => false

/-! ## FIFO1 -/

/-- FIFO1 holds the integers that the parent has written and child 1 has not read. -/
structure ArrayInv (array : List (BitVec 32)) (s : SumState) : Prop where
  received_le : s.child1.received array.length ≤ s.parent.sent1 array.length
  sent_le : s.parent.sent1 array.length ≤ array.length
  data_eq : s.fifo1.data =
    arrayBytes ((array.take (s.parent.sent1 array.length)).drop (s.child1.received array.length))
  sum_eq : s.sum1 = arraySum (array.take (s.child1.received array.length))

theorem arraySum_take_succ {array : List (BitVec 32)} {i : ℕ} {x : BitVec 32}
    (hx : array[i]? = some x) : arraySum (array.take (i + 1)) = arraySum (array.take i) + x := by
  rw [List.take_add_one, hx, arraySum, List.foldl_append]
  rfl

/-- One more integer is written behind those that are still to read. -/
theorem arrayBytes_write {array : List (BitVec 32)} {i j : ℕ} {x : BitVec 32}
    (hx : array[i]? = some x) (hj : j ≤ i) :
    arrayBytes ((array.take (i + 1)).drop j) = arrayBytes ((array.take i).drop j) ++ intBytes x := by
  have hlen : i < array.length := (List.getElem?_eq_some_iff.1 hx).1
  rw [List.take_add_one, hx, List.drop_append_of_le_length (by simp; omega), arrayBytes,
    List.flatMap_append]
  simp [arrayBytes]

/-- The next integer to read is at the front. -/
theorem arrayBytes_read {array : List (BitVec 32)} {i j : ℕ} (hj : j < i) (hi : i ≤ array.length) :
    ∃ x, array[j]? = some x ∧ arrayBytes ((array.take i).drop j) =
      intBytes x ++ arrayBytes ((array.take i).drop (j + 1)) := by
  have hlt : j < (array.take i).length := by simp; omega
  refine ⟨array[j], List.getElem?_eq_getElem (by omega), ?_⟩
  rw [List.drop_eq_getElem_cons hlt, arrayBytes, List.flatMap_cons, List.getElem_take]
  rfl

theorem arrayBytes_all_read {array : List (BitVec 32)} {i : ℕ} :
    arrayBytes ((array.take i).drop i) = [] := by
  rw [List.drop_eq_nil_of_le (by simp)]
  rfl

/-- Reading an `int` from a pipe whose next bytes are those of `x`. -/
theorem read_int {ρ ω : Type*} [Fintype ω] {f f' : Fifo ρ ω Byte} {bytes rest : List Byte}
    {x : BitVec 32} (hdata : f.data = intBytes x ++ rest) (hread : f.read 4 = some (bytes, f')) :
    bytes = intBytes x ∧ f' = { f with data := rest } := by
  rcases Fifo.read_cases hread with ⟨hnil, -⟩ | ⟨-, hbytes, hf⟩
  · rw [hnil] at hdata
    exact absurd hdata.symm (by simp [intBytes])
  · rw [hdata] at hbytes hf
    exact ⟨hbytes, hf⟩

theorem readInt_intBytes (old x : BitVec 32) : readInt old (intBytes x) = x :=
  intOfBytes_overwrite old x

/-- While FIFO1 holds data, child 1 has it open. -/
theorem ArrayInv.reader_of_ne_nil {array : List (BitVec 32)} {s : SumState}
    (h : ArrayInv array s) (hends : EndsInv s) (hpast : s.parent.pastOpen1 = true)
    (hdata : s.fifo1.data ≠ []) : s.fifo1.readers () ≠ .closed := by
  have hle := h.received_le
  have hsent := h.sent_le
  have hnil : s.child1.received array.length ≠ array.length := fun heq => by
    refine hdata (h.data_eq.trans ?_)
    rw [show s.parent.sent1 array.length = s.child1.received array.length by omega,
      arrayBytes_all_read]
  cases hc : s.child1 with
  | openFifo1 => exact (hends.meetParent1 (Or.inl hpast)).resolve_left (by simp [hc, Child1PC.pastOpen1])
  | readArray1 i => exact hends.child1r (by rw [hc]; rfl)
  | _ => exact absurd (by rw [hc]; rfl) hnil

/-- The read of an element does not find FIFO1 empty and without a writer. -/
theorem ArrayInv.read {array : List (BitVec 32)} {s : SumState} (h : ArrayInv array s)
    (hends : EndsInv s) {i : ℕ} (hc : s.child1 = .readArray1 i) (hi : i < array.length)
    {bytes : List Byte} {fifo1 : Fifo Unit Unit Byte}
    (hread : s.fifo1.read 4 = some (bytes, fifo1)) :
    ∃ x, i < s.parent.sent1 array.length ∧ array[i]? = some x ∧ bytes = intBytes x ∧
      fifo1 = { s.fifo1 with
        data := arrayBytes ((array.take (s.parent.sent1 array.length)).drop (i + 1)) } := by
  have hle := h.received_le
  have hdata := h.data_eq
  rw [hc] at hle hdata
  simp only [Child1PC.received] at hle hdata
  by_cases hlt : i < s.parent.sent1 array.length
  · obtain ⟨x, hx, hbytes⟩ := arrayBytes_read hlt h.sent_le
    obtain ⟨rfl, rfl⟩ := read_int (hdata.trans hbytes) hread
    exact ⟨x, hlt, hx, rfl, rfl⟩
  · -- everything sent has been read, so the parent is still writing
    have heq : s.parent.sent1 array.length = i := by omega
    rw [heq, arrayBytes_all_read] at hdata
    have hwriter : s.fifo1.writers () ≠ .closed := by
      rcases hends.meetChild1 (Or.inl (by rw [hc]; rfl)) with hpast | hopen
      · refine hends.parent1 ?_
        cases hp : s.parent <;>
          simp [hp, ParentPC.pastOpen1, ParentPC.usesFifo1, ParentPC.sent1] at hpast heq ⊢
        omega
      · exact hopen
    rcases Fifo.read_cases hread with ⟨-, hnone, -⟩ | ⟨hne, -⟩
    · exact absurd (hasWriter_unit.2 hwriter) hnone
    · exact absurd hdata hne

theorem ArrayInv.step {array : List (BitVec 32)} {s s' : SumState} {p : Proc}
    (h : ArrayInv array s) (hends : EndsInv s) (hstep : SumStep array s p s') :
    ArrayInv array s' := by
  have hreader := h.reader_of_ne_nil hends
  have hread1 := fun i => h.read hends (i := i)
  obtain ⟨parent, child1, child2, fifo1, fifo2⟩ := s
  obtain ⟨hreceived, hsent, hdata, hsum⟩ := h
  have h : ArrayInv array _ := ⟨hreceived, hsent, hdata, hsum⟩
  cases hstep with
  | parentEnters2 hp | parentOpens2 hp | parentWrites2 _ _ _ hp | parentCommands _ _ hp
  | parentCloses2 hp | parentOpens1 hp =>
      cases hp
      exact { h with }
  | parentEnters1 hp he => exact { h with data_eq := (fifo1.openWrite_data ()).trans hdata }
  | parentWrites1 i x f hp hx hwrite =>
      cases hp
      obtain ⟨-, rfl⟩ := Fifo.write_eq_some.1 hwrite
      exact { h with
        received_le := Nat.le_succ_of_le hreceived
        sent_le := (List.getElem?_eq_some_iff.1 hx).1
        data_eq := by
          rw [hdata]
          exact (arrayBytes_write hx hreceived).symm }
  | parentCloses1 i hp hi =>
      cases hp
      obtain rfl : i = array.length := le_antisymm hsent hi
      have hkept : fifo1.closeWrite () = { fifo1 with writers := update fifo1.writers () .closed } := by
        refine Fifo.discard_eq_self ?_
        by_cases hnil : fifo1.data = []
        · exact Or.inl hnil
        · exact Or.inr (Or.inl (hasReader_unit.2 (hreader rfl hnil)))
      simp only [hkept]
      exact { h with }
  | child1Enters1 hp he => exact { h with data_eq := (fifo1.openRead_data ()).trans hdata }
  | child1Opens1 hp he =>
      cases hp
      exact { h with }
  | child1Reads i bytes f hp hi hread =>
      obtain ⟨x, hlt, hx, rfl, rfl⟩ := hread1 i hp hi hread
      cases hp
      exact { h with
        received_le := hlt
        data_eq := rfl
        sum_eq := by
          simp only [Child1PC.received] at hsum ⊢
          rw [readInt_intBytes, arraySum_take_succ hx, hsum] }
  | child1Closes1 i hp hi =>
      cases hp
      simp only [Child1PC.received] at hreceived hdata hsum
      obtain rfl : i = array.length := le_antisymm (hreceived.trans hsent) hi
      have hall : parent.sent1 array.length = array.length := le_antisymm hsent hreceived
      have hkept : fifo1.closeRead () = { fifo1 with readers := update fifo1.readers () .closed } := by
        refine Fifo.discard_eq_self (Or.inl (hdata.trans ?_))
        rw [hall, arrayBytes_all_read]
      simp only [hkept]
      exact { h with }
  | child1Enters2 hp | child1Opens2 hp | child1Writes _ hp | child1Closes2 hp =>
      cases hp
      exact { h with }
  | child2Enters | child2Opens | child2Reads | child2Commanded | child2Multiplies | child2Fails
  | child2Reenters | child2Reopens | child2ReadsSum | child2Closes => exact { h with }

theorem arrayInv_reachable {array : List (BitVec 32)} {s : SumState}
    (h : (sumMachine array).Reachable s) : ArrayInv array s := by
  refine h.invariant ?_ fun s p s' hs hi hn => hi.step (endsInv_reachable hs) (sumStep_of_next hn)
  rintro s ⟨hp, hc1, hc2, hf1, hf2, hsum, -⟩
  obtain ⟨parent, child1, child2, fifo1, fifo2⟩ := s
  cases hp
  cases hc1
  cases hf1
  exact ⟨le_refl 0, Nat.zero_le _, rfl, hsum⟩

/-! ## The orders that go well -/

/-- Child 2 has entered its second `open` of FIFO2. -/
def SumState.Reopening (s : SumState) : Prop :=
  s.child2.reopened = true ∨ (s.child2 = .reopenFifo2 ∧ s.fifo2.readers () ≠ .closed)

/-- Child 1 has entered its `open` of FIFO2. -/
def SumState.SumOpened (s : SumState) : Prop :=
  s.child1.atOpen2 = true ∧ (s.child1 = .openFifo2 → s.fifo2.writers .child1 ≠ .closed)

/-- Child 1 writes the sum after child 2 has read the command, it closes FIFO2 after child 2 has
    entered its second `open`, and child 2 reads the sum after child 1 has entered its `open`. -/
def Disciplined (s : SumState) : Proc → Prop
  | .parent => True
  | .child1 => (s.child1 = .writeSum → s.child2.readCommand = true) ∧
      (s.child1 = .closeFifo2 → s.Reopening)
  | .child2 => s.child2 = .readSum → s.SumOpened

instance (s : SumState) : Decidable s.Reopening :=
  inferInstanceAs (Decidable (_ = _ ∨ _ = _ ∧ _ ≠ _))

instance (s : SumState) : Decidable s.SumOpened :=
  inferInstanceAs (Decidable (_ = _ ∧ (_ = _ → _ ≠ _)))

instance (s : SumState) : (p : Proc) → Decidable (Disciplined s p)
  | .parent => inferInstanceAs (Decidable True)
  | .child1 => inferInstanceAs (Decidable ((_ = _ → _ = _) ∧ (_ = _ → s.Reopening)))
  | .child2 => inferInstanceAs (Decidable (_ = _ → s.SumOpened))

/-! ## FIFO2 -/

/-- The command, while it is in FIFO2. -/
def pendingCommand (p : ParentPC) (c : Child2PC) : List Byte :=
  if p.sentCommand && !c.readCommand then multiplyBytes else []

/-- The sum, while it is in FIFO2. -/
def pendingSum (sum1 : BitVec 32) (c1 : Child1PC) (c2 : Child2PC) : List Byte :=
  if c1.wroteSum && !c2.gotSum then intBytes sum1 else []

/-- FIFO2 holds the integers, the command and the sum that are written and not read. -/
structure DeliveryInv (array : List (BitVec 32)) (s : SumState) : Prop where
  received_le : s.child2.received array.length ≤ s.parent.sent2 array.length
  sent_le : s.parent.sent2 array.length ≤ array.length
  data_eq : s.fifo2.data =
    arrayBytes ((array.take (s.parent.sent2 array.length)).drop (s.child2.received array.length)) ++
      pendingCommand s.parent s.child2 ++ pendingSum s.sum1 s.child1 s.child2
  commandSent : s.child2.readCommand = true → s.parent.sentCommand = true
  commandFirst : s.child1.wroteSum = true → s.child2.readCommand = true
  sumWritten : s.child2.gotSum = true → s.child1.wroteSum = true
  exited : s.child1 = .exited → s.Reopening
  command_eq : s.child2.readCommand = true →
    s.commandRead = multiplyBytes ∧ isMultiply s.command = true
  sum_eq : s.child2.gotSum = true → s.sum2 = s.sum1
  not_failed : s.child2 ≠ .failed

/-- Child 2 is at a read while something it waits for has not been written by the parent: the parent
    can still write it. -/
theorem EndsInv.parent_writes {s : SumState} (h : EndsInv s) (hc : s.child2.pastOpen2 = true)
    (hp : s.parent.sentCommand = false) : s.fifo2.HasWriter := by
  refine ⟨.parent, ?_⟩
  rcases h.meetChild2 (Or.inl hc) with hpast | hopen
  · refine h.parent2 ?_
    cases hpar : s.parent <;>
      simp [hpar, ParentPC.pastOpen2, ParentPC.usesFifo2, ParentPC.sentCommand] at hpast hp ⊢
  · exact hopen

/-- Before the command child 2 has FIFO2 open, once the parent has opened it. -/
theorem EndsInv.child2_reads {s : SumState} (h : EndsInv s) (hp : s.parent.pastOpen2 = true)
    (hc : s.child2.readCommand = false) : s.fifo2.HasReader := by
  refine hasReader_unit.2 ?_
  cases hpc : s.child2 with
  | openFifo2 => exact (h.meetParent2 (Or.inl hp)).resolve_left (by simp [hpc, Child2PC.pastOpen2])
  | readArray2 i => exact h.child2r (by rw [hpc]; rfl)
  | _ => simp [hpc, Child2PC.readCommand] at hc

/-- After the command no integer of the array is in FIFO2. -/
theorem DeliveryInv.array_read {array : List (BitVec 32)} {s : SumState} (h : DeliveryInv array s)
    (hc : s.child2.readCommand = true) :
    arrayBytes ((array.take (s.parent.sent2 array.length)).drop array.length) = [] := by
  have hn : s.child2.received array.length = array.length := by
    cases hpc : s.child2 <;> simp [hpc, Child2PC.readCommand, Child2PC.received] at hc ⊢
  have hall : s.parent.sent2 array.length = array.length :=
    le_antisymm h.sent_le (hn.ge.trans h.received_le)
  rw [hall, arrayBytes_all_read]

/-- After the command FIFO2 holds at most the sum. -/
theorem DeliveryInv.data_of_readCommand {array : List (BitVec 32)} {s : SumState}
    (h : DeliveryInv array s) (hc : s.child2.readCommand = true) :
    s.fifo2.data = pendingSum s.sum1 s.child1 s.child2 := by
  have hn : s.child2.received array.length = array.length := by
    cases hpc : s.child2 <;> simp [hpc, Child2PC.readCommand, Child2PC.received] at hc ⊢
  rw [h.data_eq, hn, h.array_read hc, pendingCommand, hc]
  simp

theorem DeliveryInv.not_wroteSum {array : List (BitVec 32)} {s : SumState}
    (h : DeliveryInv array s) (hc : s.child2.readCommand = false) : s.child1.wroteSum = false := by
  by_contra hw
  have := h.commandFirst (by simpa using hw)
  rw [hc] at this
  exact Bool.false_ne_true this

/-- Before the command FIFO2 does not hold the sum. -/
theorem DeliveryInv.data_of_not_readCommand {array : List (BitVec 32)} {s : SumState}
    (h : DeliveryInv array s) (hc : s.child2.readCommand = false) :
    s.fifo2.data = arrayBytes
      ((array.take (s.parent.sent2 array.length)).drop (s.child2.received array.length)) ++
        pendingCommand s.parent s.child2 := by
  rw [h.data_eq, pendingSum, h.not_wroteSum hc]
  simp

/-- The read of an element does not find FIFO2 empty and without a writer. -/
theorem DeliveryInv.read {array : List (BitVec 32)} {s : SumState} (h : DeliveryInv array s)
    (hends : EndsInv s) {i : ℕ} (hc : s.child2 = .readArray2 i) (hi : i < array.length)
    {bytes : List Byte} {fifo2 : Fifo Unit Fifo2Writer Byte}
    (hread : s.fifo2.read 4 = some (bytes, fifo2)) :
    i < s.parent.sent2 array.length ∧ fifo2 = { s.fifo2 with
      data := arrayBytes ((array.take (s.parent.sent2 array.length)).drop (i + 1)) ++
        pendingCommand s.parent (.readArray2 i) } := by
  have hle := h.received_le
  have hdata := h.data_of_not_readCommand (by rw [hc]; rfl)
  rw [hc] at hle hdata
  simp only [Child2PC.received] at hle hdata
  by_cases hlt : i < s.parent.sent2 array.length
  · obtain ⟨x, hx, hbytes⟩ := arrayBytes_read hlt h.sent_le
    rw [hbytes, List.append_assoc] at hdata
    exact ⟨hlt, (read_int hdata hread).2⟩
  · -- everything sent has been read, so the parent is still writing
    have heq : s.parent.sent2 array.length = i := by omega
    have hsent : s.parent.sentCommand = false := by
      cases hp : s.parent <;> simp [hp, ParentPC.sentCommand, ParentPC.sent2] at heq ⊢ <;> omega
    rw [heq, arrayBytes_all_read, pendingCommand, hsent] at hdata
    rcases Fifo.read_cases hread with ⟨-, hnone, -⟩ | ⟨hne, -⟩
    · exact absurd (hends.parent_writes (by rw [hc]; rfl) hsent) hnone
    · exact absurd hdata hne

/-- The read of the command gets the command. -/
theorem DeliveryInv.read_command {array : List (BitVec 32)} {s : SumState}
    (h : DeliveryInv array s) (hends : EndsInv s) {i : ℕ} (hc : s.child2 = .readArray2 i)
    (hi : array.length ≤ i) {bytes : List Byte} {fifo2 : Fifo Unit Fifo2Writer Byte}
    (hread : s.fifo2.read 20 = some (bytes, fifo2)) :
    s.parent.sentCommand = true ∧ bytes = multiplyBytes ∧ fifo2 = { s.fifo2 with data := [] } := by
  have hle := h.received_le
  have hsent := h.sent_le
  have hdata := h.data_of_not_readCommand (by rw [hc]; rfl)
  rw [hc] at hle hdata
  simp only [Child2PC.received] at hle hdata
  rw [show s.parent.sent2 array.length = i by omega, arrayBytes_all_read, List.nil_append,
    pendingCommand] at hdata
  cases hcommand : s.parent.sentCommand with
  | true =>
      simp only [hcommand, Child2PC.readCommand, Bool.not_false, Bool.and_self, if_true] at hdata
      rcases Fifo.read_cases hread with ⟨hnil, -⟩ | ⟨-, hbytes, hf⟩
      · rw [hnil] at hdata
        exact absurd hdata.symm (by decide)
      · rw [hdata] at hbytes hf
        exact ⟨rfl, hbytes, hf⟩
  | false =>
      rw [hcommand] at hdata
      rcases Fifo.read_cases hread with ⟨-, hnone, -⟩ | ⟨hne, -⟩
      · exact absurd (hends.parent_writes (by rw [hc]; rfl) hcommand) hnone
      · exact absurd hdata hne

/-- The read of the sum gets the sum. -/
theorem DeliveryInv.read_sum {array : List (BitVec 32)} {s : SumState} (h : DeliveryInv array s)
    (hends : EndsInv s) (hc : s.child2 = .readSum) (hopened : s.SumOpened) {bytes : List Byte}
    {fifo2 : Fifo Unit Fifo2Writer Byte} (hread : s.fifo2.read 4 = some (bytes, fifo2)) :
    s.child1.wroteSum = true ∧ bytes = intBytes s.sum1 ∧ fifo2 = { s.fifo2 with data := [] } := by
  have hdata := h.data_of_readCommand (by rw [hc]; rfl)
  rw [hc, pendingSum] at hdata
  cases hwrote : s.child1.wroteSum with
  | true =>
      simp only [hwrote, Child2PC.gotSum, Bool.not_false, Bool.and_self, if_true] at hdata
      obtain ⟨hbytes, hf⟩ := read_int (hdata.trans (List.append_nil _).symm) hread
      exact ⟨rfl, hbytes, hf⟩
  | false =>
      rw [hwrote] at hdata
      obtain ⟨hat, hopen⟩ := hopened
      have hwriter : s.fifo2.HasWriter := by
        refine ⟨.child1, ?_⟩
        cases hc1 : s.child1 with
        | openFifo2 => exact hopen hc1
        | writeSum => exact hends.child1w (by rw [hc1]; rfl)
        | _ => simp [hc1, Child1PC.atOpen2, Child1PC.wroteSum] at hat hwrote
      rcases Fifo.read_cases hread with ⟨-, hnone, -⟩ | ⟨hne, -⟩
      · exact absurd hwriter hnone
      · exact absurd hdata hne

/-! ### Closing FIFO2 loses nothing -/

theorem DeliveryInv.close_parent {array : List (BitVec 32)} {s : SumState}
    (h : DeliveryInv array s) (hends : EndsInv s) (hp : s.parent = .closeFifo2) :
    s.fifo2.closeWrite .parent =
      { s.fifo2 with writers := update s.fifo2.writers .parent .closed } := by
  refine Fifo.discard_eq_self ?_
  cases hc : s.child2.readCommand with
  | true =>
      refine Or.inl ((h.data_of_readCommand hc).trans ?_)
      -- child 1 cannot have come to FIFO2 yet
      have hwrote : s.child1.wroteSum = false := by
        by_contra hw
        have hpast := hends.parent_past (Or.inl (by
          cases hc1 : s.child1 <;> simp [hc1, Child1PC.wroteSum, Child1PC.pastOpen1] at hw ⊢))
        rw [hp] at hpast
        exact absurd hpast Bool.false_ne_true
      simp [pendingSum, hwrote]
  | false => exact Or.inr (Or.inl (hends.child2_reads (by rw [hp]; rfl) hc))

theorem DeliveryInv.close_child1 {array : List (BitVec 32)} {s : SumState}
    (h : DeliveryInv array s) (hends : EndsInv s) (hre : s.Reopening) :
    s.fifo2.closeWrite .child1 =
      { s.fifo2 with writers := update s.fifo2.writers .child1 .closed } := by
  refine Fifo.discard_eq_self ?_
  rcases hre with hre | ⟨-, hopen⟩
  · cases hc : s.child2 with
    | readSum => exact Or.inr (Or.inl (hasReader_unit.2 (hends.child2r (by rw [hc]; rfl))))
    | closeSum => exact Or.inr (Or.inl (hasReader_unit.2 (hends.child2r (by rw [hc]; rfl))))
    | printed =>
        refine Or.inl ((h.data_of_readCommand (by rw [hc]; rfl)).trans ?_)
        simp [pendingSum, hc, Child2PC.gotSum]
    | _ =>
        rw [hc] at hre
        exact absurd hre Bool.false_ne_true
  · exact Or.inr (Or.inl (hasReader_unit.2 hopen))

/-- Child 1 is still running until child 2 comes to its second open. -/
theorem DeliveryInv.running {array : List (BitVec 32)} {s : SumState} (h : DeliveryInv array s)
    (hc : s.child2.reopened = false) (hne : s.child2 ≠ .reopenFifo2) : s.child1 ≠ .exited := by
  intro hx
  rcases h.exited hx with hre | ⟨hre, -⟩
  · rw [hc] at hre
    exact Bool.false_ne_true hre
  · exact hne hre

theorem DeliveryInv.close_command {array : List (BitVec 32)} {s : SumState}
    (h : DeliveryInv array s) (hends : EndsInv s) (hc : s.child2 = .closeCommand) :
    s.fifo2.closeRead () = { s.fifo2 with readers := update s.fifo2.readers () .closed } := by
  refine Fifo.discard_eq_self ?_
  have hdata := h.data_of_readCommand (by rw [hc]; rfl)
  cases hc1 : s.child1 with
  | closeFifo2 => exact Or.inr (Or.inr ⟨.child1, hends.child1w (by rw [hc1]; rfl)⟩)
  | exited =>
      refine absurd hc1 (h.running (by rw [hc]; rfl) ?_)
      rw [hc]
      rintro ⟨⟩
  | _ =>
      refine Or.inl (hdata.trans ?_)
      simp [pendingSum, hc1, Child1PC.wroteSum]

theorem DeliveryInv.close_sum {array : List (BitVec 32)} {s : SumState}
    (h : DeliveryInv array s) (hc : s.child2 = .closeSum) :
    s.fifo2.closeRead () = { s.fifo2 with readers := update s.fifo2.readers () .closed } := by
  refine Fifo.discard_eq_self (Or.inl ((h.data_of_readCommand (by rw [hc]; rfl)).trans ?_))
  simp [pendingSum, hc, Child2PC.gotSum]

/-! ### The steps -/

theorem DeliveryInv.step_parent {array : List (BitVec 32)} {s s' : SumState}
    (h : DeliveryInv array s) (hends : EndsInv s) (hstep : SumStep array s .parent s') :
    DeliveryInv array s' := by
  have hbefore := h.data_of_not_readCommand
  have hnoSum := h.not_wroteSum
  have hunsent : s.parent.sentCommand = false → s.child2.readCommand = false := fun hp => by
    by_contra hc
    have := h.commandSent (by simpa using hc)
    rw [hp] at this
    exact Bool.false_ne_true this
  have hkept := h.close_parent hends
  obtain ⟨parent, child1, child2, fifo1, fifo2, sum1⟩ := s
  cases hstep with
  | parentEnters2 hp he =>
      cases hp
      exact { h with
        data_eq := (fifo2.openWrite_data .parent).trans h.data_eq
        exited := fun hc => (h.exited hc).imp_right
          (And.imp_right (fifo2.openWrite_readers .parent ()).not.2) }
  | parentOpens2 hp he =>
      cases hp
      exact { h with }
  | parentWrites2 i x f hp hx hwrite =>
      cases hp
      obtain ⟨-, rfl⟩ := Fifo.write_eq_some.1 hwrite
      exact { h with
        received_le := Nat.le_succ_of_le h.received_le
        sent_le := (List.getElem?_eq_some_iff.1 hx).1
        data_eq := by
          have hdata := hbefore (hunsent rfl)
          have hwrote := hnoSum (hunsent rfl)
          simp only [pendingCommand, ParentPC.sentCommand, Bool.false_and, Bool.false_eq_true,
            if_false, List.append_nil] at hdata
          simp only [pendingCommand, pendingSum, hwrote, ParentPC.sentCommand, Bool.false_and,
            Bool.false_eq_true, if_false, List.append_nil, hdata]
          exact (arrayBytes_write hx h.received_le).symm }
  | parentCommands i f hp hi hwrite =>
      cases hp
      obtain ⟨-, rfl⟩ := Fifo.write_eq_some.1 hwrite
      obtain rfl : i = array.length := le_antisymm h.sent_le hi
      exact { h with
        data_eq := by
          have hdata := hbefore (hunsent rfl)
          have hwrote := hnoSum (hunsent rfl)
          simp only [pendingCommand, ParentPC.sentCommand, Bool.false_and, Bool.false_eq_true,
            if_false, List.append_nil] at hdata
          simp only [pendingCommand, pendingSum, hwrote, hunsent rfl, ParentPC.sentCommand,
            Bool.not_false, Bool.and_self, Bool.false_and, Bool.false_eq_true, if_true, if_false,
            List.append_nil, hdata]
          rfl
        commandSent := fun _ => rfl }
  | parentCloses2 hp =>
      cases hp
      simp only [hkept rfl]
      exact { h with }
  | parentEnters1 hp | parentOpens1 hp | parentWrites1 _ _ _ hp | parentCloses1 _ hp =>
      cases hp
      exact { h with }

theorem DeliveryInv.step_child1 {array : List (BitVec 32)} {s s' : SumState}
    (h : DeliveryInv array s) (hends : EndsInv s) (hok : Disciplined s .child1)
    (hstep : SumStep array s .child1 s') : DeliveryInv array s' := by
  have hkept := h.close_child1 hends
  obtain ⟨parent, child1, child2, fifo1, fifo2, sum1⟩ := s
  cases hstep with
  | child1Enters1 hp | child1Opens1 hp | child1Closes1 _ hp =>
      cases hp
      exact { h with exited := by rintro ⟨⟩ }
  | child1Reads i bytes f hp hi hread =>
      cases hp
      exact { h with
        exited := by rintro ⟨⟩
        sum_eq := fun hc => absurd (h.sumWritten hc) Bool.false_ne_true }
  | child1Enters2 hp he =>
      cases hp
      exact { h with
        data_eq := (fifo2.openWrite_data .child1).trans h.data_eq
        exited := by rintro ⟨⟩ }
  | child1Opens2 hp he =>
      cases hp
      exact { h with exited := by rintro ⟨⟩ }
  | child1Writes f hp hwrite =>
      cases hp
      obtain ⟨-, rfl⟩ := Fifo.write_eq_some.1 hwrite
      have hread : child2.readCommand = true := hok.1 rfl
      have hnot : child2.gotSum = false := by
        by_contra hgot
        exact absurd (h.sumWritten (by simpa using hgot)) Bool.false_ne_true
      exact { h with
        data_eq := by
          rw [h.data_eq]
          simp [pendingSum, hnot, Child1PC.wroteSum]
        commandFirst := fun _ => hread
        sumWritten := fun _ => rfl
        exited := by rintro ⟨⟩ }
  | child1Closes2 hp =>
      cases hp
      have hre := hok.2 rfl
      simp only [hkept hre]
      exact { h with exited := fun _ => hre }

theorem DeliveryInv.step_child2 {array : List (BitVec 32)} {s s' : SumState}
    (h : DeliveryInv array s) (hends : EndsInv s) (hok : Disciplined s .child2)
    (hstep : SumStep array s .child2 s') : DeliveryInv array s' := by
  have hread := fun i => h.read hends (i := i)
  have hreadCommand := fun i => h.read_command hends (i := i)
  have hreadSum := h.read_sum hends
  have hnoSum := h.not_wroteSum
  have hrunning := h.running
  have hkept := h.close_command hends
  have hlast := h.close_sum
  obtain ⟨parent, child1, child2, fifo1, fifo2, sum1⟩ := s
  cases hstep with
  | child2Enters hp he =>
      cases hp
      exact { h with
        data_eq := (fifo2.openRead_data ()).trans h.data_eq
        exited := fun hx => absurd hx (hrunning rfl (by rintro ⟨⟩))
        not_failed := by rintro ⟨⟩ }
  | child2Opens hp he =>
      cases hp
      exact { h with
        exited := fun hx => absurd hx (hrunning rfl (by rintro ⟨⟩))
        not_failed := by rintro ⟨⟩ }
  | child2Reads i bytes f hp hi hr =>
      obtain ⟨hlt, rfl⟩ := hread i hp hi hr
      cases hp
      have hwrote := hnoSum rfl
      exact { h with
        received_le := hlt
        data_eq := by
          simp [pendingSum, hwrote, pendingCommand, Child2PC.readCommand, Child2PC.received]
        exited := fun hx => absurd hx (hrunning rfl (by rintro ⟨⟩))
        not_failed := by rintro ⟨⟩ }
  | child2Commanded i bytes f hp hi hr =>
      obtain ⟨hsent, rfl, rfl⟩ := hreadCommand i hp hi hr
      cases hp
      have hwrote := hnoSum rfl
      have hall : parent.sent2 array.length = array.length := by
        cases parent <;> simp [ParentPC.sentCommand, ParentPC.sent2] at hsent ⊢
      exact { h with
        received_le := hall.ge
        data_eq := by
          simp only [Child2PC.received, hall, arrayBytes_all_read]
          simp [pendingCommand, pendingSum, Child2PC.readCommand, hwrote]
        commandSent := fun _ => hsent
        commandFirst := fun _ => rfl
        exited := fun hx => absurd hx (hrunning rfl (by rintro ⟨⟩))
        command_eq := fun _ => ⟨rfl, by simp [isMultiply, overwrite]⟩
        not_failed := by rintro ⟨⟩ }
  | child2Multiplies hp hc =>
      cases hp
      simp only [hkept rfl]
      exact { h with
        exited := fun hx => absurd hx (hrunning rfl (by rintro ⟨⟩))
        not_failed := by rintro ⟨⟩ }
  | child2Fails hp hc =>
      cases hp
      have := (h.command_eq rfl).2
      rw [hc] at this
      exact absurd this Bool.false_ne_true
  | child2Reenters hp he =>
      cases hp
      exact { h with
        data_eq := (fifo2.openRead_data ()).trans h.data_eq
        exited := fun _ => Or.inr ⟨rfl, fifo2.openRead_self ()⟩
        not_failed := by rintro ⟨⟩ }
  | child2Reopens hp he =>
      cases hp
      exact { h with
        exited := fun _ => Or.inl rfl
        not_failed := by rintro ⟨⟩ }
  | child2ReadsSum bytes f hp hr =>
      obtain ⟨hwrote, rfl, rfl⟩ := hreadSum hp (hok hp) hr
      cases hp
      exact { h with
        data_eq := by
          have hread := h.array_read rfl
          simp only [Child2PC.received, hread]
          simp [pendingCommand, pendingSum, Child2PC.readCommand, Child2PC.gotSum]
        sumWritten := fun _ => hwrote
        exited := fun _ => Or.inl rfl
        sum_eq := fun _ => intOfBytes_overwrite _ _
        not_failed := by rintro ⟨⟩ }
  | child2Closes hp =>
      cases hp
      simp only [hlast rfl]
      exact { h with
        exited := fun _ => Or.inl rfl
        not_failed := by rintro ⟨⟩ }

theorem DeliveryInv.step {array : List (BitVec 32)} {s s' : SumState} {p : Proc}
    (h : DeliveryInv array s) (hends : EndsInv s) (hok : Disciplined s p)
    (hstep : SumStep array s p s') : DeliveryInv array s' := by
  cases p with
  | parent => exact h.step_parent hends hstep
  | child1 => exact h.step_child1 hends hok hstep
  | child2 => exact h.step_child2 hends hok hstep

theorem deliveryInv_reachable {array : List (BitVec 32)} {s : SumState}
    (h : (sumMachine array).ReachableUnder Disciplined s) : DeliveryInv array s := by
  refine h.invariant ?_ fun s p s' hs hi hok hn =>
    hi.step (endsInv_reachable hs.reachable) hok (sumStep_of_next hn)
  rintro s ⟨hp, hc1, hc2, hf1, hf2, -⟩
  obtain ⟨parent, child1, child2, fifo1, fifo2⟩ := s
  cases hp
  cases hc1
  cases hc2
  cases hf2
  exact ⟨le_refl 0, Nat.zero_le _, rfl, nofun, nofun, nofun, nofun, nofun, nofun, nofun⟩

/-! ## The delivery of the sum -/

/-- The read of the command has got the command and nothing else; the sum, once written, is in FIFO2
    until child 2 reads it there; and the sum that child 2 prints is the sum of the array. -/
def Delivered (array : List (BitVec 32)) (s : SumState) : Prop :=
  (s.child2.readCommand = true → s.commandRead = multiplyBytes) ∧
    (s.child1.wroteSum = true → s.child2.gotSum = false → intBytes s.sum1 <:+ s.fifo2.data) ∧
    (s.child2 = .printed → s.sum2 = s.sum1 ∧ s.sum1 = arraySum array)

/-- **The sum is delivered** in every run that keeps to the orders of `Disciplined`. -/
theorem sum_delivered {array : List (BitVec 32)} {s : SumState}
    (h : (sumMachine array).ReachableUnder Disciplined s) : Delivered array s := by
  have hinv := deliveryInv_reachable h
  refine ⟨fun hc => (hinv.command_eq hc).1, fun hwrote hgot => ?_, fun hc => ?_⟩
  · rw [hinv.data_of_readCommand (hinv.commandFirst hwrote), pendingSum, hwrote, hgot]
    exact List.suffix_refl _
  · have hgot : s.child2.gotSum = true := by rw [hc]; rfl
    refine ⟨hinv.sum_eq hgot, ?_⟩
    have hwrote := hinv.sumWritten hgot
    have hn : s.child1.received array.length = array.length := by
      cases hpc : s.child1 <;> simp [hpc, Child1PC.wroteSum, Child1PC.received] at hwrote ⊢
    rw [(arrayInv_reachable h.reachable).sum_eq, hn, List.take_length]

/-- The processes before their first system call on a FIFO. -/
def started : SumState :=
  { parent := .openFifo2, child1 := .openFifo1, child2 := .openFifo2, fifo1 := .empty,
    fifo2 := .empty, sum1 := 0, num1 := 0, array2 := [], num2 := 0,
    command := List.replicate 20 0, result := 0, sum2 := 0, commandRead := [] }

theorem started_init (array : List (BitVec 32)) : (sumMachine array).init started :=
  ⟨rfl, rfl, rfl, rfl, rfl, rfl, rfl, rfl⟩

/-- A run for the array `[5]` in which child 1 waits, to the last `printf` of child 2. -/
theorem sum_delivered_printed : ∃ s, (sumMachine [5]).ReachableUnder Disciplined s ∧
    s.child2 = .printed ∧ Delivered [5] s := by
  obtain ⟨s, hs, hprinted⟩ : ∃ s, (sumMachine [5]).execUnder Disciplined started
      [.parent, .child2, .parent, .parent, .parent, .child2, .child2, .child2, .parent, .child2,
        .parent, .child1, .parent, .parent, .parent, .child1, .child1, .child1, .child2, .child1,
        .child1, .child1, .child1, .child2, .child2, .child2] = some s ∧ s.child2 = .printed :=
    ⟨_, rfl, rfl⟩
  have hreach := Machine.ReachableUnder.exec _ (.init (started_init [5])) hs
  exact ⟨s, hreach, hprinted, sum_delivered hreach⟩

/-- The run for the array `[5]` in which child 1 writes the sum before child 2 reads the command:
    the read of the command gets both. -/
theorem sum_not_always_delivered : ¬ ∀ (array : List (BitVec 32)) (s : SumState), array ≠ [] →
    (sumMachine array).Reachable s → Delivered array s := by
  intro hall
  obtain ⟨s, hs, hread, hbytes⟩ : ∃ s, (sumMachine [5]).exec started
      [.parent, .child2, .parent, .parent, .parent, .parent, .parent, .child1, .parent, .parent,
        .parent, .child1, .child1, .child1, .child1, .child1, .child1, .child2, .child2,
        .child2] = some s ∧ s.child2.readCommand = true ∧
      s.commandRead = multiplyBytes ++ intBytes 5 := ⟨_, rfl, rfl, rfl⟩
  have hreach := Machine.Reachable.exec _ (.init (started_init [5])) hs
  have hcommand := (hall [5] s (by simp) hreach).1 hread
  rw [hbytes] at hcommand
  exact absurd hcommand (by decide)

end SystemProgramming.SumMult
