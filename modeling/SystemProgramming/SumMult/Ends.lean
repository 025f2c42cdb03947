import SystemProgramming.SumMult.Processes

set_option autoImplicit false

/-! # Who has which FIFO open

`EndsInv` ties the ends of the FIFOs to the program counters, whatever the interleaving: a process
has the ends that its program counter says it has, and when one side of a first `open` has
completed, the other side has come. -/

namespace SystemProgramming.SumMult

open Function

namespace ParentPC

/-- The parent writes to FIFO2, or closes it. -/
def usesFifo2 : ParentPC → Bool
  | writeArray2 _ | closeFifo2 => true
  | _ => false

/-- The parent writes to FIFO1. -/
def usesFifo1 : ParentPC → Bool
  | writeArray1 _ => true
  | _ => false

/-- The parent has returned from its `open` of FIFO2. -/
def pastOpen2 : ParentPC → Bool
  | openFifo2 => false
  | _ => true

/-- The parent has come to its `open` of FIFO1. -/
def atOpen1 : ParentPC → Bool
  | openFifo1 | writeArray1 _ | waiting => true
  | _ => false

/-- The parent has returned from its `open` of FIFO1. -/
def pastOpen1 : ParentPC → Bool
  | writeArray1 _ | waiting => true
  | _ => false

end ParentPC

namespace Child1PC

/-- Child 1 reads from FIFO1. -/
def usesFifo1 : Child1PC → Bool
  | readArray1 _ => true
  | _ => false

/-- Child 1 writes to FIFO2, or closes it. -/
def usesFifo2 : Child1PC → Bool
  | writeSum | closeFifo2 => true
  | _ => false

/-- Child 1 has returned from its `open` of FIFO1. -/
def pastOpen1 : Child1PC → Bool
  | openFifo1 => false
  | _ => true

/-- Child 1 has come to its `open` of FIFO2. -/
def atOpen2 : Child1PC → Bool
  | openFifo1 | readArray1 _ => false
  | _ => true

end Child1PC

namespace Child2PC

/-- Child 2 reads from FIFO2, or closes it. -/
def usesFifo2 : Child2PC → Bool
  | readArray2 _ | closeCommand | readSum | closeSum => true
  | _ => false

/-- Child 2 has returned from its first `open` of FIFO2. -/
def pastOpen2 : Child2PC → Bool
  | openFifo2 => false
  | _ => true

end Child2PC

/-- The ends of the FIFOs at the program counters of a reachable state. -/
structure EndsInv (s : SumState) : Prop where
  parent1 : s.parent.usesFifo1 = true → s.fifo1.writers () ≠ .closed
  parent2 : s.parent.usesFifo2 = true → s.fifo2.writers .parent ≠ .closed
  parentNot1 : s.parent.atOpen1 = false → s.fifo1.writers () = .closed
  child1r : s.child1.usesFifo1 = true → s.fifo1.readers () ≠ .closed
  child1w : s.child1.usesFifo2 = true → s.fifo2.writers .child1 ≠ .closed
  child1Not2 : s.child1.atOpen2 = false → s.fifo2.writers .child1 = .closed
  child2r : s.child2.usesFifo2 = true → s.fifo2.readers () ≠ .closed
  /-- The `open` calls of FIFO1 complete together. -/
  meetParent1 : s.parent.pastOpen1 = true ∨ s.fifo1.writers () = .opened →
    s.child1.pastOpen1 = true ∨ s.fifo1.readers () ≠ .closed
  meetChild1 : s.child1.pastOpen1 = true ∨ s.fifo1.readers () = .opened →
    s.parent.pastOpen1 = true ∨ s.fifo1.writers () ≠ .closed
  /-- The first `open` calls of FIFO2 complete together. -/
  meetParent2 : s.parent.pastOpen2 = true ∨ s.fifo2.writers .parent = .opened →
    s.child2.pastOpen2 = true ∨ s.fifo2.readers () ≠ .closed
  meetChild2 : s.child2.pastOpen2 = true ∨ s.fifo2.readers () = .opened →
    s.parent.pastOpen2 = true ∨ s.fifo2.writers .parent ≠ .closed

theorem hasReader_unit {ω : Type*} {f : Fifo Unit ω Byte} :
    f.HasReader ↔ f.readers () ≠ .closed :=
  ⟨fun ⟨_, h⟩ => h, fun h => ⟨(), h⟩⟩

theorem hasWriter_unit {ρ : Type*} {f : Fifo ρ Unit Byte} :
    f.HasWriter ↔ f.writers () ≠ .closed :=
  ⟨fun ⟨_, h⟩ => h, fun h => ⟨(), h⟩⟩

/-- Child 1 has opened FIFO1, so the parent is done with FIFO2. -/
theorem EndsInv.parent_past {s : SumState} (h : EndsInv s)
    (hc : s.child1.pastOpen1 = true ∨ s.fifo1.readers () = .opened) :
    s.parent.atOpen1 = true := by
  by_contra hat
  have hclosed := h.parentNot1 (by simpa using hat)
  rcases h.meetChild1 hc with hpast | hopen
  · cases hp : s.parent <;> simp [hp, ParentPC.pastOpen1, ParentPC.atOpen1] at hpast hat
  · exact hopen hclosed

theorem pastOpen2_of_atOpen1 {p : ParentPC} (h : p.atOpen1 = true) : p.pastOpen2 = true := by
  cases p <;> simp [ParentPC.atOpen1, ParentPC.pastOpen2] at h ⊢

/-- Child 2 closes FIFO2. -/
theorem EndsInv.child2_closes {s : SumState} (h : EndsInv s) (hc : s.child2.pastOpen2 = true)
    {c : Child2PC} (hpast : c.pastOpen2 = true) (huses : c.usesFifo2 = false) :
    EndsInv { s with fifo2 := s.fifo2.closeRead (), child2 := c } where
  parent1 := h.parent1
  parent2 := by
    rw [Fifo.closeRead_writers]
    exact h.parent2
  parentNot1 := h.parentNot1
  child1r := h.child1r
  child1w := by
    rw [Fifo.closeRead_writers]
    exact h.child1w
  child1Not2 := by
    rw [Fifo.closeRead_writers]
    exact h.child1Not2
  child2r := by
    intro hu
    rw [huses] at hu
    cases hu
  meetParent1 := h.meetParent1
  meetChild1 := h.meetChild1
  meetParent2 := fun _ => Or.inl hpast
  meetChild2 := by
    rw [Fifo.closeRead_writers]
    exact fun _ => h.meetChild2 (Or.inl hc)

theorem EndsInv.step_parent {array : List (BitVec 32)} {s s' : SumState} (h : EndsInv s)
    (hstep : SumStep array s .parent s') : EndsInv s' := by
  obtain ⟨parent, child1, child2, fifo1, fifo2⟩ := s
  have hne : Fifo2Writer.child1 ≠ .parent := nofun
  cases hstep with
  | parentEnters2 hp he =>
      cases hp
      exact { h with
        parent2 := fun _ => fifo2.openWrite_self .parent
        child1w := fun hu => fifo2.openWrite_of_ne hne ▸ h.child1w hu
        child1Not2 := fun hu => (fifo2.openWrite_of_ne hne).trans (h.child1Not2 hu)
        child2r := fun hu => (fifo2.openWrite_readers .parent ()).not.2 (h.child2r hu)
        meetParent2 := fun hm => Or.inr ((fifo2.openWrite_readers .parent ()).not.2
          (hasReader_unit.1 (Fifo.openWrite_opened (hm.resolve_left Bool.false_ne_true))))
        meetChild2 := fun _ => Or.inr (fifo2.openWrite_self .parent) }
  | parentOpens2 hp he =>
      cases hp
      exact { h with
        parent2 := fun _ => he.trans_ne nofun
        meetParent2 := fun _ => h.meetParent2 (Or.inr he)
        meetChild2 := fun _ => Or.inl rfl }
  | parentWrites2 i x f hp hx hwrite =>
      cases hp
      obtain ⟨-, rfl⟩ := Fifo.write_eq_some.1 hwrite
      exact { h with }
  | parentCommands i f hp hi hwrite =>
      cases hp
      obtain ⟨-, rfl⟩ := Fifo.write_eq_some.1 hwrite
      exact { h with }
  | parentCloses2 hp =>
      cases hp
      exact { h with
        parent1 := nofun
        parent2 := nofun
        parentNot1 := nofun
        child1w := fun hu => fifo2.closeWrite_of_ne hne ▸ h.child1w hu
        child1Not2 := fun hu => (fifo2.closeWrite_of_ne hne).trans (h.child1Not2 hu)
        child2r := fun hu => (fifo2.closeWrite_readers .parent).symm ▸ h.child2r hu
        meetParent2 := fun _ => (fifo2.closeWrite_readers .parent).symm ▸ h.meetParent2 (Or.inl rfl)
        meetChild2 := fun _ => Or.inl rfl }
  | parentEnters1 hp he =>
      cases hp
      exact { h with
        parent1 := nofun
        parentNot1 := nofun
        child1r := fun hu => (fifo1.openWrite_readers () ()).not.2 (h.child1r hu)
        meetParent1 := fun hm => Or.inr ((fifo1.openWrite_readers () ()).not.2
          (hasReader_unit.1 (Fifo.openWrite_opened (hm.resolve_left Bool.false_ne_true))))
        meetChild1 := fun _ => Or.inr (fifo1.openWrite_self ()) }
  | parentOpens1 hp he =>
      cases hp
      exact { h with
        parent1 := fun _ => he.trans_ne nofun
        parent2 := nofun
        parentNot1 := nofun
        meetParent1 := fun _ => h.meetParent1 (Or.inr he)
        meetChild1 := fun _ => Or.inl rfl }
  | parentWrites1 i x f hp hx hwrite =>
      cases hp
      obtain ⟨-, rfl⟩ := Fifo.write_eq_some.1 hwrite
      exact { h with }
  | parentCloses1 i hp hi =>
      cases hp
      exact { h with
        parent1 := nofun
        parentNot1 := nofun
        child1r := fun hu => (fifo1.closeWrite_readers ()).symm ▸ h.child1r hu
        meetParent1 := fun _ => (fifo1.closeWrite_readers ()).symm ▸ h.meetParent1 (Or.inl rfl)
        meetChild1 := fun _ => Or.inl rfl }

theorem EndsInv.step_child1 {array : List (BitVec 32)} {s s' : SumState} (h : EndsInv s)
    (hstep : SumStep array s .child1 s') : EndsInv s' := by
  have hpast := h.parent_past
  obtain ⟨parent, child1, child2, fifo1, fifo2⟩ := s
  have hne : Fifo2Writer.child1 ≠ .parent := nofun
  cases hstep with
  | child1Enters1 hp he =>
      cases hp
      exact { h with
        parent1 := fun hu => (fifo1.openRead_writers () ()).not.2 (h.parent1 hu)
        parentNot1 := fun hu => (fifo1.openRead_writers () ()).2 (h.parentNot1 hu)
        child1r := nofun
        meetParent1 := fun _ => Or.inr (fifo1.openRead_self ())
        meetChild1 := fun hm => Or.inr ((fifo1.openRead_writers () ()).not.2
          (hasWriter_unit.1 (Fifo.openRead_opened (hm.resolve_left Bool.false_ne_true)))) }
  | child1Opens1 hp he =>
      cases hp
      exact { h with
        child1r := fun _ => he.trans_ne nofun
        meetParent1 := fun _ => Or.inl rfl
        meetChild1 := fun _ => h.meetChild1 (Or.inr he) }
  | child1Reads i bytes f hp hi hread =>
      cases hp
      rcases Fifo.read_cases hread with ⟨-, -, -, rfl⟩ | ⟨-, -, rfl⟩ <;> exact { h with }
  | child1Closes1 i hp hi =>
      cases hp
      exact { h with
        parent1 := fun hu => (fifo1.closeRead_writers ()).symm ▸ h.parent1 hu
        parentNot1 := fun hu => (fifo1.closeRead_writers ()).symm ▸ h.parentNot1 hu
        child1r := nofun
        child1w := nofun
        child1Not2 := nofun
        meetParent1 := fun _ => Or.inl rfl
        meetChild1 := fun _ => (fifo1.closeRead_writers ()).symm ▸ h.meetChild1 (Or.inl rfl) }
  | child1Enters2 hp he =>
      cases hp
      have hpar : parent.pastOpen2 = true := pastOpen2_of_atOpen1 (hpast (Or.inl rfl))
      exact { h with
        parent2 := fun hu => fifo2.openWrite_of_ne hne.symm ▸ h.parent2 hu
        child1w := nofun
        child1Not2 := nofun
        child2r := fun hu => (fifo2.openWrite_readers .child1 ()).not.2 (h.child2r hu)
        meetParent2 := fun _ => (h.meetParent2 (Or.inl hpar)).imp_right
          (fifo2.openWrite_readers .child1 ()).not.2
        meetChild2 := fun _ => Or.inl hpar }
  | child1Opens2 hp he =>
      cases hp
      exact { h with
        child1w := fun _ => he.trans_ne nofun
        child1Not2 := nofun }
  | child1Writes f hp hwrite =>
      cases hp
      obtain ⟨-, rfl⟩ := Fifo.write_eq_some.1 hwrite
      exact { h with }
  | child1Closes2 hp =>
      cases hp
      have hpar : parent.pastOpen2 = true := pastOpen2_of_atOpen1 (hpast (Or.inl rfl))
      exact { h with
        parent2 := fun hu => fifo2.closeWrite_of_ne hne.symm ▸ h.parent2 hu
        child1w := nofun
        child1Not2 := nofun
        child2r := fun hu => (fifo2.closeWrite_readers .child1).symm ▸ h.child2r hu
        meetParent2 := fun _ => (fifo2.closeWrite_readers .child1).symm ▸ h.meetParent2 (Or.inl hpar)
        meetChild2 := fun _ => Or.inl hpar }

theorem EndsInv.step_child2 {array : List (BitVec 32)} {s s' : SumState} (h : EndsInv s)
    (hstep : SumStep array s .child2 s') : EndsInv s' := by
  have hpast := h.parent_past
  obtain ⟨parent, child1, child2, fifo1, fifo2⟩ := s
  cases hstep with
  | child2Enters hp he =>
      cases hp
      exact { h with
        parent2 := fun hu => (fifo2.openRead_writers () .parent).not.2 (h.parent2 hu)
        child1w := fun hu => (fifo2.openRead_writers () .child1).not.2 (h.child1w hu)
        child1Not2 := fun hu => (fifo2.openRead_writers () .child1).2 (h.child1Not2 hu)
        child2r := nofun
        meetParent2 := fun _ => Or.inr (fifo2.openRead_self ())
        meetChild2 := fun hm => by
          obtain ⟨w, hw⟩ := Fifo.openRead_opened (hm.resolve_left Bool.false_ne_true)
          cases w with
          | parent => exact Or.inr ((fifo2.openRead_writers () .parent).not.2 hw)
          | child1 =>
              -- child 1 comes to FIFO2 only after the parent
              have hat : child1.atOpen2 = true := by
                by_contra hat
                exact hw (h.child1Not2 (by simpa using hat))
              refine Or.inl (pastOpen2_of_atOpen1 (hpast (Or.inl ?_)))
              cases child1 <;> simp [Child1PC.atOpen2, Child1PC.pastOpen1] at hat ⊢ }
  | child2Opens hp he =>
      cases hp
      exact { h with
        child2r := fun _ => he.trans_ne nofun
        meetParent2 := fun _ => Or.inl rfl
        meetChild2 := fun _ => h.meetChild2 (Or.inr he) }
  | child2Reads i bytes f hp hi hread =>
      cases hp
      rcases Fifo.read_cases hread with ⟨-, -, -, rfl⟩ | ⟨-, -, rfl⟩ <;> exact { h with }
  | child2Commanded i bytes f hp hi hread =>
      cases hp
      rcases Fifo.read_cases hread with ⟨-, -, -, rfl⟩ | ⟨-, -, rfl⟩ <;> exact { h with }
  | child2Multiplies hp hc =>
      cases hp
      exact { h.child2_closes rfl rfl rfl with }
  | child2Fails hp hc =>
      cases hp
      exact { h.child2_closes rfl rfl rfl with }
  | child2Reenters hp he =>
      cases hp
      exact { h with
        parent2 := fun hu => (fifo2.openRead_writers () .parent).not.2 (h.parent2 hu)
        child1w := fun hu => (fifo2.openRead_writers () .child1).not.2 (h.child1w hu)
        child1Not2 := fun hu => (fifo2.openRead_writers () .child1).2 (h.child1Not2 hu)
        child2r := nofun
        meetParent2 := fun _ => Or.inl rfl
        meetChild2 := fun _ => (h.meetChild2 (Or.inl rfl)).imp_right
          (fifo2.openRead_writers () .parent).not.2 }
  | child2Reopens hp he =>
      cases hp
      exact { h with
        child2r := fun _ => he.trans_ne nofun
        meetParent2 := fun _ => Or.inl rfl
        meetChild2 := fun _ => h.meetChild2 (Or.inl rfl) }
  | child2ReadsSum bytes f hp hread =>
      cases hp
      rcases Fifo.read_cases hread with ⟨-, -, -, rfl⟩ | ⟨-, -, rfl⟩ <;> exact { h with }
  | child2Closes hp =>
      cases hp
      exact { h.child2_closes rfl rfl rfl with }

theorem EndsInv.step {array : List (BitVec 32)} {s s' : SumState} {p : Proc} (h : EndsInv s)
    (hstep : SumStep array s p s') : EndsInv s' := by
  cases p with
  | parent => exact h.step_parent hstep
  | child1 => exact h.step_child1 hstep
  | child2 => exact h.step_child2 hstep

theorem endsInv_reachable {array : List (BitVec 32)} {s : SumState}
    (h : (sumMachine array).Reachable s) : EndsInv s := by
  refine h.invariant ?_ fun s p s' _ hi hn => hi.step (sumStep_of_next hn)
  rintro s ⟨hp, hc1, hc2, hf1, hf2, -⟩
  obtain ⟨parent, child1, child2, fifo1, fifo2⟩ := s
  cases hp
  cases hc1
  cases hc2
  cases hf1
  cases hf2
  exact ⟨nofun, nofun, fun _ => rfl, nofun, nofun, fun _ => rfl, nofun, nofun, nofun, nofun, nofun⟩

end SystemProgramming.SumMult
