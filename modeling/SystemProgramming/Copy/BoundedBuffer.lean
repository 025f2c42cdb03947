import SystemProgramming.Copy.Buffer
import SystemProgramming.Lib.CondVar
import SystemProgramming.Lib.Machine

set_option autoImplicit false

/-! # Any threads on the bounded buffer

Threads call `buffer_push`, `buffer_pop` and `buffer_set_done` in any order, as often as they like.
A step of `bufferMachine` is a call, one turn of a thread inside the mutex (from a test of its wait
loop to the unlock or to sleep), or a spurious wake-up. Two lists that the program does not have
record what happened: `pushed`, the items of the completed pushes, and `popped`, the items of the
successful pops, each in the order of their critical sections.

The invariant is one line, `Inv`: what has been popped followed by what is stored is what has been
pushed. -/

namespace SystemProgramming.Copy

open Function

/-! ## The machine -/

/-- Where a thread is: outside, in one of the three functions about to test its condition under the
    mutex, or asleep in the wait loop of a push or a pop. -/
inductive ThreadPC (α : Type*)
  | outside
  | pushing (item : α)
  | asleepFull (item : α)
  | popping
  | asleepEmpty
  | settingDone

namespace ThreadPC

variable {α : Type*}

/-- Asleep on the condition variable `full`. -/
def isAsleepFull : ThreadPC α → Bool
  | asleepFull _ => true
  | _ => false

/-- Asleep on the condition variable `empty`. -/
def isAsleepEmpty : ThreadPC α → Bool
  | asleepEmpty => true
  | _ => false

/-- A woken thread tests its condition again. -/
def wake : ThreadPC α → ThreadPC α
  | asleepFull item => pushing item
  | asleepEmpty => popping
  | pc => pc

end ThreadPC

/-- The buffer, the threads and the two histories. -/
structure BufferState (ι α : Type*) where
  buffer : Buffer α
  pc : ι → ThreadPC α
  pushed : List α
  popped : List α

/-- A step: a call by a thread, a turn of a thread inside the mutex with the sleeper that its signal
    wakes, or a spurious wake-up. -/
inductive BufferMove (ι α : Type*)
  | callPush (i : ι) (item : α)
  | callPop (i : ι)
  | callSetDone (i : ι)
  | turn (i : ι) (woken : Option ι)
  | spurious (i : ι)

variable {ι α : Type*} [Fintype ι] [DecidableEq ι]

/-- One turn of thread `i` inside the mutex. -/
def turn (s : BufferState ι α) (i : ι) (woken : Option ι) : Option (BufferState ι α) :=
  match s.pc i with
  | .pushing item =>
      match bufferPush s.buffer item with
      | none => some { s with pc := update s.pc i (.asleepFull item) }
      | some b =>
          (signal ThreadPC.isAsleepEmpty ThreadPC.wake (update s.pc i .outside) woken).map
            fun pc => { s with buffer := b, pc := pc, pushed := s.pushed ++ [item] }
  | .popping =>
      match bufferPop s.buffer with
      | .wait => some { s with pc := update s.pc i .asleepEmpty }
      | .failed => some { s with pc := update s.pc i .outside }
      | .popped item b =>
          (signal ThreadPC.isAsleepFull ThreadPC.wake (update s.pc i .outside) woken).map
            fun pc => { s with buffer := b, pc := pc, popped := s.popped ++ [item] }
  | .settingDone =>
      some { s with
        buffer := bufferSetDone s.buffer
        pc := broadcast ThreadPC.isAsleepEmpty ThreadPC.wake (update s.pc i .outside) }
  | _ => none

/-- A thread outside the buffer functions enters one of them. -/
def call (s : BufferState ι α) (i : ι) (pc : ThreadPC α) : Option (BufferState ι α) :=
  match s.pc i with
  | .outside => some { s with pc := update s.pc i pc }
  | _ => none

/-- Threads on a buffer of the given size, fresh from `init_buffer`. -/
def bufferMachine (ι α : Type*) [Fintype ι] [DecidableEq ι] (size : ℤ) :
    Machine (BufferState ι α) (BufferMove ι α) where
  init s := (∃ memory, s.buffer = initBuffer memory size) ∧ (∀ i, s.pc i = .outside) ∧
    s.pushed = [] ∧ s.popped = []
  next s
    | .callPush i item => call s i (.pushing item)
    | .callPop i => call s i .popping
    | .callSetDone i => call s i .settingDone
    | .turn i woken => turn s i woken
    | .spurious i =>
        if (s.pc i).isAsleepFull || (s.pc i).isAsleepEmpty then
          some { s with pc := update s.pc i (s.pc i).wake }
        else none

/-! ## The invariant -/

/-- The buffer holds what has been pushed and not yet popped, in order. -/
def BufferInv (size : ℤ) (s : BufferState ι α) : Prop :=
  ∃ xs, Stores s.buffer xs ∧ s.buffer.capacity = size ∧ s.popped ++ xs = s.pushed

omit [Fintype ι] [DecidableEq ι] in
theorem bufferInv_congr {size : ℤ} {s s' : BufferState ι α} (h : BufferInv size s)
    (hb : s'.buffer = s.buffer) (hpush : s'.pushed = s.pushed) (hpop : s'.popped = s.popped) :
    BufferInv size s' := by
  obtain ⟨xs, hxs, hcap, heq⟩ := h
  exact ⟨xs, hb ▸ hxs, hb ▸ hcap, by rw [hpop, hpush, heq]⟩

theorem bufferInv_turn {size : ℤ} {s s' : BufferState ι α} {i : ι} {woken : Option ι}
    (h : BufferInv size s) (hstep : turn s i woken = some s') : BufferInv size s' := by
  obtain ⟨xs, hxs, hcap, heq⟩ := h
  unfold turn at hstep
  split at hstep
  · next item _ =>
      split at hstep
      · obtain rfl := Option.some.inj hstep
        exact ⟨xs, hxs, hcap, heq⟩
      · next b hpush =>
          obtain ⟨pc, -, rfl⟩ := Option.map_eq_some_iff.1 hstep
          obtain ⟨hxs', -, hcap'⟩ := bufferPush_spec hxs hpush
          exact ⟨xs ++ [item], hxs', hcap'.trans hcap, by rw [← List.append_assoc, heq]⟩
  · have hspec := bufferPop_spec hxs
    split at hstep
    · obtain rfl := Option.some.inj hstep
      exact ⟨xs, hxs, hcap, heq⟩
    · obtain rfl := Option.some.inj hstep
      exact ⟨xs, hxs, hcap, heq⟩
    · next item b hpop =>
        rw [hpop] at hspec
        obtain ⟨rest, rfl, hrest, -, hcap'⟩ := hspec
        obtain ⟨pc, -, rfl⟩ := Option.map_eq_some_iff.1 hstep
        exact ⟨rest, hrest, hcap'.trans hcap, by rw [List.append_assoc, List.singleton_append, heq]⟩
  · obtain rfl := Option.some.inj hstep
    exact ⟨xs, bufferSetDone_stores hxs, hcap, heq⟩
  · exact absurd hstep (by simp)

theorem bufferInv_step {size : ℤ} {s s' : BufferState ι α} {a : BufferMove ι α}
    (h : BufferInv size s) (hstep : (bufferMachine ι α size).next s a = some s') :
    BufferInv size s' := by
  have hcall : ∀ i pc, call s i pc = some s' → BufferInv size s' := by
    intro i pc hc
    unfold call at hc
    split at hc
    · obtain rfl := Option.some.inj hc
      exact bufferInv_congr h rfl rfl rfl
    · exact absurd hc (by simp)
  cases a with
  | callPush i item => exact hcall i _ hstep
  | callPop i => exact hcall i _ hstep
  | callSetDone i => exact hcall i _ hstep
  | turn i woken => exact bufferInv_turn h hstep
  | spurious i =>
      simp only [bufferMachine, Option.ite_none_right_eq_some, Option.some.injEq] at hstep
      obtain ⟨-, rfl⟩ := hstep
      exact bufferInv_congr h rfl rfl rfl

theorem bufferInv_reachable {size : ℤ} (hsize : 1 ≤ size) {s : BufferState ι α}
    (h : (bufferMachine ι α size).Reachable s) : BufferInv size s := by
  refine h.invariant ?_ fun _ _ _ _ hi hn => bufferInv_step hi hn
  rintro s ⟨⟨memory, hb⟩, -, hpush, hpop⟩
  exact ⟨[], hb ▸ initBuffer_stores memory hsize, by rw [hb]; rfl, by simp [hpush, hpop]⟩

/-- **The bounded buffer is a queue**: in every reachable state of any threads on it the indices and
    the count are in range, and nothing is lost, duplicated, reordered or overwritten. -/
theorem boundedBuffer_queue {size : ℤ} (hsize : 1 ≤ size) {s : BufferState ι α}
    (h : (bufferMachine ι α size).Reachable s) :
    s.buffer.capacity = size ∧ 0 ≤ s.buffer.count ∧ s.buffer.count ≤ size ∧
      0 ≤ s.buffer.inIdx ∧ s.buffer.inIdx < size ∧ 0 ≤ s.buffer.outIdx ∧ s.buffer.outIdx < size ∧
      s.buffer.inIdx = (s.buffer.outIdx + s.buffer.count).tmod size ∧
      s.popped ++ s.buffer.stored = s.pushed := by
  obtain ⟨xs, hxs, rfl, heq⟩ := bufferInv_reachable hsize h
  refine ⟨rfl, ?_, hxs.count_le, hxs.in_nonneg, hxs.in_lt, hxs.out_nonneg, hxs.out_lt, hxs.in_eq, ?_⟩
  · have := hxs.count_eq
    omega
  · rw [hxs.stored_eq, heq]

/-- Thread 0 pushes twice into a buffer of size 1, and sleeps, until thread 1 pops. -/
theorem boundedBuffer_queue_full : ∃ s : BufferState (Fin 2) ℕ,
    (bufferMachine (Fin 2) ℕ 1).exec ⟨initBuffer (fun _ => 0) 1, fun _ => .outside, [], []⟩
      [.callPush 0 7, .turn 0 none, .callPush 0 8, .turn 0 none, .callPop 1, .turn 1 (some 0),
        .turn 0 none] = some s ∧ s.popped = [7] ∧ s.pushed = [7, 8] ∧
    (s.buffer.capacity = 1 ∧ 0 ≤ s.buffer.count ∧ s.buffer.count ≤ 1 ∧
      0 ≤ s.buffer.inIdx ∧ s.buffer.inIdx < 1 ∧ 0 ≤ s.buffer.outIdx ∧ s.buffer.outIdx < 1 ∧
      s.buffer.inIdx = (s.buffer.outIdx + s.buffer.count).tmod 1 ∧
      s.popped ++ s.buffer.stored = s.pushed) := by
  obtain ⟨s, hs, hpop, hpush⟩ : ∃ s : BufferState (Fin 2) ℕ,
      (bufferMachine (Fin 2) ℕ 1).exec ⟨initBuffer (fun _ => 0) 1, fun _ => .outside, [], []⟩
        [.callPush 0 7, .turn 0 none, .callPush 0 8, .turn 0 none, .callPop 1, .turn 1 (some 0),
          .turn 0 none] = some s ∧ s.popped = [7] ∧ s.pushed = [7, 8] := ⟨_, rfl, rfl, rfl⟩
  exact ⟨s, hs, hpop, hpush, boundedBuffer_queue (le_refl 1)
    (Machine.Reachable.exec _ (.init ⟨⟨_, rfl⟩, fun _ => rfl, rfl, rfl⟩) hs)⟩

end SystemProgramming.Copy
