import SystemProgramming.Midterm.CommandLoop

set_option autoImplicit false

/-! # The client FIFO along a path

The client waits for the end of its FIFO after every command, so a pass of the command loop has to
send a response and to close every descriptor of the FIFO that it has opened. A `Ledger` keeps these
descriptors along a path. The rules say how it changes over the parts from which the handlers are
made, when opening the FIFO and writing to it succeed; a flag beside it notes the replies that are
excluded. -/

namespace SystemProgramming.Server

open Prog Handler

/-! ## The client FIFO -/

/-- The descriptors of the client FIFO that are open, and whether a response has been sent. -/
structure Ledger where
  fifos : List ℕ
  answered : Bool

/-- Nothing is open, and nothing has been sent. -/
def Ledger.empty : Ledger := ⟨[], false⟩

/-- A `write` has returned `n`. -/
def Ledger.write (s : Ledger) (fd : ℕ) (n : ℤ) : Ledger :=
  if fd ∈ s.fifos ∧ n ≠ -1 then { s with answered := true } else s

/-- The calls on the client FIFO, where opening it and writing to it succeed. -/
def fifoCalls : Monitor Call Reply Ledger where
  step s e :=
    match e.call, e.reply with
    | .openRead .clientFifo, some fd => { s with fifos := fd :: s.fifos }
    | .openWrite .clientFifo _, some fd => { s with fifos := fd :: s.fifos }
    | .write fd _, n => s.write fd n
    | .close fd, _ => { s with fifos := s.fifos.erase fd }
    | _, _ => s
  possible s e :=
    match e.call, e.reply with
    | .openRead .clientFifo, fd => fd ≠ none
    | .openWrite .clientFifo _, fd => fd ≠ none
    | .write fd _, n => fd ∈ s.fifos → n ≠ (-1 : ℤ)
    | _, _ => True

/-- The same for `request`, when this command arrives. -/
def requestCalls (command : Text) : Monitor RequestCall RequestReply Ledger where
  step s e :=
    match e.call, e.reply with
    | .file c, r => fifoCalls.step s ⟨c, r⟩
    | _, _ => s
  possible s e :=
    match e.call, e.reply with
    | .file c, r => fifoCalls.possible s ⟨c, r⟩
    | .readCommand _, r => r = some command
    | _, _ => True

/-! ## The rules -/

/-- The calls whose replies some command does not provide for. -/
def Call.isInput : Call → Bool
  | .initFile _ | .reads _ _ | .stream _ => true
  | _ => false

/-- The calls that have nothing to do with the client FIFO. -/
def Call.isNeutral : Call → Bool
  | .getFile _ | .lock _ _ | .access _ | .tmpfile | .fputs _ _ | .unlink _ => true
  | .openRead path | .openWrite path _ => path ≠ .clientFifo
  | _ => false

section Rules

variable {ex : Event Call Reply → Prop} (hex : ∀ c r, c.isInput = false → ¬ ex ⟨c, r⟩)
  {s : Ledger} {b : Prop} {β : Type} {Q : Monitor.Post (Ledger × Prop) β}

include hex

theorem wp_neutral {c : Call} (hc : c.isNeutral = true) {f : Reply c → Handler β}
    (h : ∀ r, (fifoCalls.watch ex).wp Q (f r) (s, b)) :
    (fifoCalls.watch ex).wp Q (Prog.perform c >>= f) (s, b) := by
  have hinput : c.isInput = false := by cases c <;> first | rfl | cases hc
  refine Monitor.watch_wp_bind (fun r => hex c r hinput) ?_
  intro r _
  have hstep : fifoCalls.step s ⟨c, r⟩ = s := by
    cases c with
    | openRead path => cases path <;> first | rfl | cases hc
    | openWrite path mode => cases path <;> first | rfl | cases hc
    | _ => first | rfl | cases hc
  rw [hstep]
  exact h r

theorem wp_close {fd : ℕ} {f : Unit → Handler β}
    (h : (fifoCalls.watch ex).wp Q (f ()) ({ s with fifos := s.fifos.erase fd }, b)) :
    (fifoCalls.watch ex).wp Q (close fd >>= f) (s, b) :=
  Monitor.watch_wp_bind (fun r => hex _ r rfl) fun _ _ => h

theorem wp_openClient {mode : WriteMode} {opened : List ℕ} {f : ℕ → Handler β}
    (h : ∀ fd, (fifoCalls.watch ex).wp Q (f fd) ({ s with fifos := fd :: s.fifos }, b)) :
    (fifoCalls.watch ex).wp Q (openClient mode opened >>= f) (s, b) := by
  refine Monitor.watch_wp_bind (fun r => hex _ r rfl) ?_
  intro (fd : Option ℕ) hfd
  cases fd with
  | none => exact absurd rfl hfd
  | some fd => exact h fd

theorem wp_sendBytes {fd : ℕ} {bytes : Text} {opened : List ℕ} {unlinks : Bool}
    {f : Unit → Handler β} (hfd : fd ∈ s.fifos)
    (h : (fifoCalls.watch ex).wp Q (f ()) ({ s with answered := true }, b)) :
    (fifoCalls.watch ex).wp Q (sendBytes fd bytes opened unlinks >>= f) (s, b) := by
  refine Monitor.watch_wp_bind (fun r => hex _ r rfl) ?_
  intro (n : ℤ) hn
  have hsent : n ≠ -1 := hn hfd
  have hstep : fifoCalls.step s ⟨.write fd bytes, n⟩ = { s with answered := true } :=
    if_pos ⟨hfd, hsent⟩
  rw [hstep]
  show Monitor.wp _ _ ((if n = -1 then _ else _) >>= f) _
  rw [if_neg hsent]
  exact h

theorem wp_respond {response : String} {unlinks : Bool} {f : Unit → Handler β}
    (h : (fifoCalls.watch ex).wp Q (f ()) ({ s with answered := true }, b)) :
    (fifoCalls.watch ex).wp Q (respond response unlinks >>= f) (s, b) := by
  show Monitor.wp _ _ ((openClient .plain [] >>= fun clientFd => _) >>= f) _
  refine Monitor.wp_bind.2 (wp_openClient hex fun fd => ?_)
  refine wp_sendBytes hex List.mem_cons_self (Monitor.wp_bind_pure.1 (wp_close hex ?_))
  rw [List.erase_cons_head]
  exact h

theorem wp_fileEntry {name : Text} {f : ℕ → Handler β}
    (hfull : ∀ b', b' → Q (s, b') .exited) (hnone : ex ⟨.initFile name, none⟩)
    (hsome : ∀ entry, ¬ ex ⟨.initFile name, some entry⟩)
    (h : ∀ entry, (fifoCalls.watch ex).wp Q (f entry) (s, b)) :
    (fifoCalls.watch ex).wp Q (fileEntry name >>= f) (s, b) := by
  refine Monitor.wp_bind.2 (wp_neutral hex rfl ?_)
  intro found
  cases found with
  | some entry => exact h entry
  | none =>
      refine Monitor.wp_perform_bind.2 ?_
      intro (made : Option ℕ) _
      cases made with
      | none => exact hfull _ (.inr hnone)
      | some entry =>
          exact Monitor.wp_of_eq (Monitor.watch_step_of_not (hsome entry)) (h entry)

theorem wp_writeFile (hs : s.fifos = []) {fd : ℕ} {bytes : Text} {f : ℤ → Handler β}
    (h : ∀ n, (fifoCalls.watch ex).wp Q (f n) (s, b)) :
    (fifoCalls.watch ex).wp Q (write fd bytes >>= f) (s, b) := by
  refine Monitor.watch_wp_bind (fun r => hex _ r rfl) ?_
  intro (n : ℤ) _
  have hstep : fifoCalls.step s ⟨.write fd bytes, n⟩ = s := if_neg fun h => by simp [hs] at h
  rw [hstep]
  exact h n

theorem wp_closeFile (hs : s.fifos = []) {fd : ℕ} {f : Unit → Handler β}
    (h : (fifoCalls.watch ex).wp Q (f ()) (s, b)) :
    (fifoCalls.watch ex).wp Q (close fd >>= f) (s, b) := by
  refine wp_close hex ?_
  rw [hs, List.erase_nil, ← hs]
  exact h

theorem wp_closeAll_file (hs : s.fifos = []) (fds : List ℕ) {Q : Monitor.Post (Ledger × Prop) Unit}
    (h : Q (s, b) (.returned ())) : (fifoCalls.watch ex).wp Q (closeAll fds) (s, b) := by
  induction fds with
  | nil => exact h
  | cons fd rest ih => exact wp_closeFile hex hs ih

/-- Without a descriptor of the FIFO a transfer writes to files only; when it fails, it answers. -/
theorem wp_transfer_answers (hs : s.fifos = []) (fromFd toFd sfile : ℕ) (response : String)
    (release : LockOp) (total : ℕ) (chunks : List Text)
    {Q : Monitor.Post (Ledger × Prop) (Option ℕ)}
    (hfailed : Q ({ s with answered := true }, b) (.returned none))
    (hsent : ∀ n, Q (s, b) (.returned (some n))) :
    (fifoCalls.watch ex).wp Q (transfer fromFd toFd sfile response release total chunks) (s, b) := by
  induction chunks generalizing total with
  | nil => exact hsent total
  | cons chunk rest ih =>
      refine wp_writeFile hex hs ?_
      intro n
      by_cases hn : n = chunk.length
      · rw [if_neg (not_not.2 hn)]
        exact ih (total + chunk.length)
      · rw [if_pos hn]
        refine Monitor.wp_bind.2 (wp_closeAll_file hex hs _ ?_)
        refine wp_respond hex (wp_neutral hex rfl fun _ => ?_)
        exact hfailed

end Rules

/-! ## The end of a command -/

/-- The pass has sent a response and has closed every descriptor of the FIFO. -/
def Ledger.Good {α : Type} (s : Ledger) (again : α) (o : SystemProgramming.Outcome α) : Prop :=
  o = .returned again ∧ s.answered = true ∧ s.fifos = []

/-- The end is good if and only if no excluded reply has been met. -/
def Settled (s : Ledger × Prop) (o : SystemProgramming.Outcome Unit) : Prop := s.1.Good () o ↔ ¬ s.2

theorem settled_good {b : Prop} (hb : ¬ b) : Settled (⟨[], true⟩, b) (.returned ()) :=
  iff_of_true ⟨rfl, rfl, rfl⟩ hb

theorem settled_exited {s : Ledger} {b : Prop} (hb : b) : Settled (s, b) .exited :=
  iff_of_false (fun h => by cases h.1) (not_not.2 hb)

theorem settled_undefined {s : Ledger} {b : Prop} (hb : b) : Settled (s, b) .undefined :=
  iff_of_false (fun h => by cases h.1) (not_not.2 hb)

/-- A response to a client that has not been answered, as the last thing a command does. -/
theorem wp_respond_settled {ex : Event Call Reply → Prop}
    (hex : ∀ c r, c.isInput = false → ¬ ex ⟨c, r⟩) (response : String) (unlinks : Bool) :
    (fifoCalls.watch ex).wp Settled (respond response unlinks) (.empty, False) :=
  Monitor.wp_bind_pure.1 (wp_respond hex (settled_good id))

theorem wp_neutral_settled {ex : Event Call Reply → Prop}
    (hex : ∀ c r, c.isInput = false → ¬ ex ⟨c, r⟩) {op : LockOp} {entry : ℕ} {b : Prop} (hb : ¬ b) :
    (fifoCalls.watch ex).wp Settled (lock op entry) (⟨[], true⟩, b) :=
  Monitor.wp_bind_pure.1 (wp_neutral hex rfl fun _ => settled_good hb)

end SystemProgramming.Server
