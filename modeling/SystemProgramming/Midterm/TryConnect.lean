import SystemProgramming.Midterm.Accept
import SystemProgramming.Lib.Fifo
import SystemProgramming.Lib.Bytes

set_option autoImplicit false

/-! # The answer to a tryConnect request

The server answers a `tryConnect` client through the FIFO of the client. It opens the FIFO and
closes it again when it has admitted the client, and writes the `int` 1 in between when it refuses.
The client opens, reads, closes, and looks at its local variable `full`, into which it has read.
When it is admitted it has read nothing, and `full`, which it never sets, holds whatever it held
before.

`exchangeMachine` runs the two branches against each other, from the state of the server in which it
decides on the request. The statements of the server are those of `mainTurn`, with the calls on the
FIFO around them; what `fork` will return is a parameter. -/

namespace SystemProgramming.Server

open Fifo

/-- Where the client is in its `tryConnect` branch. -/
inductive ClientPC
  /-- in `open`, then about to read -/
  | opening
  | closing
  /-- about to compare `full` with 1 -/
  | testing
  /-- goes on to its command loop -/
  | commands
  /-- terminates: the server is full -/
  | refused
deriving DecidableEq

/-- The server, the client and the FIFO between them. -/
structure Exchange where
  server : ServerState
  /-- the FIFO of the client, between the two of them -/
  fifo : Fifo Unit Unit Byte
  client : ClientPC
  /-- the local variable of the client -/
  full : List Byte
  /-- what the server has done: written the full flag, started a handler, or ended in `exitFailure`
      -/
  wrote : Bool
  started : Bool
  ended : Bool

/-- The server decides on the request; the client has written it and not opened its FIFO yet. -/
def startExchange (server : ServerState) (full : BitVec 32) : Exchange :=
  { server := server, fifo := Fifo.empty, client := .opening, full := intBytes full,
    wrote := false, started := false, ended := false }

/-- A call or a statement of the server, up to the end of its iteration. -/
def serverTurn (maxClients : ℤ) (forked : Bool) (x : Exchange) (fd : ℕ) : Option Exchange :=
  if x.ended then none
  else match x.server.pc with
  | .testing _ | .admitting _ | .admitted _ _ =>
      (mainTurn maxClients x.server (fun _ => .junk) fd).map fun server => { x with server := server }
  | .opening _ =>
      match x.fifo.writers () with
      | .closed => some { x with fifo := x.fifo.openWrite () }
      | .opening => none
      | .opened =>
          (mainTurn maxClients x.server (fun _ => .junk) fd).map fun server =>
            { x with server := server, fifo := x.fifo.closeWrite () }
  | .full _ =>
      match x.fifo.writers () with
      | .closed => some { x with fifo := x.fifo.openWrite () }
      | .opening => none
      | .opened =>
          if x.wrote then
            (mainTurn maxClients x.server (fun _ => .junk) fd).map fun server =>
              { x with server := server, fifo := x.fifo.closeWrite () }
          else (x.fifo.write (intBytes 1)).map fun fifo => { x with fifo := fifo, wrote := true }
  | .forking _ =>
      if forked then
        (mainTurn maxClients x.server (fun _ => .junk) fd).map fun server =>
          { x with server := server, started := true }
      else some { x with ended := true }
  | _ => none

/-- A call or a statement of the client, from `open(client_fifo, O_RDONLY)` to the test of `full`.
    -/
def clientTurn (x : Exchange) : Option Exchange :=
  match x.client with
  | .opening =>
      match x.fifo.readers () with
      | .closed => some { x with fifo := x.fifo.openRead () }
      | .opening => none
      | .opened =>
          (x.fifo.read 4).map fun r =>
            { x with fifo := r.2, full := overwrite x.full r.1, client := .closing }
  | .closing => some { x with fifo := x.fifo.closeRead (), client := .testing }
  | .testing =>
      some { x with client := if intOfBytes x.full = 1 then .refused else .commands }
  | _ => none

/-- Who moves; for the server, the descriptor an `open` returns. -/
inductive ExchangeMove
  | server (fd : ℕ)
  | client

/-- The exchange over one request, from the state in which the server has read it. -/
def exchangeMachine (maxClients : ℤ) (forked : Bool) (server : ServerState) (full : BitVec 32) :
    Machine Exchange ExchangeMove where
  init x := x = startExchange server full
  next x
    | .server fd => serverTurn maxClients forked x fd
    | .client => clientTurn x

/-- The test of the loop: the request is admitted. -/
def Admitted (maxClients : ℤ) (s : ServerState) : Prop :=
  s.clientFd ≠ -1 ∧ s.numClients < maxClients ∧ s.waitQue.size = 0

/-! ## The phases of an exchange -/

/-- The client once its FIFO is open, when the server answers with these bytes: its program point,
    its end of the FIFO, what it has not read yet, and its variable. -/
inductive ClientSide (full : BitVec 32) (answer : List Byte) :
    ClientPC → FifoEnd → List Byte → List Byte → Prop
  | opening : ClientSide full answer .opening .opened answer (intBytes full)
  | closing : ClientSide full answer .closing .opened [] (overwrite (intBytes full) answer)
  | testing : ClientSide full answer .testing .closed [] (overwrite (intBytes full) answer)
  | done : ClientSide full answer
      (if intOfBytes (overwrite (intBytes full) answer) = 1 then .refused else .commands)
      .closed [] (overwrite (intBytes full) answer)

/-- The server before it opens the FIFO, or when it has dropped the request. -/
inductive Before (maxClients : ℤ) (s : ServerState) (c : Client) : ServerState → Prop
  | testing : Before maxClients s c s
  | admitting (h : Admitted maxClients s) : Before maxClients s c { s with pc := .admitting c }
  | admitted (h : Admitted maxClients s) :
      Before maxClients s c { s with pc := .admitted c s.numClients }
  | opening {server : ServerState} (h : Admitted maxClients s) (hpc : server.pc = .opening c) :
      Before maxClients s c server
  | full {server : ServerState} (h : ¬ Admitted maxClients s) (hpc : server.pc = .full c) :
      Before maxClients s c server
  | dropped {server : ServerState} (h : ¬ Admitted maxClients s) (hpc : server.pc = .head) :
      Before maxClients s c server

/-- The phases: nobody or only the client has come to the FIFO; the server waits for the client;
    both have it open; the server has written; the server has closed. -/
inductive Phase (maxClients : ℤ) (forked : Bool) (s : ServerState) (c : Client) (full : BitVec 32) :
    Exchange → Prop
  | apart {server : ServerState} {r : FifoEnd} (h : Before maxClients s c server)
      (hr : r ≠ .opened) :
      Phase maxClients forked s c full
        ⟨server, pipe [] r .closed, .opening, intBytes full, false, false, false⟩
  | calling {server : ServerState} (h : Admitted maxClients s ∧ server.pc = .opening c ∨
        ¬ Admitted maxClients s ∧ server.pc = .full c) :
      Phase maxClients forked s c full
        ⟨server, pipe [] .closed .opening, .opening, intBytes full, false, false, false⟩
  | connected {server : ServerState} (h : Admitted maxClients s ∧ server.pc = .opening c ∨
        ¬ Admitted maxClients s ∧ server.pc = .full c) :
      Phase maxClients forked s c full
        ⟨server, pipe [] .opened .opened, .opening, intBytes full, false, false, false⟩
  | written {server : ServerState} {pc : ClientPC} {r : FifoEnd} {data memory : List Byte}
      (h : ¬ Admitted maxClients s) (hpc : server.pc = .full c)
      (hclient : ClientSide full (intBytes 1) pc r data memory) :
      Phase maxClients forked s c full ⟨server, pipe data r .opened, pc, memory, true, false, false⟩
  | refused {server : ServerState} {pc : ClientPC} {r : FifoEnd} {data memory : List Byte}
      (h : ¬ Admitted maxClients s) (hpc : server.pc = .head)
      (hclient : ClientSide full (intBytes 1) pc r data memory) :
      Phase maxClients forked s c full ⟨server, pipe data r .closed, pc, memory, true, false, false⟩
  | forking {server : ServerState} {pc : ClientPC} {r : FifoEnd} {data memory : List Byte}
      (ended : Bool) (h : Admitted maxClients s) (hpc : server.pc = .forking c)
      (hended : ended = true → forked = false)
      (hclient : ClientSide full [] pc r data memory) :
      Phase maxClients forked s c full
        ⟨server, pipe data r .closed, pc, memory, false, false, ended⟩
  | served {server : ServerState} {pc : ClientPC} {r : FifoEnd} {data memory : List Byte}
      (h : Admitted maxClients s) (hpc : server.pc = .head) (hforked : forked = true)
      (hclient : ClientSide full [] pc r data memory) :
      Phase maxClients forked s c full
        ⟨server, pipe data r .closed, pc, memory, false, true, false⟩

/-! ## The steps of an exchange -/

theorem ClientSide.unread {full : BitVec 32} {answer data memory : List Byte} {pc : ClientPC}
    {r : FifoEnd} (h : ClientSide full answer pc r data memory) : data = [] ∨ r ≠ .closed := by
  cases h with
  | opening => exact .inr (by decide)
  | closing => exact .inl rfl
  | testing => exact .inl rfl
  | done => exact .inl rfl

/-- The client reads the answer, which is the flag, or nothing once the server has closed. -/
theorem ClientSide.step {full : BitVec 32} {answer data memory : List Byte} {pc : ClientPC}
    {r w : FifoEnd} (h : ClientSide full answer pc r data memory)
    (hanswer : answer = intBytes 1 ∨ answer = [] ∧ w = .closed) {server : ServerState}
    {wrote started ended : Bool} {x : Exchange}
    (hturn : clientTurn ⟨server, pipe data r w, pc, memory, wrote, started, ended⟩ = some x) :
    ∃ pc' r' data' memory', ClientSide full answer pc' r' data' memory' ∧
      x = ⟨server, pipe data' r' w, pc', memory', wrote, started, ended⟩ := by
  cases h with
  | opening =>
      have hread : (pipe answer .opened w).read 4 = some (answer, pipe [] .opened w) := by
        rcases hanswer with rfl | ⟨rfl, rfl⟩
        · exact read_pipe (by decide) .opened w 4
        · exact read_pipe_end .opened 4
      refine ⟨_, _, _, _, .closing, ?_⟩
      change ((pipe answer .opened w).read 4).map _ = some x at hturn
      rw [hread] at hturn
      exact (Option.some.inj hturn).symm
  | closing =>
      refine ⟨_, _, _, _, .testing, ?_⟩
      have hclose : (pipe ([] : List Byte) .opened w).closeRead () = pipe [] .closed w :=
        closeRead_pipe (.inl rfl) .opened
      change some (_ : Exchange) = some x at hturn
      rw [← Option.some.inj hturn, hclose]
  | testing => exact ⟨_, _, _, _, .done, (Option.some.inj hturn).symm⟩
  | done =>
      by_cases hfull : intOfBytes (overwrite (intBytes full) answer) = 1
      · rw [if_pos hfull] at hturn
        cases hturn
      · rw [if_neg hfull] at hturn
        cases hturn

theorem mainTurn_testing {maxClients : ℤ} {s s' : ServerState} {c : Client}
    {memory : ℕ → Slot Client} {fd : ℕ} (hpc : s.pc = .testing c)
    (h : mainTurn maxClients s memory fd = some s') : Before maxClients s c s' := by
  rw [mainTurn, hpc] at h
  simp only at h
  split at h
  · next hfd =>
      split at h
      · next hroom =>
          obtain rfl := Option.some.inj h
          exact .admitting ⟨hfd, hroom⟩
      · next hroom =>
          obtain rfl := Option.some.inj h
          exact .full (fun hadmitted => hroom hadmitted.2) rfl
  · next hfd =>
      obtain rfl := Option.some.inj h
      exact .dropped (fun hadmitted => hfd hadmitted.1) rfl

/-- Once the server is about to open the FIFO, what it does next depends on whether the client has
    come. -/
theorem Phase.open {maxClients : ℤ} {forked : Bool} {s server : ServerState} {c : Client}
    {full : BitVec 32} (h : Admitted maxClients s ∧ server.pc = .opening c ∨
      ¬ Admitted maxClients s ∧ server.pc = .full c) {r : FifoEnd} (hr : r ≠ .opened) :
    Phase maxClients forked s c full ⟨server, (pipe [] r .closed).openWrite (), .opening,
      intBytes full, false, false, false⟩ := by
  cases r with
  | closed =>
      rw [openWrite_pipe_closed]
      exact .calling h
  | opening =>
      rw [openWrite_pipe_opening]
      exact .connected h
  | opened => exact absurd rfl hr

theorem Phase.server {maxClients : ℤ} {forked : Bool} {s : ServerState} {c : Client}
    {full : BitVec 32} {x x' : Exchange} {fd : ℕ} (hs : s.pc = .testing c) (hc : c.tryConnect = 1)
    (h : Phase maxClients forked s c full x) (hturn : serverTurn maxClients forked x fd = some x') :
    Phase maxClients forked s c full x' := by
  cases h with
  | @apart server r hbefore hr =>
      cases hbefore with
      | testing =>
          simp only [serverTurn, hs, Bool.false_eq_true, if_false] at hturn
          obtain ⟨server', hmain, rfl⟩ := Option.map_eq_some_iff.1 hturn
          exact .apart (mainTurn_testing hs hmain) hr
      | admitting hadmitted =>
          simp only [serverTurn, Bool.false_eq_true, if_false, mainTurn,
            Option.map_some, Option.some.injEq] at hturn
          obtain rfl := hturn
          exact .apart (.admitted hadmitted) hr
      | admitted hadmitted =>
          simp only [serverTurn, Bool.false_eq_true, if_false, mainTurn, hc, if_true,
            Option.map_some, Option.some.injEq] at hturn
          obtain rfl := hturn
          exact .apart (.opening hadmitted rfl) hr
      | opening hadmitted hpc =>
          simp only [serverTurn, hpc, Bool.false_eq_true, if_false, writers_pipe, Option.some.injEq]
            at hturn
          obtain rfl := hturn
          exact Phase.open (.inl ⟨hadmitted, hpc⟩) hr
      | full hadmitted hpc =>
          simp only [serverTurn, hpc, Bool.false_eq_true, if_false, writers_pipe, Option.some.injEq]
            at hturn
          obtain rfl := hturn
          exact Phase.open (.inr ⟨hadmitted, hpc⟩) hr
      | dropped hadmitted hpc =>
          simp only [serverTurn, hpc, Bool.false_eq_true, if_false, reduceCtorEq] at hturn
  | @calling server hopen =>
      rcases hopen with ⟨hadmitted, hpc⟩ | ⟨hadmitted, hpc⟩ <;>
        simp only [serverTurn, hpc, Bool.false_eq_true, if_false, writers_pipe, reduceCtorEq]
          at hturn
  | @connected server hopen =>
      have hclose : (pipe ([] : List Byte) .opened .opened).closeWrite () = pipe [] .opened .closed :=
        closeWrite_pipe (.inl rfl) .opened
      rcases hopen with ⟨hadmitted, hpc⟩ | ⟨hadmitted, hpc⟩
      · -- admitted: the server closes without writing
        simp only [serverTurn, hpc, Bool.false_eq_true, if_false, writers_pipe, mainTurn,
          Option.map_some, Option.some.injEq, hclose] at hturn
        obtain rfl := hturn
        exact .forking false hadmitted rfl (by rintro ⟨⟩) .opening
      · simp only [serverTurn, hpc, Bool.false_eq_true, if_false, writers_pipe,
          write_pipe (r := .opened) (by decide), List.nil_append, Option.map_some,
          Option.some.injEq] at hturn
        obtain rfl := hturn
        exact .written hadmitted hpc .opening
  | @written server pc r data memory hadmitted hpc hclient =>
      simp only [serverTurn, hpc, Bool.false_eq_true, if_false, writers_pipe, if_true, mainTurn, hc,
        one_ne_zero, Option.map_some, Option.some.injEq, closeWrite_pipe hclient.unread] at hturn
      obtain rfl := hturn
      exact .refused hadmitted rfl hclient
  | @refused server pc r data memory hadmitted hpc hclient =>
      simp only [serverTurn, hpc, Bool.false_eq_true, if_false, reduceCtorEq] at hturn
  | @forking server pc r data memory ended hadmitted hpc hended hclient =>
      cases ended with
      | true => simp only [serverTurn, if_true, reduceCtorEq] at hturn
      | false =>
          cases forked with
          | true =>
              simp only [serverTurn, hpc, Bool.false_eq_true, if_false, if_true, mainTurn,
                Option.map_some, Option.some.injEq] at hturn
              obtain rfl := hturn
              exact .served hadmitted rfl rfl hclient
          | false =>
              simp only [serverTurn, hpc, Bool.false_eq_true, if_false, Option.some.injEq] at hturn
              obtain rfl := hturn
              exact .forking true hadmitted hpc (fun _ => rfl) hclient
  | @served server pc r data memory hadmitted hpc hforked hclient =>
      simp only [serverTurn, hpc, Bool.false_eq_true, if_false, reduceCtorEq] at hturn

theorem Phase.client {maxClients : ℤ} {forked : Bool} {s : ServerState} {c : Client}
    {full : BitVec 32} {x x' : Exchange} (h : Phase maxClients forked s c full x)
    (hturn : clientTurn x = some x') : Phase maxClients forked s c full x' := by
  cases h with
  | @apart server r hbefore hr =>
      cases r with
      | closed =>
          simp only [clientTurn, readers_pipe, openRead_pipe_closed, Option.some.injEq] at hturn
          obtain rfl := hturn
          exact .apart hbefore (by decide)
      | opening => simp only [clientTurn, readers_pipe, reduceCtorEq] at hturn
      | opened => exact absurd rfl hr
  | @calling server hopen =>
      simp only [clientTurn, readers_pipe, openRead_pipe_opening, Option.some.injEq] at hturn
      obtain rfl := hturn
      exact .connected hopen
  | @connected server hopen =>
      -- nothing to read yet, and the server may still write
      simp only [clientTurn, readers_pipe, read_pipe_blocked (w := .opened) (by decide),
        Option.map_none, reduceCtorEq] at hturn
  | @written server pc r data memory hadmitted hpc hclient =>
      obtain ⟨pc', r', data', memory', hclient', rfl⟩ := hclient.step (.inl rfl) hturn
      exact .written hadmitted hpc hclient'
  | @refused server pc r data memory hadmitted hpc hclient =>
      obtain ⟨pc', r', data', memory', hclient', rfl⟩ := hclient.step (.inl rfl) hturn
      exact .refused hadmitted hpc hclient'
  | @forking server pc r data memory ended hadmitted hpc hended hclient =>
      obtain ⟨pc', r', data', memory', hclient', rfl⟩ := hclient.step (.inr ⟨rfl, rfl⟩) hturn
      exact .forking ended hadmitted hpc hended hclient'
  | @served server pc r data memory hadmitted hpc hforked hclient =>
      obtain ⟨pc', r', data', memory', hclient', rfl⟩ := hclient.step (.inr ⟨rfl, rfl⟩) hturn
      exact .served hadmitted hpc hforked hclient'

theorem phase_reachable {maxClients : ℤ} {forked : Bool} {s : ServerState} {c : Client}
    {full : BitVec 32} (hs : s.pc = .testing c) (hc : c.tryConnect = 1) {x : Exchange}
    (h : (exchangeMachine maxClients forked s full).Reachable x) :
    Phase maxClients forked s c full x := by
  refine h.invariant ?_ ?_
  · rintro x rfl
    exact .apart (r := .closed) .testing (by decide)
  · intro x move x' _ hphase hnext
    cases move with
    | server fd => exact hphase.server hs hc hnext
    | client => exact hphase.client hnext

/-! ## Every exchange comes to an end -/

/-- A bound for what the server has still to do for the request. -/
def AcceptPC.left : AcceptPC → ℕ
  | .testing _ => 50
  | .admitting _ => 40
  | .admitted _ _ => 30
  | .opening _ | .full _ => 20
  | .forking _ => 10
  | _ => 0

/-- A bound for what the client has still to do. -/
def ClientPC.left : ClientPC → ℕ
  | .opening => 20
  | .closing => 10
  | .testing => 5
  | _ => 0

/-- What an end has still to do to be open. -/
def endLeft : FifoEnd → ℕ
  | .closed => 2
  | .opening => 1
  | .opened => 0

/-- A bound on the steps of the two, which every step lowers. -/
def Exchange.left (x : Exchange) : ℕ :=
  x.server.pc.left + x.client.left + endLeft (x.fifo.writers ()) + endLeft (x.fifo.readers ())
    + (!x.wrote).toNat + (!x.ended).toNat

theorem endLeft_release (e : FifoEnd) : endLeft e.release ≤ endLeft e := by
  cases e <;> decide

theorem endLeft_le (e : FifoEnd) : endLeft e ≤ 2 := by
  cases e <;> decide

/-- An `open` takes its caller on, and maybe the one that waited for it. -/
theorem openWrite_left {fifo : Fifo Unit Unit Byte} (hw : fifo.writers () = .closed) :
    endLeft ((fifo.openWrite ()).writers ()) + endLeft ((fifo.openWrite ()).readers ())
      < endLeft (fifo.writers ()) + endLeft (fifo.readers ()) := by
  have hrelease := endLeft_release (fifo.readers ())
  have hclosed : endLeft .closed = 2 := rfl
  have hopening : endLeft .opening = 1 := rfl
  have hopened : endLeft .opened = 0 := rfl
  rw [hw, openWrite]
  split <;> simp only [update_unit] <;> omega

theorem openRead_left {fifo : Fifo Unit Unit Byte} (hr : fifo.readers () = .closed) :
    endLeft ((fifo.openRead ()).writers ()) + endLeft ((fifo.openRead ()).readers ())
      < endLeft (fifo.writers ()) + endLeft (fifo.readers ()) := by
  have hrelease := endLeft_release (fifo.writers ())
  have hclosed : endLeft .closed = 2 := rfl
  have hopening : endLeft .opening = 1 := rfl
  have hopened : endLeft .opened = 0 := rfl
  rw [hr, openRead]
  split <;> simp only [update_unit] <;> omega

/-- A statement of the loop from the decision on the request to the end of the iteration. -/
theorem mainTurn_left {maxClients : ℤ} {s s' : ServerState} {memory : ℕ → Slot Client} {fd : ℕ}
    (hpc : s.pc.left ≠ 0) (h : mainTurn maxClients s memory fd = some s') :
    s'.pc.left + 10 ≤ s.pc.left := by
  cases serverStep_of_mainTurn h
  case storesAdmitted c value hadmitted =>
    rw [hadmitted]
    show (if c.tryConnect = 1 then AcceptPC.opening c else .forking c).left + 10 ≤ 30
    split <;> simp [AcceptPC.left]
  case accepts c hfrom _ _ | declines c hfrom | forgets c hfrom _ | opens c hfrom | forks c hfrom |
      admits c hfrom | queues c hfrom _ | refuses c hfrom _ =>
    simp [hfrom, AcceptPC.left]
  case dequeues c waitQue hfrom _ _ | dequeuesNull waitQue hfrom _ _ | passes hfrom |
      counts c hfrom | stores c value hfrom =>
    exact absurd (by rw [hfrom]; rfl) hpc

/-- The server closes and goes on in its loop: it comes further than the pipe goes back. -/
theorem left_of_close {maxClients : ℤ} {x : Exchange} {server : ServerState} {fd : ℕ}
    (hpc : x.server.pc.left ≠ 0)
    (hmain : mainTurn maxClients x.server (fun _ => .junk) fd = some server) :
    Exchange.left { x with server := server, fifo := x.fifo.closeWrite () } < x.left := by
  have hpcs := mainTurn_left hpc hmain
  have hend := endLeft_le ((x.fifo.closeWrite ()).writers ())
  simp only [Exchange.left, closeWrite_readers]
  omega

theorem serverTurn_left {maxClients : ℤ} {forked : Bool} {x x' : Exchange} {fd : ℕ}
    (h : serverTurn maxClients forked x fd = some x') : x'.left < x.left := by
  have hwalk : ∀ server, x.server.pc.left ≠ 0 →
      mainTurn maxClients x.server (fun _ => .junk) fd = some server →
      ∀ started, Exchange.left { x with server := server, started := started } < x.left := by
    intro server hpc hmain started
    have hpcs := mainTurn_left hpc hmain
    simp only [Exchange.left]
    omega
  have hopen : x.fifo.writers () = .closed →
      Exchange.left { x with fifo := x.fifo.openWrite () } < x.left := by
    intro hw
    have hends := openWrite_left hw
    simp only [Exchange.left]
    omega
  unfold serverTurn at h
  split at h
  · cases h
  · next hended =>
      split at h
      · next c hpc =>
          obtain ⟨server, hmain, rfl⟩ := Option.map_eq_some_iff.1 h
          exact hwalk server (by simp [hpc, AcceptPC.left]) hmain x.started
      · next c hpc =>
          obtain ⟨server, hmain, rfl⟩ := Option.map_eq_some_iff.1 h
          exact hwalk server (by simp [hpc, AcceptPC.left]) hmain x.started
      · next c value hpc =>
          obtain ⟨server, hmain, rfl⟩ := Option.map_eq_some_iff.1 h
          exact hwalk server (by simp [hpc, AcceptPC.left]) hmain x.started
      · next c hpc =>
          split at h
          · next hw =>
              obtain rfl := Option.some.inj h
              exact hopen hw
          · cases h
          · obtain ⟨server, hmain, rfl⟩ := Option.map_eq_some_iff.1 h
            exact left_of_close (by simp [hpc, AcceptPC.left]) hmain
      · next c hpc =>
          split at h
          · next hw =>
              obtain rfl := Option.some.inj h
              exact hopen hw
          · cases h
          · split at h
            · obtain ⟨server, hmain, rfl⟩ := Option.map_eq_some_iff.1 h
              exact left_of_close (by simp [hpc, AcceptPC.left]) hmain
            · next hwrote =>
                obtain ⟨fifo, hwrite, rfl⟩ := Option.map_eq_some_iff.1 h
                obtain ⟨-, rfl⟩ := write_eq_some.1 hwrite
                simp [Exchange.left, hwrote]
      · next c hpc =>
          split at h
          · obtain ⟨server, hmain, rfl⟩ := Option.map_eq_some_iff.1 h
            exact hwalk server (by simp [hpc, AcceptPC.left]) hmain true
          · obtain rfl := Option.some.inj h
            simp [Exchange.left, hended]
      · cases h

theorem clientTurn_left {x x' : Exchange} (h : clientTurn x = some x') : x'.left < x.left := by
  unfold clientTurn at h
  split at h
  · next hpc =>
      split at h
      · next hr =>
          obtain rfl := Option.some.inj h
          have hends := openRead_left hr
          simp only [Exchange.left]
          omega
      · cases h
      · next hr =>
          obtain ⟨⟨bytes, fifo⟩, hread, rfl⟩ := Option.map_eq_some_iff.1 h
          have hsame : fifo.readers = x.fifo.readers ∧ fifo.writers = x.fifo.writers := by
            rcases read_cases hread with ⟨-, -, -, rfl⟩ | ⟨-, -, rfl⟩ <;> exact ⟨rfl, rfl⟩
          simp only [Exchange.left, hsame, hpc, ClientPC.left]
          omega
  · next hpc =>
      obtain rfl := Option.some.inj h
      have hend := endLeft_le ((x.fifo.closeRead ()).readers ())
      simp only [Exchange.left, closeRead_writers, hpc, ClientPC.left]
      omega
  · next hpc =>
      obtain rfl := Option.some.inj h
      simp only [Exchange.left, hpc]
      split <;> simp [ClientPC.left]
  · cases h

/-- Whatever has happened so far, the exchange can be brought to its end. -/
theorem exchange_finishes (maxClients : ℤ) (forked : Bool) (s : ServerState) (full : BitVec 32)
    (x : Exchange) : ∃ moves x', (exchangeMachine maxClients forked s full).exec x moves = some x' ∧
      (exchangeMachine maxClients forked s full).Final x' := by
  refine Machine.exists_exec_final Exchange.left ?_ x
  intro x move x' hnext
  cases move with
  | server fd => exact serverTurn_left hnext
  | client => exact clientTurn_left hnext

/-! ## Agreement -/

/-- The client goes on exactly when it has a handler, and gives up exactly when it was told to. -/
def Agreement (x : Exchange) : Prop :=
  (x.client = .commands ↔ x.started = true) ∧ (x.client = .refused ↔ x.wrote = true)

/-- When the server has closed and the client has nothing left to do, it has looked at its variable.
    -/
theorem ClientSide.final {full : BitVec 32} {answer data memory : List Byte} {pc : ClientPC}
    {r : FifoEnd} (h : ClientSide full answer pc r data memory)
    (hanswer : answer = intBytes 1 ∨ answer = []) {server : ServerState}
    {wrote started ended : Bool}
    (hfinal : clientTurn ⟨server, pipe data r .closed, pc, memory, wrote, started, ended⟩ = none) :
    pc = if intOfBytes (overwrite (intBytes full) answer) = 1 then .refused else .commands := by
  cases h with
  | opening =>
      have hread : ∃ bytes, (pipe answer .opened .closed).read 4 = some bytes := by
        rcases hanswer with rfl | rfl
        · exact ⟨_, read_pipe (by decide) .opened .closed 4⟩
        · exact ⟨_, read_pipe_end .opened 4⟩
      obtain ⟨bytes, hread⟩ := hread
      change ((pipe answer .opened .closed).read 4).map _ = none at hfinal
      rw [hread] at hfinal
      cases hfinal
  | closing => cases hfinal
  | testing => cases hfinal
  | done => rfl

/-- **tryConnect agreement.** For every state of the server, every request and every content of the
    client's variable: when neither has anything left to do, client and server agree if and only if
    the request was not admitted, or the handler could be started and the variable did not happen to
    hold 1. -/
theorem tryConnect_agreement_iff {maxClients : ℤ} {forked : Bool} {s : ServerState} {c : Client}
    {full : BitVec 32} (hs : s.pc = .testing c) (hc : c.tryConnect = 1) {x : Exchange}
    (h : (exchangeMachine maxClients forked s full).Reachable x)
    (hfinal : (exchangeMachine maxClients forked s full).Final x) :
    Agreement x ↔ ¬ Admitted maxClients s ∨ forked = true ∧ full ≠ 1 := by
  have hclient : clientTurn x = none := hfinal .client
  have hserver : serverTurn maxClients forked x 0 = none := hfinal (.server 0)
  have hempty : intOfBytes (overwrite (intBytes full) []) = full := by
    simp [overwrite, intOfBytes_intBytes]
  cases phase_reachable hs hc h with
  | @apart server r hbefore hr =>
      -- only a server that has dropped the request has nothing left to do
      cases hbefore with
      | testing =>
          simp only [serverTurn, hs, Bool.false_eq_true, if_false, Option.map_eq_none_iff,
            mainTurn] at hserver
          split at hserver
          · split at hserver <;> cases hserver
          · cases hserver
      | admitting hadmitted | admitted hadmitted => cases hserver
      | opening hadmitted hpc | full hadmitted hpc =>
          simp only [serverTurn, hpc, Bool.false_eq_true, if_false, writers_pipe,
            reduceCtorEq] at hserver
      | dropped hadmitted hpc => exact iff_of_true ⟨by simp, by simp⟩ (.inl hadmitted)
  | @calling server hopen => cases hclient
  | @connected server hopen =>
      rcases hopen with ⟨hadmitted, hpc⟩ | ⟨hadmitted, hpc⟩
      · simp only [serverTurn, hpc, Bool.false_eq_true, if_false, writers_pipe, mainTurn,
          Option.map_some, reduceCtorEq] at hserver
      · simp only [serverTurn, hpc, Bool.false_eq_true, if_false, writers_pipe,
          write_pipe (r := .opened) (by decide), Option.map_some, reduceCtorEq] at hserver
  | @written server pc r data memory hadmitted hpc hside =>
      simp only [serverTurn, hpc, Bool.false_eq_true, if_false, writers_pipe, if_true, mainTurn, hc,
        one_ne_zero, Option.map_some, reduceCtorEq] at hserver
  | @refused server pc r data memory hadmitted hpc hside =>
      rw [hside.final (.inl rfl) hclient, intOfBytes_overwrite, if_pos rfl]
      exact iff_of_true ⟨by simp, by simp⟩ (.inl hadmitted)
  | @forking server pc r data memory ended hadmitted hpc hended hside =>
      -- `fork` has failed: the client has been let in and has no handler
      have hforked : forked = false := by
        cases ended with
        | true => exact hended rfl
        | false =>
            simp only [serverTurn, hpc, Bool.false_eq_true, if_false, mainTurn, Option.map_some]
              at hserver
            split at hserver <;> cases hserver
      rw [hside.final (.inr rfl) hclient, hempty, hforked]
      refine iff_of_false ?_ (by simp [hadmitted])
      rintro ⟨hgoes, hgives⟩
      by_cases hone : full = 1
      · rw [if_pos hone] at hgives
        cases hgives.1 rfl
      · rw [if_neg hone] at hgoes
        cases hgoes.1 rfl
  | @served server pc r data memory hadmitted hpc hforked hside =>
      rw [hside.final (.inr rfl) hclient, hempty, hforked]
      by_cases hone : full = 1
      · rw [if_pos hone]
        refine iff_of_false ?_ (by simp [hadmitted, hone])
        rintro ⟨hgoes, -⟩
        cases hgoes.2 rfl
      · rw [if_neg hone]
        exact iff_of_true ⟨by simp, by simp⟩ (.inr ⟨rfl, hone⟩)

/-- The server with one client and room for another; its FIFO names and queues are as at the start.
    -/
def deciding : ServerState := { startedServer with pc := .testing ⟨7, 1⟩, numClients := 1 }

/-- Room for the request, and a variable that holds 0: the client goes on, and has its handler. -/
theorem tryConnect_agreement_iff_admitted : ∃ x,
    (exchangeMachine 2 true deciding 0).exec (startExchange deciding 0)
      [.server 3, .server 3, .server 3, .server 3, .client, .server 3, .client, .server 3, .client,
          .client]
      = some x ∧ x.started = true ∧ x.client = .commands ∧
    (Agreement x ↔ ¬ Admitted 2 deciding ∨ true = true ∧ (0 : BitVec 32) ≠ 1) := by
  obtain ⟨x, hx, hstarted, hclient, hfinal⟩ : ∃ x,
      (exchangeMachine 2 true deciding 0).exec (startExchange deciding 0)
        [.server 3, .server 3, .server 3, .server 3, .client, .server 3, .client, .server 3, .client,
          .client]
        = some x ∧ x.started = true ∧ x.client = .commands ∧
      (exchangeMachine 2 true deciding 0).Final x :=
    ⟨_, rfl, rfl, rfl, fun move => by cases move <;> rfl⟩
  have hreach := Machine.Reachable.exec _ (.init rfl) hx
  exact ⟨x, hx, hstarted, hclient,
    tryConnect_agreement_iff (c := ⟨7, 1⟩) rfl rfl hreach hfinal⟩

/-- Room for the request, and a variable that holds 1: the client gives up, and has a handler. -/
theorem tryConnect_not_always_agreement : ¬ ∀ maxClients s c full x, s.pc = .testing c →
    c.tryConnect = 1 → (exchangeMachine maxClients true s full).Reachable x →
    (exchangeMachine maxClients true s full).Final x → Agreement x := by
  intro hall
  obtain ⟨x, hx, hstarted, hclient, hfinal⟩ : ∃ x,
      (exchangeMachine 2 true deciding 1).exec (startExchange deciding 1)
        [.server 3, .server 3, .server 3, .server 3, .client, .server 3, .client, .server 3, .client,
          .client]
        = some x ∧ x.started = true ∧ x.client = .refused ∧
      (exchangeMachine 2 true deciding 1).Final x :=
    ⟨_, rfl, rfl, rfl, fun move => by cases move <;> rfl⟩
  have hreach := Machine.Reachable.exec _ (.init rfl) hx
  have hagree := hall 2 deciding ⟨7, 1⟩ 1 x rfl rfl hreach hfinal
  rw [Agreement, hstarted, hclient] at hagree
  cases hagree.1.2 rfl

end SystemProgramming.Server
