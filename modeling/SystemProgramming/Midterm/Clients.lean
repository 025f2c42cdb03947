import SystemProgramming.Midterm.Accept

set_option autoImplicit false

/-! # The server among its clients

`acceptMachine` takes for granted that every call succeeds. Here the accept loop runs in a world
where clients come and go: a client creates its FIFO and writes its request to the FIFO of the
server, and may vanish at any time, which removes its FIFO. The loop opens the FIFO of a
`tryConnect` client, and writes to it when it refuses the client; without the FIFO, or without the
client at its other end, the server process ends, by `exitFailure` or by SIGPIPE. `fork` and
`malloc` may fail too.

What the loop does apart from these calls is `mainTurn` and `readTurn`. As long as no call fails, a
step of the world is a step of `acceptMachine` or none of its business (`server_of_next`). -/

namespace SystemProgramming.Server

/-- Why the server process has ended. -/
inductive Ending
  | clientFifo
  | fork
deriving DecidableEq

/-- The server process with its handlers, and its clients. -/
structure World where
  server : ServerState
  /-- the FIFO of the client that is being refused, once it is open, and whether the client still
      has its end of it -/
  refusing : Option ℕ
  reader : Bool
  ended : Option Ending
  /-- the FIFO of the client with this PID exists, and the client is there -/
  fifo : ℤ → Bool
  /-- the requests in the FIFO of the server -/
  sent : List Client
  /-- history: the clients whose handlers have terminated, and those whose registration failed -/
  gone : List Client
  unregistered : List Client

/-- What the calls of a statement return, as far as it makes any. -/
structure Outcome where
  newElements : Option (ℕ → Slot Client)
  newClient : Bool
  forked : Bool
  fd : ℕ

/-- A step of the server, of its signals, or of a client. -/
inductive WorldMove
  | main (o : Outcome)
  | read
  | terminate (i : ℕ)
  | deliver
  | handler
  /-- a client creates its FIFO and writes its request -/
  | connect (c : Client)
  /-- the client with this PID disappears, and its FIFO with it -/
  | vanish (pid : ℤ)

/-- The loop is refusing the client with this PID. -/
def AcceptPC.refuses (pid : ℤ) : AcceptPC → Bool
  | .full c => c.pid = pid
  | _ => false

/-- A statement of `accept_connections` other than the read. -/
def worldTurn (maxClients : ℤ) (w : World) (o : Outcome) : Option World :=
  match w.server.pc with
  | .opening c =>
      if w.fifo c.pid then
        some { w with server := { w.server with pc := .forking c, clientFd := o.fd } }
      else some { w with ended := some .clientFifo }
  | .forking c =>
      if o.forked then
        some { w with
          server := { w.server with
            pc := .head
            running := w.server.running ++ [c]
            clients := (enqueue w.server.clients c o.newElements o.newClient).2
            handled := w.server.handled ++ connects [c] }
          unregistered :=
            if (enqueue w.server.clients c o.newElements o.newClient).1 then w.unregistered
            else w.unregistered ++ [c] }
      else some { w with ended := some .fork }
  | .full c =>
      if c.tryConnect = 0 then
        some { w with server := { w.server with
          pc := .head
          waitQue := (enqueue w.server.waitQue c o.newElements o.newClient).2 } }
      else
        match w.refusing with
        | none =>
            if w.fifo c.pid then some { w with refusing := some o.fd, reader := true }
            else some { w with ended := some .clientFifo }
        | some fd =>
            if w.reader then
              some { w with
                refusing := none
                server := { w.server with pc := .head, clientFd := fd } }
            else some { w with ended := some .clientFifo }
  | _ => (mainTurn maxClients w.server (fun _ => .null) o.fd).map fun server =>
      { w with server := server }

/-- The server started with `max_clients`, before any client; `clientFd` is what the uninitialised
    local `client_fd` happens to hold. -/
def worldMachine (maxClients clientFd : ℤ) : Machine World WorldMove where
  init w :=
    w.server.clientFd = clientFd ∧ w.server.pc = .head ∧ w.server.numClients = 0 ∧
      w.server.waitQue = queueConstructor ∧
      w.server.clients = queueConstructor ∧ w.server.running = [] ∧ w.server.pending = false ∧
      w.server.handling = false ∧ w.server.requested = [] ∧ w.server.handled = [] ∧
      w.server.merged = 0 ∧ w.server.overwritten = 0 ∧ w.refusing = none ∧ w.ended = none ∧
      w.sent = [] ∧ w.gone = [] ∧ w.unregistered = []
  next w
    | .main o => if w.ended = none ∧ w.server.handling = false then worldTurn maxClients w o else none
    | .read =>
        if w.ended = none ∧ w.server.handling = false then
          (readTurn w.server w.sent.head?).map fun server =>
            { w with server := server, sent := w.sent.tail }
        else none
    | .terminate i =>
        if h : i < w.server.running.length then
          ((acceptMachine maxClients).next w.server (.terminate i)).map fun server =>
            { w with server := server, gone := w.gone ++ [w.server.running[i]] }
        else none
    | .deliver =>
        ((acceptMachine maxClients).next w.server .deliver).map fun server =>
          { w with server := server }
    | .handler =>
        ((acceptMachine maxClients).next w.server .handler).map fun server =>
          { w with server := server }
    | .connect c =>
        if w.fifo c.pid then none
        else some { w with fifo := Function.update w.fifo c.pid true, sent := w.sent ++ [c] }
    | .vanish pid =>
        some { w with
          fifo := Function.update w.fifo pid false
          reader := w.reader && !w.server.pc.refuses pid }

/-- The server has started, and no client has come. -/
def startedWorld : World :=
  { server := startedServer, refusing := none, reader := false, ended := none,
    fifo := fun _ => false, sent := [], gone := [], unregistered := [] }

theorem startedWorld_init (maxClients : ℤ) : (worldMachine maxClients 0).init startedWorld :=
  ⟨rfl, rfl, rfl, rfl, rfl, rfl, rfl, rfl, rfl, rfl, rfl, rfl, rfl, rfl, rfl, rfl, rfl⟩

/-- A statement of the loop whose calls succeed. -/
def turn : WorldMove := .main ⟨some fun _ => .junk, true, true, 3⟩

/-- A Connect request for which there is room, from its start to its handler. -/
def serveConnect (pid : ℤ) : List WorldMove :=
  [.connect ⟨pid, 0⟩, turn, .read, turn, turn, turn, turn]

/-! ## The accept loop in the world -/

/-- No call fails: `fork` and `malloc` succeed. -/
def WorldMove.Succeeds : WorldMove → Prop
  | .main o => o.newElements.isSome ∧ o.newClient = true ∧ o.forked = true
  | _ => True

/-- When no call fails, a statement of the loop is one of `acceptMachine`, or the first half of a
    refusal, which only opens the FIFO. -/
theorem server_of_worldTurn {maxClients : ℤ} {w w' : World} {o : Outcome}
    (hsucc : (WorldMove.main o).Succeeds) (h : worldTurn maxClients w o = some w') :
    w'.server = w.server ∨
      ∃ memory fd, mainTurn maxClients w.server memory fd = some w'.server := by
  obtain ⟨hmemory, hclient, hfork⟩ := hsucc
  obtain ⟨memory, hmemory⟩ := Option.isSome_iff_exists.1 hmemory
  unfold worldTurn at h
  rw [hmemory, hclient, hfork] at h
  split at h
  · next c hpc =>
      split at h
      · obtain rfl := Option.some.inj h
        exact .inr ⟨memory, o.fd, by rw [mainTurn, hpc]⟩
      · obtain rfl := Option.some.inj h
        exact .inl rfl
  · next c hpc =>
      rw [if_pos rfl] at h
      obtain rfl := Option.some.inj h
      exact .inr ⟨memory, o.fd, by rw [mainTurn, hpc]⟩
  · next c hpc =>
      split at h
      · next hc =>
          obtain rfl := Option.some.inj h
          exact .inr ⟨memory, o.fd, by rw [mainTurn, hpc]; exact if_pos hc⟩
      · next hc =>
          split at h
          · split at h <;> obtain rfl := Option.some.inj h <;> exact .inl rfl
          · next fd hfd =>
              split at h
              · obtain rfl := Option.some.inj h
                exact .inr ⟨memory, fd, by rw [mainTurn, hpc]; exact if_neg hc⟩
              · obtain rfl := Option.some.inj h
                exact .inl rfl
  · obtain ⟨server, hserver, rfl⟩ := Option.map_eq_some_iff.1 h
    exact .inr ⟨_, _, hserver⟩

/-- As long as no call fails, a step of the world is a step of `acceptMachine`, or it leaves the
    server alone. -/
theorem server_of_next {maxClients clientFd : ℤ} {w w' : World} {a : WorldMove} (hsucc : a.Succeeds)
    (h : (worldMachine maxClients clientFd).next w a = some w') :
    w'.server = w.server ∨ ∃ b, (acceptMachine maxClients).next w.server b = some w'.server := by
  cases a with
  | main o =>
      obtain ⟨⟨-, hhandling⟩, h⟩ := Option.ite_none_right_eq_some.1 h
      rcases server_of_worldTurn hsucc h with hsame | ⟨memory, fd, hturn⟩
      · exact .inl hsame
      · refine .inr ⟨.main memory fd, ?_⟩
        show (if w.server.handling = true then none else _) = _
        rw [hhandling, if_neg Bool.false_ne_true, hturn]
  | read =>
      obtain ⟨⟨-, hhandling⟩, h⟩ := Option.ite_none_right_eq_some.1 h
      obtain ⟨server, hread, rfl⟩ := Option.map_eq_some_iff.1 h
      refine .inr ⟨.read w.sent.head?, ?_⟩
      show (if w.server.handling = true then none else _) = _
      rw [hhandling, if_neg Bool.false_ne_true, hread]
  | terminate i =>
      change (if h : i < w.server.running.length then _ else none) = some w' at h
      split at h
      · obtain ⟨server, hserver, rfl⟩ := Option.map_eq_some_iff.1 h
        exact .inr ⟨_, hserver⟩
      · cases h
  | deliver =>
      obtain ⟨server, hserver, rfl⟩ := Option.map_eq_some_iff.1 h
      exact .inr ⟨_, hserver⟩
  | handler =>
      obtain ⟨server, hserver, rfl⟩ := Option.map_eq_some_iff.1 h
      exact .inr ⟨_, hserver⟩
  | connect c =>
      obtain ⟨-, h⟩ := Option.ite_none_left_eq_some.1 h
      obtain rfl := Option.some.inj h
      exact .inl rfl
  | vanish pid =>
      obtain rfl := Option.some.inj h
      exact .inl rfl

/-- The server of a world in which no call fails is one of `acceptMachine`. -/
theorem server_reachable {maxClients clientFd : ℤ} (hfd : clientFd ≠ -1) {w : World}
    (h : (worldMachine maxClients clientFd).ReachableUnder (fun _ a => a.Succeeds) w) :
    (acceptMachine maxClients).Reachable w.server := by
  refine h.invariant (I := fun w => (acceptMachine maxClients).Reachable w.server) ?_ ?_
  · rintro w ⟨rfl, hpc, hnum, hwait, hclients, hrunning, hpending, hhandling, hreq, hhandled,
      hmerged, hover, -⟩
    refine .init ?_
    exact ⟨hpc, hnum, hwait, hclients, hfd, hrunning, hpending, hhandling, hreq, hhandled, hmerged,
      hover⟩
  · intro w a w' _ hw hsucc hnext
    rcases server_of_next hsucc hnext with hsame | ⟨b, hb⟩
    · rw [hsame]
      exact hw
    · exact hw.step hb

end SystemProgramming.Server
