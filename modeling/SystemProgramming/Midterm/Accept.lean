import Mathlib.Data.Int.Basic
import SystemProgramming.Lib.Machine
import SystemProgramming.Midterm.Queue

set_option autoImplicit false

/-! # The accept loop of the server

`acceptMachine` interleaves `accept_connections`, one access to `num_clients` or a queue at a time,
with the handler processes it starts and with SIGCHLD. A handler only terminates here. SIGCHLD is
one bit: a termination while it is set leaves no trace. Its handler decrements `num_clients` between
any two of these steps, and is not interrupted by another SIGCHLD; `num_clients++` is two of them,
a load and a store, and what the handler takes off in between is overwritten. `fork`, `malloc` and
the calls on client FIFOs succeed. -/

namespace SystemProgramming.Server

/-- `struct client`, a connection request. -/
structure Client where
  pid : ℤ
  tryConnect : ℤ
deriving DecidableEq

/-- Where `accept_connections` is, with the client in its hands. -/
inductive AcceptPC
  /-- about to test whether a waiting client can be taken -/
  | head
  /-- the client was dequeued, `num_clients++` is next -/
  | counting (c : Client)
  /-- `num_clients++` has loaded this value, and stores it plus one next -/
  | counted (c : Client) (value : ℤ)
  /-- about to read from the server FIFO -/
  | reading
  /-- about to test whether the request can be admitted -/
  | testing (c : Client)
  /-- it can, `num_clients++` is next -/
  | admitting (c : Client)
  /-- `num_clients++` has loaded this value, and stores it plus one next -/
  | admitted (c : Client) (value : ℤ)
  /-- about to open the FIFO of a `tryConnect` client -/
  | opening (c : Client)
  /-- about to fork in `child_process` -/
  | forking (c : Client)
  /-- the clients are full -/
  | full (c : Client)
deriving DecidableEq

/-- The server process, its handler processes and SIGCHLD. -/
structure ServerState where
  pc : AcceptPC
  numClients : ℤ
  waitQue : Queue Client
  clients : Queue Client
  clientFd : ℤ
  /-- the clients whose handlers have not terminated -/
  running : List Client
  /-- SIGCHLD is pending -/
  pending : Bool
  /-- `client_termination_handler` is running -/
  handling : Bool
  /-- history: the Connect requests read, the Connect clients given a handler, the terminations
      that found SIGCHLD pending, and the decrements that a store of `num_clients++` has
      overwritten -/
  requested : List Client
  handled : List Client
  merged : ℕ
  overwritten : ℤ

/-- The next statement of the loop (with what `malloc` and `open` return), the result of the read,
    the termination of a handler process, the delivery of SIGCHLD and the end of its handler. -/
inductive ServerMove
  | main (memory : ℕ → Slot Client) (fd : ℕ)
  | read (request : Option Client)
  | terminate (i : ℕ)
  | deliver
  | handler

/-- The Connect requests among some requests; the others are tryConnect requests. -/
def connects (requests : List Client) : List Client := requests.filter fun c => c.tryConnect = 0

/-- The store of `num_clients++`, after the load of this value. -/
def ServerState.store (s : ServerState) (value : ℤ) : ServerState :=
  { s with numClients := value + 1, overwritten := s.overwritten + (value - s.numClients) }

/-- A step of `accept_connections` other than the read. -/
def mainTurn (maxClients : ℤ) (s : ServerState) (memory : ℕ → Slot Client) (fd : ℕ) :
    Option ServerState :=
  match s.pc with
  | .head =>
      if s.numClients < maxClients ∧ s.waitQue.size > 0 then
        match dequeue s.waitQue with
        | (.client c, waitQue) => some { s with pc := .counting c, waitQue := waitQue }
        | (.null, waitQue) => some { s with pc := .reading, waitQue := waitQue }
        -- the code would follow a wild pointer
        | (.junk, _) => none
      else some { s with pc := .reading }
  | .counting c => some { s with pc := .counted c s.numClients }
  | .counted c value => some { s.store value with pc := .forking c }
  | .reading => none
  | .testing c =>
      if s.clientFd ≠ -1 then
        if s.numClients < maxClients ∧ s.waitQue.size = 0 then some { s with pc := .admitting c }
        else some { s with pc := .full c }
      else some { s with pc := .head }
  | .admitting c => some { s with pc := .admitted c s.numClients }
  | .admitted c value =>
      some { s.store value with pc := if c.tryConnect = 1 then .opening c else .forking c }
  | .opening c => some { s with pc := .forking c, clientFd := fd }
  | .forking c =>
      some { s with
        pc := .head
        running := s.running ++ [c]
        clients := (enqueue s.clients c (some memory) true).2
        handled := s.handled ++ connects [c] }
  | .full c =>
      if c.tryConnect = 0 then
        some { s with pc := .head, waitQue := (enqueue s.waitQue c (some memory) true).2 }
      else some { s with pc := .head, clientFd := fd }

/-- `read(server_fd, &new_client, sizeof(struct client))`; without a request it returns -1. -/
def readTurn (s : ServerState) (request : Option Client) : Option ServerState :=
  match s.pc, request with
  | .reading, none => some { s with pc := .head }
  | .reading, some c =>
      some { s with pc := .testing c, requested := s.requested ++ connects [c] }
  | _, _ => none

/-- The server started with `max_clients`. The local `client_fd` is not initialised, its value is
    taken to differ from -1. -/
def acceptMachine (maxClients : ℤ) : Machine ServerState ServerMove where
  init s :=
    s.pc = .head ∧ s.numClients = 0 ∧ s.waitQue = queueConstructor ∧
      s.clients = queueConstructor ∧ s.clientFd ≠ -1 ∧ s.running = [] ∧ s.pending = false ∧
      s.handling = false ∧ s.requested = [] ∧ s.handled = [] ∧ s.merged = 0 ∧ s.overwritten = 0
  next s
    | .main memory fd => if s.handling then none else mainTurn maxClients s memory fd
    | .read request => if s.handling then none else readTurn s request
    | .terminate i =>
        if i < s.running.length then
          some { s with
            running := s.running.eraseIdx i
            pending := true
            merged := s.merged + s.pending.toNat }
        else none
    | .deliver =>
        if s.pending && !s.handling then some { s with pending := false, handling := true }
        else none
    | .handler =>
        if s.handling then some { s with numClients := s.numClients - 1, handling := false }
        else none

/-- A server before its first iteration. -/
def startedServer : ServerState :=
  { pc := .head, numClients := 0, waitQue := queueConstructor, clients := queueConstructor,
    clientFd := 0, running := [], pending := false, handling := false, requested := [],
    handled := [], merged := 0, overwritten := 0 }

theorem startedServer_init (maxClients : ℤ) : (acceptMachine maxClients).init startedServer :=
  ⟨rfl, rfl, rfl, rfl, by decide, rfl, rfl, rfl, rfl, rfl, rfl, rfl⟩

/-! ## What a step can do -/

/-- The steps of the server, one constructor for each way a step can go. -/
inductive ServerStep (maxClients : ℤ) (s : ServerState) : ServerMove → ServerState → Prop
  | dequeues {memory : ℕ → Slot Client} {fd : ℕ} (c : Client) (waitQue : Queue Client)
      (h : s.pc = .head) (hroom : s.numClients < maxClients)
      (hd : dequeue s.waitQue = (.client c, waitQue)) :
      ServerStep maxClients s (.main memory fd) { s with pc := .counting c, waitQue := waitQue }
  | dequeuesNull {memory : ℕ → Slot Client} {fd : ℕ} (waitQue : Queue Client) (h : s.pc = .head)
      (hsize : s.waitQue.size > 0) (hd : dequeue s.waitQue = (.null, waitQue)) :
      ServerStep maxClients s (.main memory fd) { s with pc := .reading, waitQue := waitQue }
  | passes {memory : ℕ → Slot Client} {fd : ℕ} (h : s.pc = .head) :
      ServerStep maxClients s (.main memory fd) { s with pc := .reading }
  | counts {memory : ℕ → Slot Client} {fd : ℕ} (c : Client) (h : s.pc = .counting c) :
      ServerStep maxClients s (.main memory fd) { s with pc := .counted c s.numClients }
  | stores {memory : ℕ → Slot Client} {fd : ℕ} (c : Client) (value : ℤ)
      (h : s.pc = .counted c value) :
      ServerStep maxClients s (.main memory fd) { s.store value with pc := .forking c }
  | readsNothing (h : s.pc = .reading) :
      ServerStep maxClients s (.read none) { s with pc := .head }
  | reads (c : Client) (h : s.pc = .reading) :
      ServerStep maxClients s (.read (some c))
        { s with pc := .testing c, requested := s.requested ++ connects [c] }
  | accepts {memory : ℕ → Slot Client} {fd : ℕ} (c : Client) (h : s.pc = .testing c)
      (hroom : s.numClients < maxClients) (hsize : s.waitQue.size = 0) :
      ServerStep maxClients s (.main memory fd) { s with pc := .admitting c }
  | declines {memory : ℕ → Slot Client} {fd : ℕ} (c : Client) (h : s.pc = .testing c) :
      ServerStep maxClients s (.main memory fd) { s with pc := .full c }
  | forgets {memory : ℕ → Slot Client} {fd : ℕ} (c : Client) (h : s.pc = .testing c)
      (hfd : s.clientFd = -1) : ServerStep maxClients s (.main memory fd) { s with pc := .head }
  | admits {memory : ℕ → Slot Client} {fd : ℕ} (c : Client) (h : s.pc = .admitting c) :
      ServerStep maxClients s (.main memory fd) { s with pc := .admitted c s.numClients }
  | storesAdmitted {memory : ℕ → Slot Client} {fd : ℕ} (c : Client) (value : ℤ)
      (h : s.pc = .admitted c value) :
      ServerStep maxClients s (.main memory fd)
        { s.store value with pc := if c.tryConnect = 1 then .opening c else .forking c }
  | opens {memory : ℕ → Slot Client} (c : Client) (fd : ℕ) (h : s.pc = .opening c) :
      ServerStep maxClients s (.main memory fd) { s with pc := .forking c, clientFd := fd }
  | forks {fd : ℕ} (c : Client) (memory : ℕ → Slot Client) (h : s.pc = .forking c) :
      ServerStep maxClients s (.main memory fd) { s with
        pc := .head
        running := s.running ++ [c]
        clients := (enqueue s.clients c (some memory) true).2
        handled := s.handled ++ connects [c] }
  | queues {fd : ℕ} (c : Client) (memory : ℕ → Slot Client) (h : s.pc = .full c)
      (hc : c.tryConnect = 0) :
      ServerStep maxClients s (.main memory fd)
        { s with pc := .head, waitQue := (enqueue s.waitQue c (some memory) true).2 }
  | refuses {memory : ℕ → Slot Client} (c : Client) (fd : ℕ) (h : s.pc = .full c)
      (hc : c.tryConnect ≠ 0) :
      ServerStep maxClients s (.main memory fd) { s with pc := .head, clientFd := fd }
  | terminates (i : ℕ) (hi : i < s.running.length) :
      ServerStep maxClients s (.terminate i) { s with
        running := s.running.eraseIdx i
        pending := true
        merged := s.merged + s.pending.toNat }
  | delivers (hp : s.pending = true) (hh : s.handling = false) :
      ServerStep maxClients s .deliver { s with pending := false, handling := true }
  | handles (hh : s.handling = true) :
      ServerStep maxClients s .handler
        { s with numClients := s.numClients - 1, handling := false }

theorem serverStep_of_mainTurn {maxClients : ℤ} {s s' : ServerState} {memory : ℕ → Slot Client}
    {fd : ℕ} (h : mainTurn maxClients s memory fd = some s') :
    ServerStep maxClients s (.main memory fd) s' := by
  unfold mainTurn at h
  split at h
  · next hpc =>
      split at h
      · next htest =>
          split at h
          · next c waitQue hd =>
              obtain rfl := Option.some.inj h
              exact .dequeues c waitQue hpc htest.1 hd
          · next waitQue hd =>
              obtain rfl := Option.some.inj h
              exact .dequeuesNull waitQue hpc htest.2 hd
          · exact absurd h (by simp)
      · obtain rfl := Option.some.inj h
        exact .passes hpc
  · next c hpc =>
      obtain rfl := Option.some.inj h
      exact .counts c hpc
  · next c value hpc =>
      obtain rfl := Option.some.inj h
      exact .stores c value hpc
  · exact absurd h (by simp)
  · next c hpc =>
      split at h
      · split at h
        · next htest =>
            obtain rfl := Option.some.inj h
            exact .accepts c hpc htest.1 htest.2
        · obtain rfl := Option.some.inj h
          exact .declines c hpc
      · next hfd =>
          obtain rfl := Option.some.inj h
          exact .forgets c hpc (by simpa using hfd)
  · next c hpc =>
      obtain rfl := Option.some.inj h
      exact .admits c hpc
  · next c value hpc =>
      obtain rfl := Option.some.inj h
      exact .storesAdmitted c value hpc
  · next c hpc =>
      obtain rfl := Option.some.inj h
      exact .opens c fd hpc
  · next c hpc =>
      obtain rfl := Option.some.inj h
      exact .forks c memory hpc
  · next c hpc =>
      split at h
      · next hc =>
          obtain rfl := Option.some.inj h
          exact .queues c memory hpc hc
      · next hc =>
          obtain rfl := Option.some.inj h
          exact .refuses c fd hpc hc

theorem serverStep_of_next {maxClients : ℤ} {s s' : ServerState} {a : ServerMove}
    (h : (acceptMachine maxClients).next s a = some s') : ServerStep maxClients s a s' := by
  cases a with
  | main memory fd => exact serverStep_of_mainTurn (Option.ite_none_left_eq_some.1 h).2
  | read request =>
      have h := (Option.ite_none_left_eq_some.1 h).2
      unfold readTurn at h
      split at h
      · next hpc h =>
          obtain rfl := Option.some.inj h
          exact .readsNothing hpc
      · next c hpc h =>
          obtain rfl := Option.some.inj h
          exact .reads c hpc
      · next h => exact absurd h (by simp)
  | terminate i =>
      obtain ⟨hi, h⟩ := Option.ite_none_right_eq_some.1 h
      obtain rfl := Option.some.inj h
      exact .terminates i hi
  | deliver =>
      obtain ⟨htest, h⟩ := Option.ite_none_right_eq_some.1 h
      obtain rfl := Option.some.inj h
      simp only [Bool.and_eq_true, Bool.not_eq_true'] at htest
      exact .delivers htest.1 htest.2
  | handler =>
      obtain ⟨hh, h⟩ := Option.ite_none_right_eq_some.1 h
      obtain rfl := Option.some.inj h
      exact .handles hh

end SystemProgramming.Server
