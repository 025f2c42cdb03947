import SystemProgramming.Lib.Dialogue
import SystemProgramming.Midterm.ClientLink

set_option autoImplicit false

/-! # The framing of the commands

When are the strings that a handler takes the commands that its client has sent? The FIFO has no
framing of its own: a `read` returns what is there, one message, a part of the next, or what the
reader has written itself. `Phase` lists what the ends and the content of the FIFO can be while a
client and its handler take turns, and behind a signal that comes at the prompt. -/

namespace SystemProgramming.Server.Framing

open Function

/-! ## The property and its condition -/

/-- The handler has taken exactly the commands that the client has sent, but for the last, which is
    then in the FIFO as it was sent, alone. -/
def Framed (x : Link) : Prop :=
  x.sent = x.taken ∨
    ∃ s : Sending, x.pipe.data = s.message ∧ x.sent = x.taken ++ [s.command]

/-- The client has no command in the FIFO, no descriptor of it, and no answer to wait for. -/
def AtPrompt (x : Link) : Prop :=
  match x.client with
  | .prompt => True
  | .sending _ _ => x.pipe.writers .client ≠ .opened
  | _ => False

/-- A signal comes while the client is at its prompt, or has a line whose `open` has not returned,
    the handler is before the next command, and both FIFOs are there; what a pass leaves in the array
    of the handler has a NUL at the place of the terminator that the `quit` of `kill_child` lacks; and
    a pass closes its descriptors. -/
def Timely (x : Link) : LinkMove → Prop
  | .interrupt => AtPrompt x ∧ x.handler = .opening ∧ x.linked = true ∧ x.server = true
  | .handler r =>
      (x.handler = .opening → x.pipe.data = "quit".toList → x.memory[4]? = some nul) ∧
        r.leaks = false
  | _ => True

instance (x : Link) : Decidable (AtPrompt x) := by
  unfold AtPrompt
  exact match x.client with
    | .prompt => inferInstanceAs (Decidable True)
    | .sending _ _ => inferInstanceAs (Decidable (_ ≠ _))
    | .sent _ | .listening | .heard | .ended => inferInstanceAs (Decidable False)

instance (x : Link) : (a : LinkMove) → Decidable (Timely x a)
  | .interrupt => inferInstanceAs (Decidable (_ ∧ _))
  | .handler _ => inferInstanceAs (Decidable (_ ∧ _))
  | .line _ _ | .endOfInput | .client | .signal | .giveUp | .readFails | .serverEnds =>
      inferInstanceAs (Decidable True)

/-- A step of `kill_child` or of the handler. -/
def answersSignal : LinkMove → Bool
  | .signal | .handler _ => true
  | _ => false

/-! ## The ends of the FIFO -/

/-- The ends for reading. -/
def readEnds (client handler : FifoEnd) : Reader → FifoEnd
  | .client => client
  | .handler => handler

/-- The ends for writing; none is leaked. -/
def writeEnds (client signal handler : FifoEnd) : Writer → FifoEnd
  | .client => client
  | .signal => signal
  | .handler => handler
  | .leaked => .closed

/-- The FIFO with this content and these ends. -/
def fifo (data : Text) (rc rh wc ws wh : FifoEnd) : Fifo Reader Writer Char :=
  ⟨data, readEnds rc rh, writeEnds wc ws wh, []⟩

theorem empty_eq_fifo : (Fifo.empty : Fifo Reader Writer Char)
    = fifo [] .closed .closed .closed .closed .closed := by
  have hreaders : (fun _ => FifoEnd.closed) = readEnds .closed .closed := by
    funext r
    cases r <;> rfl
  have hwriters : (fun _ => FifoEnd.closed) = writeEnds .closed .closed .closed := by
    funext w
    cases w <;> rfl
  rw [Fifo.empty, hreaders, hwriters, fifo]

section Ends

variable {data : Text} {rc rh wc ws wh : FifoEnd}

theorem update_readEnds_client (e : FifoEnd) :
    update (readEnds rc rh) .client e = readEnds e rh := by
  funext r
  cases r <;> rfl

theorem update_readEnds_handler (e : FifoEnd) :
    update (readEnds rc rh) .handler e = readEnds rc e := by
  funext r
  cases r <;> rfl

theorem update_writeEnds_client (e : FifoEnd) :
    update (writeEnds wc ws wh) .client e = writeEnds e ws wh := by
  funext w
  cases w <;> rfl

theorem update_writeEnds_signal (e : FifoEnd) :
    update (writeEnds wc ws wh) .signal e = writeEnds wc e wh := by
  funext w
  cases w <;> rfl

theorem update_writeEnds_handler (e : FifoEnd) :
    update (writeEnds wc ws wh) .handler e = writeEnds wc ws e := by
  funext w
  cases w <;> rfl

theorem update_writeEnds_leaked :
    update (writeEnds wc ws wh) .leaked .closed = writeEnds wc ws wh := by
  funext w
  cases w <;> rfl

theorem release_readEnds :
    (fun r => (readEnds rc rh r).release) = readEnds rc.release rh.release := by
  funext r
  cases r <;> rfl

theorem release_writeEnds :
    (fun w => (writeEnds wc ws wh w).release) = writeEnds wc.release ws.release wh.release := by
  funext w
  cases w <;> rfl

theorem hasReader_fifo : (fifo data rc rh wc ws wh).HasReader ↔ ¬ (rc = .closed ∧ rh = .closed) := by
  constructor
  · rintro ⟨r, hr⟩ ⟨rfl, rfl⟩
    cases r <;> exact hr rfl
  · intro h
    by_cases hrc : rc = .closed
    · exact ⟨.handler, fun hrh => h ⟨hrc, hrh⟩⟩
    · exact ⟨.client, hrc⟩

theorem hasWriter_fifo : (fifo data rc rh wc ws wh).HasWriter ↔
    ¬ (wc = .closed ∧ ws = .closed ∧ wh = .closed) := by
  constructor
  · rintro ⟨w, hw⟩ ⟨rfl, rfl, rfl⟩
    cases w <;> exact hw rfl
  · intro h
    by_cases hwc : wc = .closed
    · by_cases hws : ws = .closed
      · exact ⟨.handler, fun hwh => h ⟨hwc, hws, hwh⟩⟩
      · exact ⟨.signal, hws⟩
    · exact ⟨.client, hwc⟩

@[simp] theorem readers_client : (fifo data rc rh wc ws wh).readers .client = rc := rfl

@[simp] theorem readers_handler : (fifo data rc rh wc ws wh).readers .handler = rh := rfl

@[simp] theorem writers_client : (fifo data rc rh wc ws wh).writers .client = wc := rfl

@[simp] theorem writers_signal : (fifo data rc rh wc ws wh).writers .signal = ws := rfl

@[simp] theorem writers_handler : (fifo data rc rh wc ws wh).writers .handler = wh := rfl

theorem openRead_client : (fifo data rc rh wc ws wh).openRead .client =
    if wc = .closed ∧ ws = .closed ∧ wh = .closed then fifo data .opening rh wc ws wh
    else fifo data .opened rh wc.release ws.release wh.release := by
  unfold Fifo.openRead
  simp only [hasWriter_fifo, ite_not]
  simp only [fifo, update_readEnds_client, release_writeEnds]

theorem openRead_handler : (fifo data rc rh wc ws wh).openRead .handler =
    if wc = .closed ∧ ws = .closed ∧ wh = .closed then fifo data rc .opening wc ws wh
    else fifo data rc .opened wc.release ws.release wh.release := by
  unfold Fifo.openRead
  simp only [hasWriter_fifo, ite_not]
  simp only [fifo, update_readEnds_handler, release_writeEnds]

theorem openWrite_client : (fifo data rc rh wc ws wh).openWrite .client =
    if rc = .closed ∧ rh = .closed then fifo data rc rh .opening ws wh
    else fifo data rc.release rh.release .opened ws wh := by
  unfold Fifo.openWrite
  simp only [hasReader_fifo, ite_not]
  simp only [fifo, update_writeEnds_client, release_readEnds]

theorem openWrite_signal : (fifo data rc rh wc ws wh).openWrite .signal =
    if rc = .closed ∧ rh = .closed then fifo data rc rh wc .opening wh
    else fifo data rc.release rh.release wc .opened wh := by
  unfold Fifo.openWrite
  simp only [hasReader_fifo, ite_not]
  simp only [fifo, update_writeEnds_signal, release_readEnds]

theorem openWrite_handler : (fifo data rc rh wc ws wh).openWrite .handler =
    if rc = .closed ∧ rh = .closed then fifo data rc rh wc ws .opening
    else fifo data rc.release rh.release wc ws .opened := by
  unfold Fifo.openWrite
  simp only [hasReader_fifo, ite_not]
  simp only [fifo, update_writeEnds_handler, release_readEnds]

theorem write_fifo (bytes : Text) : (fifo data rc rh wc ws wh).write bytes =
    if rc = .closed ∧ rh = .closed then none else some (fifo (data ++ bytes) rc rh wc ws wh) := by
  unfold Fifo.write
  simp only [hasReader_fifo, ite_not]
  rfl

theorem read_fifo (hdata : data ≠ []) (n : ℕ) : (fifo data rc rh wc ws wh).read n =
    some (data.take n, fifo (data.drop n) rc rh wc ws wh) := if_neg hdata

theorem read_fifo_nil (n : ℕ) : (fifo [] rc rh wc ws wh).read n =
    if wc = .closed ∧ ws = .closed ∧ wh = .closed then some ([], fifo [] rc rh wc ws wh)
    else none := by
  unfold Fifo.read
  simp only [hasWriter_fifo, ite_not]
  exact if_pos rfl

/-- Data is kept as long as somebody has the FIFO open. -/
theorem discard_fifo (h : data = [] ∨ ¬ (rc = .closed ∧ rh = .closed) ∨
    ¬ (wc = .closed ∧ ws = .closed ∧ wh = .closed)) :
    (fifo data rc rh wc ws wh).discard = fifo data rc rh wc ws wh :=
  Fifo.discard_eq_self (h.imp id fun h => h.imp hasReader_fifo.2 hasWriter_fifo.2)

theorem closeRead_client (h : data = [] ∨ rh ≠ .closed ∨ wh ≠ .closed) :
    (fifo data rc rh wc ws wh).closeRead .client = fifo data .closed rh wc ws wh := by
  unfold Fifo.closeRead
  refine Eq.trans ?_ (discard_fifo (h.imp id (Or.imp (mt And.right) (mt fun h => h.2.2))))
  simp only [fifo, update_readEnds_client]

theorem closeRead_handler (h : data = [] ∨ rc ≠ .closed ∨ ¬ (wc = .closed ∧ ws = .closed)) :
    (fifo data rc rh wc ws wh).closeRead .handler = fifo data rc .closed wc ws wh := by
  unfold Fifo.closeRead
  refine Eq.trans ?_ (discard_fifo (h.imp id (Or.imp (mt And.left) (mt fun h => ⟨h.1, h.2.1⟩))))
  simp only [fifo, update_readEnds_handler]

theorem closeWrite_client (h : data = [] ∨ rh ≠ .closed ∨ wh ≠ .closed) :
    (fifo data rc rh wc ws wh).closeWrite .client = fifo data rc rh .closed ws wh := by
  unfold Fifo.closeWrite
  refine Eq.trans ?_ (discard_fifo (h.imp id (Or.imp (mt And.right) (mt fun h => h.2.2))))
  simp only [fifo, update_writeEnds_client]

theorem closeWrite_signal (h : data = [] ∨ rh ≠ .closed ∨ wh ≠ .closed) :
    (fifo data rc rh wc ws wh).closeWrite .signal = fifo data rc rh wc .closed wh := by
  unfold Fifo.closeWrite
  refine Eq.trans ?_ (discard_fifo (h.imp id (Or.imp (mt And.right) (mt fun h => h.2.2))))
  simp only [fifo, update_writeEnds_signal]

theorem closeWrite_handler (h : data = [] ∨ rc ≠ .closed ∨ ¬ (wc = .closed ∧ ws = .closed)) :
    (fifo data rc rh wc ws wh).closeWrite .handler = fifo data rc rh wc ws .closed := by
  unfold Fifo.closeWrite
  refine Eq.trans ?_ (discard_fifo (h.imp id (Or.imp (mt And.left) (mt fun h => ⟨h.1, h.2.1⟩))))
  simp only [fifo, update_writeEnds_handler]

/-- The client process is gone, and what the handler has not read is still there. -/
theorem clientEnds_fifo (h : data = [] ∨ rh ≠ .closed ∨ wh ≠ .closed) :
    (((fifo data rc rh wc ws wh).closeRead .client).closeWrite .client).closeWrite .signal
      = fifo data .closed rh .closed .closed wh := by
  rw [closeRead_client h, closeWrite_client h, closeWrite_signal h]

theorem handlerEnds_fifo (h : data = [] ∨ rc ≠ .closed ∨ ¬ (wc = .closed ∧ ws = .closed)) :
    (((fifo data rc rh wc ws wh).closeRead .handler).closeWrite .handler).closeWrite .leaked
      = fifo data rc .closed wc ws .closed := by
  rw [closeRead_handler h, closeWrite_handler h]
  unfold Fifo.closeWrite
  refine Eq.trans ?_ (discard_fifo (h.imp id (Or.imp (mt And.left) (mt fun h => ⟨h.1, h.2.1⟩))))
  simp only [fifo, update_writeEnds_leaked]

end Ends

/-! ## The phases -/

/-- The client has no command in the FIFO; its write end. -/
inductive Asking : LoopPC → FifoEnd → Prop
  | prompt : Asking .prompt .closed
  | sending {stored : Text} {h : stored.length < 256} (w : FifoEnd) : Asking (.sending stored h) w

/-- The client has sent a command; its read end and its write end. -/
inductive Asked : LoopPC → FifoEnd → FifoEnd → Prop
  | sent (quit : Bool) : Asked (.sent quit) .closed .opened
  | listening {r : FifoEnd} (hr : r ≠ .opened) : Asked .listening r .closed
  | ended : Asked .ended .closed .closed

/-- The handler has a command; its read end. -/
inductive Reacting : HandlerPC → FifoEnd → Prop
  | read (command : Text) : Reacting (.read command) .opened
  | reacting (command : Text) : Reacting (.reacting command) .closed

/-- The handler process does not use the FIFO any more. -/
inductive Away : HandlerPC → Prop
  | left : Away .left
  | exited : Away .exited

/-- The handler is behind an answer; its read end. -/
inductive Behind : HandlerPC → FifoEnd → Prop
  | opening {r : FifoEnd} (hr : r ≠ .opened) : Behind .opening r
  | unlinking : Behind .unlinking .closed
  | away {pc : HandlerPC} (h : Away pc) : Behind pc .closed

/-- `kill_child` has sent its command: where it is, whether the FIFO is there, its write end, and the
    steps that are left to it. -/
inductive Called : SignalPC → Bool → FifoEnd → ℕ → Prop
  | written (linked : Bool) : Called .written linked .opened 2
  | unlinking (linked : Bool) : Called .unlinking linked .closed 1
  | returned : Called .returned false .closed 0

/-- The client does not use the FIFO. -/
inductive Quiet : LoopPC → SignalPC → Prop
  | prompt (pc : SignalPC) : Quiet .prompt pc
  | sending {stored : Text} {h : stored.length < 256} (pc : SignalPC) : Quiet (.sending stored h) pc
  | ended : Quiet .ended .returned

/-- The handler has the command of `kill_child`; its read end, and the steps that are left to it. -/
inductive Caught : HandlerPC → FifoEnd → ℕ → Prop
  | read : Caught (.read "quit".toList) .opened 2
  | reacting : Caught (.reacting "quit".toList) .closed 1
  | left : Caught .left .closed 0

open Dialogue (Meeting toOpen)

/-- Behind a signal that has come at the prompt, with the steps that are left to `kill_child` and the
    handler. -/
inductive Signalled : ℕ → Link → Prop
  /-- `kill_child` and the handler open the FIFO for a command -/
  | calling {rh ws : FifoEnd} {server : Bool} {client : LoopPC} {memory : Text}
      {taken : List Text} (hc : Quiet client .opening) (hmeet : Meeting ws rh) :
      Signalled (6 + toOpen ws + toOpen rh)
        ⟨fifo [] .closed rh .closed ws .closed, true, server, client, .opening, .opening, memory,
          taken, taken⟩
  /-- its command is in the FIFO -/
  | called {ws : FifoEnd} {linked server : Bool} {client : LoopPC} {signal : SignalPC}
      {memory : Text} {taken : List Text} {n : ℕ} (hc : Quiet client signal)
      (hs : Called signal linked ws n) :
      Signalled (n + 3)
        ⟨fifo "quit".toList .closed .opened .closed ws .closed, linked, server, client, signal,
          .opening, memory, taken ++ ["quit".toList], taken⟩
  /-- the handler has taken it -/
  | caught {rh ws : FifoEnd} {linked server : Bool} {client : LoopPC} {signal : SignalPC}
      {handler : HandlerPC} {memory : Text} {taken : List Text} {n m : ℕ}
      (hc : Quiet client signal) (hs : Called signal linked ws n) (hh : Caught handler rh m) :
      Signalled (n + m)
        ⟨fifo [] .closed rh .closed ws .closed, linked, server, client, signal, handler, memory,
          taken, taken⟩

/-- What the FIFO, the client, `kill_child` and the handler can be at a time. -/
inductive Phase : Link → Prop
  /-- the two open the FIFO for a command -/
  | asking {rh wc : FifoEnd} {linked server : Bool} {client : LoopPC} {memory : Text}
      {taken : List Text} (hc : Asking client wc) (hmeet : Meeting wc rh) :
      Phase ⟨fifo [] .closed rh wc .closed .closed, linked, server, client, .idle, .opening, memory,
        taken, taken⟩
  /-- the handler is not there to take it -/
  | alone {wc : FifoEnd} {linked server : Bool} {client : LoopPC} {handler : HandlerPC}
      {memory : Text} {taken : List Text} (hc : Asking client wc) (hwc : wc ≠ .opened)
      (hh : handler = .unlinking ∨ Away handler) :
      Phase ⟨fifo [] .closed .closed wc .closed .closed, linked, server, client, .idle, handler,
        memory, taken, taken⟩
  /-- a command is in the FIFO -/
  | asked {rc wc : FifoEnd} {linked server : Bool} {client : LoopPC} {memory : Text}
      {taken : List Text} {stored : Text} {h : stored.length < 256} (hc : Asked client rc wc) :
      Phase ⟨fifo (Sending.line stored h).message rc .opened wc .closed .closed, linked, server,
        client, .idle, .opening, memory, taken ++ [(Sending.line stored h).command], taken⟩
  /-- the handler has taken it -/
  | reacting {rc rh wc : FifoEnd} {linked server : Bool} {client : LoopPC} {handler : HandlerPC}
      {memory : Text} {taken : List Text} (hc : Asked client rc wc) (hh : Reacting handler rh) :
      Phase ⟨fifo [] rc rh wc .closed .closed, linked, server, client, .idle, handler, memory,
        taken, taken⟩
  /-- the two open the FIFO for the answer -/
  | answering {rc wc wh : FifoEnd} {linked server kills : Bool} {client : LoopPC} {memory : Text}
      {taken pieces : List Text} (hc : Asked client rc wc) (hmeet : Meeting wh rc)
      (hwh : wh ≠ .opened) :
      Phase ⟨fifo [] rc .closed wc .closed wh, linked, server, client, .idle,
        .answering pieces false kills, memory, taken, taken⟩
  /-- the answer is written and read -/
  | telling {data : Text} {linked server kills : Bool} {memory : Text} {taken pieces : List Text} :
      Phase ⟨fifo data .opened .closed .closed .closed .opened, linked, server, .listening, .idle,
        .answering pieces false kills, memory, taken, taken⟩
  /-- the rest of it is read -/
  | told {data : Text} {rh : FifoEnd} {linked server : Bool} {handler : HandlerPC} {memory : Text}
      {taken : List Text} (hh : Behind handler rh) :
      Phase ⟨fifo data .opened rh .closed .closed .closed, linked, server, .listening, .idle, handler,
        memory, taken, taken⟩
  | heard {rh : FifoEnd} {linked server : Bool} {handler : HandlerPC} {memory : Text}
      {taken : List Text} (hh : Behind handler rh) :
      Phase ⟨fifo [] .opened rh .closed .closed .closed, linked, server, .heard, .idle, handler,
        memory, taken, taken⟩
  /-- the handler has gone before it has answered -/
  | unanswered {rc wc : FifoEnd} {linked server : Bool} {client : LoopPC} {handler : HandlerPC}
      {memory : Text} {taken : List Text} (hc : Asked client rc wc) (hh : Away handler) :
      Phase ⟨fifo [] rc .closed wc .closed .closed, linked, server, client, .idle, handler, memory,
        taken, taken⟩
  /-- the client has ended, and no signal has come -/
  | ended {rh : FifoEnd} {linked server : Bool} {handler : HandlerPC} {memory : Text}
      {taken : List Text} (hh : Behind handler rh) :
      Phase ⟨fifo [] .closed rh .closed .closed .closed, linked, server, .ended, .idle, handler,
        memory, taken, taken⟩
  | signalled {x : Link} {n : ℕ} (h : Signalled n x) : Phase x

/-! ## What a step does -/

section Steps

variable {x x' : Link}

/-- The client is at its prompt, or behind it. -/
theorem phase_prompt {rh : FifoEnd} {linked server : Bool} {client : LoopPC} {handler : HandlerPC}
    {memory : Text} {taken : List Text} (hc : Asking client .closed) (hh : Behind handler rh) :
    Phase ⟨fifo [] .closed rh .closed .closed .closed, linked, server, client, .idle, handler,
      memory, taken, taken⟩ := by
  cases hh with
  | opening hr =>
      cases rh with
      | closed => exact .asking hc .apart
      | opening => exact .asking hc .reader
      | opened => exact absurd rfl hr
  | unlinking => exact .alone hc nofun (.inl rfl)
  | away h => exact .alone hc nofun (.inr h)

theorem Signalled.signal_ne {n : ℕ} (h : Signalled n x) : x.signal ≠ .idle := by
  cases h with
  | calling _ _ => nofun
  | called _ hs | caught _ hs _ => cases hs <;> nofun

theorem Phase.at_prompt (h : Phase x) (hclient : x.client = .prompt) (hsignal : x.signal = .idle) :
    ∃ rh linked server handler memory taken, Behind handler rh ∧ x =
      ⟨fifo [] .closed rh .closed .closed .closed, linked, server, .prompt, .idle, handler, memory,
        taken, taken⟩ := by
  cases h with
  | asking hc hmeet =>
      cases hc with
      | sending _ => cases hclient
      | prompt =>
          cases hmeet with
          | apart => exact ⟨.closed, _, _, .opening, _, _, .opening nofun, rfl⟩
          | reader => exact ⟨.opening, _, _, .opening, _, _, .opening nofun, rfl⟩
  | alone hc hwc hh =>
      cases hc with
      | sending _ => cases hclient
      | prompt =>
          rcases hh with rfl | hh
          · exact ⟨.closed, _, _, .unlinking, _, _, .unlinking, rfl⟩
          · exact ⟨.closed, _, _, _, _, _, .away hh, rfl⟩
  | asked hc | reacting hc _ | answering hc _ _ | unanswered hc _ =>
      cases hclient
      cases hc
  | telling | told _ | heard _ | ended _ => cases hclient
  | signalled h => exact absurd hsignal h.signal_ne

/-- A client that has sent a command and closes it, and opens the FIFO for the answer. -/
theorem Asked.step {rc rh wc : FifoEnd} {data : Text} {linked server : Bool} {client : LoopPC}
    {handler : HandlerPC} {memory : Text} {sent taken : List Text} (hc : Asked client rc wc)
    (hdata : data = [] ∨ rh ≠ .closed)
    (hturn : Link.clientTurn ⟨fifo data rc rh wc .closed .closed, linked, server, client, .idle,
      handler, memory, sent, taken⟩ = some x') :
    ∃ linked' client' rc' wc', Asked client' rc' wc' ∧ x' =
      ⟨fifo data rc' rh wc' .closed .closed, linked', server, client', .idle, handler, memory, sent,
        taken⟩ := by
  have hkept : data = [] ∨ rh ≠ .closed ∨ FifoEnd.closed ≠ .closed := hdata.imp id .inl
  have hends : ∀ {rc wc : FifoEnd} {client : LoopPC} (removes : Bool),
      ∃ linked' client' rc' wc', Asked client' rc' wc' ∧
        Link.clientEnds ⟨fifo data rc rh wc .closed .closed, linked, server, client, .idle, handler,
          memory, sent, taken⟩ removes =
        ⟨fifo data rc' rh wc' .closed .closed, linked', server, client', .idle, handler, memory,
          sent, taken⟩ := by
    intro rc wc client removes
    refine ⟨linked && !removes, .ended, .closed, .closed, .ended, ?_⟩
    rw [Link.clientEnds, clientEnds_fifo hkept]
  cases hc with
  | sent quit =>
      simp only [Link.clientTurn, Option.some.injEq] at hturn
      rw [← hturn]
      cases quit with
      | true => exact hends true
      | false => exact ⟨linked, .listening, .closed, .closed, .listening nofun,
          by rw [closeWrite_client hkept]; rfl⟩
  | listening hr =>
      cases rc with
      | closed =>
          simp only [Link.clientTurn, readers_client, openRead_client, and_self, if_true,
            Option.some.injEq] at hturn
          rw [← hturn]
          split
          · exact ⟨linked, .listening, .opening, .closed, .listening nofun, rfl⟩
          · exact hends true
      | opening => cases hturn
      | opened => exact absurd rfl hr
  | ended => cases hturn

/-- The client on its way to an answer. -/
theorem phase_answering {rc wc wh : FifoEnd} {linked server kills : Bool} {client : LoopPC}
    {memory : Text} {taken pieces : List Text} (hc : Asked client rc wc) (hmeet : Meeting wh rc)
    (hwh : wh ≠ .opened)
    (hturn : Link.clientTurn ⟨fifo [] rc .closed wc .closed wh, linked, server, client, .idle,
      .answering pieces false kills, memory, taken, taken⟩ = some x') : Phase x' := by
  cases hc with
  | sent quit =>
      simp only [Link.clientTurn, Option.some.injEq] at hturn
      rw [← hturn]
      cases quit with
      | true =>
          rw [if_pos rfl, Link.clientEnds, clientEnds_fifo (.inl rfl)]
          exact .answering .ended hmeet hwh
      | false =>
          rw [if_neg Bool.false_ne_true, closeWrite_client (.inl rfl)]
          exact .answering (.listening nofun) hmeet hwh
  | listening hr =>
      cases hmeet with
      | apart =>
          simp only [Link.clientTurn, readers_client, openRead_client, and_self, if_true,
            Option.some.injEq] at hturn
          rw [← hturn]
          split
          · exact .answering (.listening nofun) .reader nofun
          · rw [Link.clientEnds, clientEnds_fifo (.inl rfl)]
            exact .answering .ended .apart nofun
      | writer =>
          simp only [Link.clientTurn, readers_client, openRead_client, reduceCtorEq, and_false,
            if_false, Option.some.injEq] at hturn
          rw [← hturn]
          split
          · exact .telling
          · rw [Link.clientEnds, clientEnds_fifo (.inl rfl)]
            exact .answering .ended .writer nofun
      | reader => cases hturn
      | met => exact absurd rfl hwh
  | ended => cases hturn

/-- Behind a signal, the client can only end. -/
theorem Quiet.ends {signal : SignalPC} {data : Text} {rh ws : FifoEnd} {linked server : Bool}
    {client : LoopPC} {handler : HandlerPC} {memory : Text} {sent taken : List Text}
    {n : ℕ} (hc : Quiet client signal) (hs : Called signal linked ws n)
    (hdata : data = [] ∨ rh ≠ .closed)
    (hruns : signal = .idle ∨ signal = .returned)
    (hturn : Link.clientTurn ⟨fifo data .closed rh .closed ws .closed, linked, server, client,
      signal, handler, memory, sent, taken⟩ = some x') :
    signal = .returned ∧ ws = .closed ∧ x' =
      ⟨fifo data .closed rh .closed .closed .closed, false, server, .ended, .returned, handler,
        memory, sent, taken⟩ := by
  cases hs with
  | written _ | unlinking _ => simp at hruns
  | returned =>
      cases hc with
      | prompt _ | ended => cases hturn
      | sending _ =>
          simp only [Link.clientTurn, writers_client, Bool.false_eq_true, if_false, Link.clientEnds,
            clientEnds_fifo (hdata.imp id Or.inl), Bool.false_and, Option.some.injEq] at hturn
          exact ⟨rfl, rfl, hturn.symm⟩

theorem Signalled.client {n : ℕ} (h : Signalled n x)
    (hruns : x.signal = .idle ∨ x.signal = .returned) (hturn : x.clientTurn = some x') :
    Signalled n x' := by
  cases h with
  | calling hc hmeet => simp at hruns
  | called hc hs =>
      obtain ⟨rfl, rfl, rfl⟩ := hc.ends hs (.inr Dialogue.opened_ne) hruns hturn
      cases hs with
      | returned => exact .called .ended .returned
  | caught hc hs hh =>
      obtain ⟨rfl, rfl, rfl⟩ := hc.ends hs (.inl rfl) hruns hturn
      cases hs with
      | returned => exact .caught .ended .returned hh

theorem Phase.client (h : Phase x) (hruns : x.signal = .idle ∨ x.signal = .returned)
    (hturn : x.clientTurn = some x') : Phase x' := by
  cases h with
  | asking hc hmeet =>
      cases hc with
      | prompt => cases hturn
      | sending w =>
          cases hmeet with
          | apart =>
              simp only [Link.clientTurn, writers_client, openWrite_client, and_self, if_true,
                Option.some.injEq] at hturn
              rw [← hturn]
              split
              · exact .asking (.sending _) .writer
              · rw [Link.clientEnds, clientEnds_fifo (.inl rfl)]
                exact .ended (.opening nofun)
          | writer => cases hturn
          | reader =>
              simp only [Link.clientTurn, writers_client, openWrite_client, reduceCtorEq, and_false,
                if_false, Option.some.injEq] at hturn
              rw [← hturn]
              split
              · exact .asking (.sending _) .met
              · rw [Link.clientEnds, clientEnds_fifo (.inl rfl)]
                exact .ended (.opening nofun)
          | met =>
              simp only [Link.clientTurn, writers_client, write_fifo, reduceCtorEq, and_false,
                if_false, Option.some.injEq] at hturn
              rw [← hturn]
              exact .asked (.sent _)
  | @alone wc _ _ _ _ _ _ hc hwc hh =>
      cases hc with
      | prompt => cases hturn
      | sending _ =>
          cases wc with
          | closed =>
              simp only [Link.clientTurn, writers_client, openWrite_client, and_self, if_true,
                Option.some.injEq] at hturn
              rw [← hturn]
              split
              · exact .alone (.sending _) nofun hh
              · rw [Link.clientEnds, clientEnds_fifo (.inl rfl)]
                rcases hh with rfl | hh
                · exact .ended .unlinking
                · exact .ended (.away hh)
          | opening => cases hturn
          | opened => exact absurd rfl hwc
  | asked hc =>
      obtain ⟨_, _, _, _, hc', rfl⟩ := hc.step (.inr Dialogue.opened_ne) hturn
      exact .asked hc'
  | reacting hc hh =>
      obtain ⟨_, _, _, _, hc', rfl⟩ := hc.step (.inl rfl) hturn
      exact .reacting hc' hh
  | unanswered hc hh =>
      obtain ⟨_, _, _, _, hc', rfl⟩ := hc.step (.inl rfl) hturn
      exact .unanswered hc' hh
  | answering hc hmeet hwh => exact phase_answering hc hmeet hwh hturn
  | @telling data =>
      by_cases hdata : data = []
      · subst hdata
        simp only [Link.clientTurn, readers_client, read_fifo_nil, reduceCtorEq, and_false, if_false,
          Option.map_none] at hturn
      · have htake : data.take 4096 ≠ [] := by simp [List.take_eq_nil_iff, hdata]
        simp only [Link.clientTurn, readers_client, read_fifo hdata, Option.map_some, if_neg htake,
          Option.some.injEq] at hturn
        rw [← hturn]
        exact .telling
  | @told data _ _ _ _ _ _ hh =>
      by_cases hdata : data = []
      · subst hdata
        simp only [Link.clientTurn, readers_client, read_fifo_nil, and_self, if_true,
          Option.map_some, Option.some.injEq] at hturn
        rw [← hturn]
        exact .heard hh
      · have htake : data.take 4096 ≠ [] := by simp [List.take_eq_nil_iff, hdata]
        simp only [Link.clientTurn, readers_client, read_fifo hdata, Option.map_some, if_neg htake,
          Option.some.injEq] at hturn
        rw [← hturn]
        exact .told hh
  | heard hh =>
      simp only [Link.clientTurn, closeRead_client (.inl rfl), Option.some.injEq] at hturn
      rw [← hturn]
      exact phase_prompt .prompt hh
  | ended hh => cases hturn
  | signalled h => exact .signalled (h.client hruns hturn)

theorem Quiet.goto {client : LoopPC} {signal : SignalPC} (h : Quiet client signal)
    (hsignal : signal ≠ .returned) (signal' : SignalPC) : Quiet client signal' := by
  cases h with
  | prompt _ => exact .prompt _
  | sending _ => exact .sending _
  | ended => exact absurd rfl hsignal

theorem Signalled.signal {n : ℕ} (h : Signalled n x) (hturn : x.signalTurn = some x') :
    ∃ m < n, Signalled m x' := by
  cases h with
  | calling hc hmeet =>
      cases hmeet with
      | apart =>
          simp only [Link.signalTurn, writers_signal, openWrite_signal, and_self, if_true,
            Option.some.injEq] at hturn
          rw [← hturn]
          exact ⟨_, by decide, .calling hc .writer⟩
      | writer => cases hturn
      | reader =>
          simp only [Link.signalTurn, writers_signal, openWrite_signal, reduceCtorEq, and_false,
            if_true, if_false, Option.some.injEq] at hturn
          rw [← hturn]
          exact ⟨_, by decide, .calling hc .met⟩
      | met =>
          simp only [Link.signalTurn, writers_signal, write_fifo, reduceCtorEq, and_false, if_false,
            Option.some.injEq] at hturn
          rw [← hturn]
          exact ⟨_, by decide, .called (hc.goto nofun _) (.written _)⟩
  | called hc hs =>
      cases hs with
      | written linked =>
          simp only [Link.signalTurn, closeWrite_signal (.inr (.inl Dialogue.opened_ne)),
            Option.some.injEq] at hturn
          rw [← hturn]
          exact ⟨_, by decide, .called (hc.goto nofun _) (.unlinking _)⟩
      | unlinking linked =>
          simp only [Link.signalTurn, Option.some.injEq] at hturn
          rw [← hturn]
          exact ⟨_, by decide, .called (hc.goto nofun _) .returned⟩
      | returned => cases hturn
  | caught hc hs hh =>
      cases hs with
      | written linked =>
          simp only [Link.signalTurn, closeWrite_signal (.inl rfl), Option.some.injEq] at hturn
          rw [← hturn]
          exact ⟨_, by omega, .caught (hc.goto nofun _) (.unlinking _) hh⟩
      | unlinking linked =>
          simp only [Link.signalTurn, Option.some.injEq] at hturn
          rw [← hturn]
          exact ⟨_, by omega, .caught (hc.goto nofun _) .returned hh⟩
      | returned => cases hturn

theorem Phase.signal (h : Phase x) (hturn : x.signalTurn = some x') : Phase x' := by
  cases h with
  | signalled h =>
      obtain ⟨_, -, h'⟩ := h.signal hturn
      exact .signalled h'
  | _ => cases hturn

/-- A handler behind its answer, which comes back to the top of its loop. -/
theorem Behind.step {rc rh : FifoEnd} {data : Text} {linked server : Bool} {client : LoopPC}
    {signal : SignalPC} {handler : HandlerPC} {memory : Text} {sent taken : List Text}
    {r : Reaction} (hh : Behind handler rh) (hdata : data = [] ∨ rc ≠ .closed)
    (hturn : Link.handlerTurn ⟨fifo data rc rh .closed .closed .closed, linked, server, client,
      signal, handler, memory, sent, taken⟩ r = some x') :
    ∃ linked' handler' rh', Behind handler' rh' ∧ x' =
      ⟨fifo data rc rh' .closed .closed .closed, linked', server, client, signal, handler', memory,
        sent, taken⟩ := by
  cases hh with
  | opening hr =>
      cases rh with
      | closed =>
          simp only [Link.handlerTurn, readers_handler, openRead_handler, and_self, if_true,
            Option.some.injEq] at hturn
          rw [← hturn]
          split
          · exact ⟨linked, .opening, .opening, .opening nofun, rfl⟩
          · refine ⟨linked, .exited, .closed, .away .exited, ?_⟩
            rw [Link.handlerEnds, handlerEnds_fifo (hdata.imp id .inl)]
      | opening => cases hturn
      | opened => exact absurd rfl hr
  | unlinking =>
      cases hturn
      exact ⟨false, .opening, .closed, .opening nofun, rfl⟩
  | away h =>
      cases h with
      | left | exited => cases hturn

/-- The handler takes a message that is alone in the FIFO. -/
theorem phase_read {data : Text} {rc wc ws : FifoEnd} {linked server : Bool} {client : LoopPC}
    {signal : SignalPC} {memory : Text} {sent taken : List Text} {r : Reaction} {command : Text}
    (hne : data ≠ []) (hlength : data.length ≤ 256) (hcommand : received memory data = command)
    (hturn : Link.handlerTurn ⟨fifo data rc .opened wc ws .closed, linked, server, client, signal,
      .opening, memory, sent, taken⟩ r = some x') :
    ∃ memory', x' = ⟨fifo [] rc .opened wc ws .closed, linked, server, client, signal,
      .read command, memory', sent, taken ++ [command]⟩ := by
  simp only [Link.handlerTurn, readers_handler, read_fifo hne, List.take_of_length_le hlength,
    List.drop_of_length_le hlength, hcommand, Option.map_some, Option.some.injEq] at hturn
  exact ⟨_, hturn.symm⟩

theorem Asked.meeting {client : LoopPC} {rc wc : FifoEnd} (h : Asked client rc wc) :
    Meeting .closed rc := by
  cases h with
  | sent _ | ended => exact .apart
  | listening hr =>
      cases rc with
      | closed => exact .apart
      | opening => exact .reader
      | opened => exact absurd rfl hr

/-- The handler opens the FIFO for a command. -/
theorem phase_asking {rh wc : FifoEnd} {linked server : Bool} {client : LoopPC} {memory : Text}
    {taken : List Text} {r : Reaction} (hc : Asking client wc) (hmeet : Meeting wc rh)
    (hturn : Link.handlerTurn ⟨fifo [] .closed rh wc .closed .closed, linked, server, client, .idle,
      .opening, memory, taken, taken⟩ r = some x') : Phase x' := by
  cases hmeet with
  | apart =>
      simp only [Link.handlerTurn, readers_handler, openRead_handler, and_self, if_true,
        Option.some.injEq] at hturn
      rw [← hturn]
      split
      · exact .asking hc .reader
      · rw [Link.handlerEnds, handlerEnds_fifo (.inl rfl)]
        exact .alone hc nofun (.inr .exited)
  | writer =>
      cases hc with
      | sending _ =>
          simp only [Link.handlerTurn, readers_handler, openRead_handler, reduceCtorEq, false_and,
            if_false, Option.some.injEq] at hturn
          rw [← hturn]
          split
          · exact .asking (.sending _) .met
          · rw [Link.handlerEnds, handlerEnds_fifo (.inl rfl)]
            exact .alone (.sending _) nofun (.inr .exited)
  | reader => cases hturn
  | met =>
      simp only [Link.handlerTurn, readers_handler, read_fifo_nil, reduceCtorEq, false_and, if_false,
        Option.map_none] at hturn

/-- The handler does what a command asks for, or leaves. -/
theorem phase_reacting {rc rh wc : FifoEnd} {linked server : Bool} {client : LoopPC}
    {handler : HandlerPC} {memory : Text} {taken : List Text} {r : Reaction}
    (hc : Asked client rc wc) (hh : Reacting handler rh) (hleaks : r.leaks = false)
    (hturn : Link.handlerTurn ⟨fifo [] rc rh wc .closed .closed, linked, server, client, .idle,
      handler, memory, taken, taken⟩ r = some x') : Phase x' := by
  cases hh with
  | read command =>
      simp only [Link.handlerTurn, closeRead_handler (.inl rfl), Option.some.injEq] at hturn
      rw [← hturn]
      exact .reacting hc (.reacting command)
  | reacting command =>
      simp only [Link.handlerTurn, Link.handlerEnds, handlerEnds_fifo (.inl rfl), hleaks] at hturn
      split at hturn
      · cases hturn
        exact .unanswered hc .left
      · split at hturn
        · cases hturn
          exact .unanswered hc .exited
        · cases hturn
          exact .answering hc hc.meeting nofun

/-- The handler opens the FIFO for its answer. -/
theorem phase_opens {rc wc wh : FifoEnd} {linked server kills : Bool} {client : LoopPC}
    {memory : Text} {taken pieces : List Text} {r : Reaction} (hc : Asked client rc wc)
    (hmeet : Meeting wh rc) (hwh : wh ≠ .opened)
    (hturn : Link.handlerTurn ⟨fifo [] rc .closed wc .closed wh, linked, server, client, .idle,
      .answering pieces false kills, memory, taken, taken⟩ r = some x') : Phase x' := by
  cases hmeet with
  | apart =>
      simp only [Link.handlerTurn, writers_handler, openWrite_handler, and_self, if_true,
        Option.some.injEq] at hturn
      rw [← hturn]
      split
      · exact .answering hc .writer nofun
      · rw [Link.handlerEnds, handlerEnds_fifo (.inl rfl)]
        exact .unanswered hc .exited
  | writer => cases hturn
  | reader =>
      cases hc with
      | listening hr =>
          simp only [Link.handlerTurn, writers_handler, openWrite_handler, reduceCtorEq, false_and,
            if_false, Option.some.injEq] at hturn
          rw [← hturn]
          split
          · exact .telling
          · rw [Link.handlerEnds, handlerEnds_fifo (.inl rfl)]
            exact .unanswered (.listening hr) .exited
  | met => exact absurd rfl hwh

/-- The handler writes its answer. -/
theorem phase_telling {data : Text} {linked server kills : Bool} {memory : Text}
    {taken pieces : List Text} {r : Reaction}
    (hturn : Link.handlerTurn ⟨fifo data .opened .closed .closed .closed .opened, linked, server,
      .listening, .idle, .answering pieces false kills, memory, taken, taken⟩ r = some x') :
    Phase x' := by
  cases pieces with
  | nil =>
      simp only [Link.handlerTurn, writers_handler, Bool.false_eq_true, if_false,
        closeWrite_handler (.inr (.inl Dialogue.opened_ne)), Option.some.injEq] at hturn
      rw [← hturn]
      cases kills with
      | true => exact .told .unlinking
      | false => exact .told (.opening nofun)
  | cons piece pieces =>
      simp only [Link.handlerTurn, writers_handler, write_fifo, reduceCtorEq, false_and, if_false,
        Option.some.injEq] at hturn
      rw [← hturn]
      exact .telling

/-- The handler takes the command of `kill_child`, and leaves. -/
theorem Signalled.handler {n : ℕ} {r : Reaction} (h : Signalled n x)
    (hmemory : x.memory.length = 256)
    (hnul : x.handler = .opening → x.pipe.data = "quit".toList → x.memory[4]? = some nul)
    (hturn : x.handlerTurn r = some x') : ∃ m < n, Signalled m x' := by
  cases h with
  | calling hc hmeet =>
      cases hmeet with
      | apart =>
          simp only [Link.handlerTurn, readers_handler, openRead_handler, and_self, if_true,
            Option.some.injEq] at hturn
          rw [← hturn]
          exact ⟨_, by decide, .calling hc .reader⟩
      | writer =>
          simp only [Link.handlerTurn, readers_handler, openRead_handler, reduceCtorEq, false_and,
            and_false, if_false, if_true, Option.some.injEq] at hturn
          rw [← hturn]
          exact ⟨_, by decide, .calling hc .met⟩
      | reader => cases hturn
      | met =>
          simp only [Link.handlerTurn, readers_handler, read_fifo_nil, reduceCtorEq, false_and,
            and_false, if_false, Option.map_none] at hturn
  | called hc hs =>
      have hread := (received_quit_iff hmemory).2 (hnul rfl rfl)
      obtain ⟨_, rfl⟩ := phase_read (by decide) (by decide) hread hturn
      exact ⟨_, by omega, .caught hc hs .read⟩
  | caught hc hs hh =>
      cases hh with
      | read =>
          simp only [Link.handlerTurn, closeRead_handler (.inl rfl), Option.some.injEq] at hturn
          rw [← hturn]
          exact ⟨_, by omega, .caught hc hs .reacting⟩
      | reacting =>
          simp only [Link.handlerTurn, Link.handlerEnds, handlerEnds_fifo (.inl rfl), if_true,
            Option.some.injEq] at hturn
          rw [← hturn]
          exact ⟨_, by omega, .caught hc hs .left⟩
      | left => cases hturn

theorem Phase.handler {r : Reaction} (h : Phase x) (hmemory : x.memory.length = 256)
    (hnul : x.handler = .opening → x.pipe.data = "quit".toList → x.memory[4]? = some nul)
    (hleaks : r.leaks = false) (hturn : x.handlerTurn r = some x') : Phase x' := by
  cases h with
  | asking hc hmeet => exact phase_asking hc hmeet hturn
  | @alone wc _ _ _ _ _ _ hc hwc hh =>
      rcases hh with rfl | hh
      · cases hturn
        cases wc with
        | closed => exact .asking hc .apart
        | opening => exact .asking hc .writer
        | opened => exact absurd rfl hwc
      · cases hh with
        | left | exited => cases hturn
  | @asked _ _ _ _ _ memory _ stored hstored hc =>
      have hlength := (dropNewline_cString stored).length_le
      have hread := received_line stored hstored memory
      obtain ⟨_, rfl⟩ := phase_read (by simp [Sending.message])
        (by simp only [Sending.message, List.length_append, List.length_singleton]; omega) hread
        hturn
      exact .reacting hc (.read _)
  | reacting hc hh => exact phase_reacting hc hh hleaks hturn
  | answering hc hmeet hwh => exact phase_opens hc hmeet hwh hturn
  | telling => exact phase_telling hturn
  | told hh =>
      obtain ⟨_, _, _, hh', rfl⟩ := hh.step (.inr Dialogue.opened_ne) hturn
      exact .told hh'
  | heard hh =>
      obtain ⟨_, _, _, hh', rfl⟩ := hh.step (.inl rfl) hturn
      exact .heard hh'
  | unanswered hc hh =>
      cases hh with
      | left | exited => cases hturn
  | ended hh =>
      obtain ⟨_, _, _, hh', rfl⟩ := hh.step (.inl rfl) hturn
      exact .ended hh'
  | signalled h =>
      obtain ⟨_, -, h'⟩ := h.handler hmemory hnul hturn
      exact .signalled h'

/-- The client process ends behind the signal. -/
theorem Signalled.clientEnds {n : ℕ} (h : Signalled n x) (hsignal : x.signal = .returned)
    (removes : Bool) : Signalled n (x.clientEnds removes) := by
  cases h with
  | calling hc hmeet => cases hsignal
  | called hc hs =>
      cases hsignal
      cases hs with
      | returned =>
          rw [Link.clientEnds, clientEnds_fifo (.inr (.inl Dialogue.opened_ne))]
          exact .called .ended .returned
  | caught hc hs hh =>
      cases hsignal
      cases hs with
      | returned =>
          rw [Link.clientEnds, clientEnds_fifo (.inl rfl)]
          exact .caught .ended .returned hh

/-- It reads one more line, which it cannot send. -/
theorem Signalled.line {n : ℕ} (h : Signalled n x) (hclient : x.client = .prompt) (stored : Text)
    (hstored : stored.length < 256) : Signalled n { x with client := .sending stored hstored } := by
  cases h with
  | calling hc hmeet => exact .calling (.sending _) hmeet
  | called hc hs => exact .called (.sending _) hs
  | caught hc hs hh => exact .caught (.sending _) hs hh

theorem Signalled.serverEnds {n : ℕ} (h : Signalled n x) : Signalled n { x with server := false } := by
  cases h with
  | calling hc hmeet => exact .calling hc hmeet
  | called hc hs => exact .called hc hs
  | caught hc hs hh => exact .caught hc hs hh

theorem Signalled.client_ne {n : ℕ} (h : Signalled n x) : x.client ≠ .listening := by
  cases h with
  | calling hc _ | called hc _ | caught hc _ _ => cases hc <;> nofun

/-- A signal at the prompt. -/
theorem Phase.interrupt (h : Phase x) (hok : Timely x .interrupt) (hsignal : x.signal = .idle) :
    ∃ n ≤ 10, Signalled n { x with
      pipe := x.abandoned, signal := if x.server then .opening else .unlinking } := by
  obtain ⟨hprompt, hhandler, hlinked, hserver⟩ := hok
  cases h with
  | asking hc hmeet =>
      cases hlinked
      cases hserver
      cases hc with
      | prompt =>
          cases hmeet with
          | apart => exact ⟨_, by decide, .calling (.prompt _) .apart⟩
          | reader => exact ⟨_, by decide, .calling (.prompt _) .reader⟩
      | sending _ =>
          cases hmeet with
          | apart => exact ⟨_, by decide, .calling (.sending _) .apart⟩
          | reader => exact ⟨_, by decide, .calling (.sending _) .reader⟩
          | writer =>
              -- the `open` of the command is given up
              refine ⟨10, Nat.le_refl _, ?_⟩
              have hpipe : (fifo [] .closed .closed .opening .closed .closed).closeWrite .client
                  = fifo [] .closed .closed .closed .closed .closed := closeWrite_client (.inl rfl)
              change Signalled 10 ⟨(fifo [] .closed .closed .opening .closed .closed).closeWrite
                .client, _, _, _, _, _, _, _, _⟩
              rw [hpipe]
              exact .calling (.sending _) .apart
          | met => exact absurd rfl hprompt
  | alone hc hwc hh =>
      cases hhandler
      rcases hh with hh | hh <;> cases hh
  | asked hc => cases hc <;> exact hprompt.elim
  | reacting hc hh | unanswered hc hh =>
      cases hhandler
      cases hh
  | answering hc hmeet hwh => cases hhandler
  | telling | told _ | heard _ | ended _ => exact hprompt.elim
  | signalled h => exact absurd hsignal h.signal_ne

theorem clientRuns_iff : x.clientRuns = true ↔ x.signal = .idle ∨ x.signal = .returned :=
  decide_eq_true_iff

/-- The steps. -/
inductive Step (x : Link) : LinkMove → Link → Prop
  | line {stored : Text} {h : stored.length < 256} (hclient : x.client = .prompt)
      (hruns : x.signal = .idle ∨ x.signal = .returned) :
      Step x (.line stored h)
        (if x.server then { x with client := .sending stored h } else x.clientEnds true)
  | endOfInput (hclient : x.client = .prompt) (hruns : x.signal = .idle ∨ x.signal = .returned) :
      Step x .endOfInput (x.clientEnds false)
  | client {x' : Link} (hruns : x.signal = .idle ∨ x.signal = .returned)
      (h : x.clientTurn = some x') : Step x .client x'
  | interrupt (hsignal : x.signal = .idle) :
      Step x .interrupt
        { x with pipe := x.abandoned, signal := if x.server then .opening else .unlinking }
  | signal {x' : Link} (h : x.signalTurn = some x') : Step x .signal x'
  | giveUp (hsignal : x.signal = .returned) : Step x .giveUp (x.clientEnds false)
  | readFails (hclient : x.client = .listening) (hsignal : x.signal = .returned) :
      Step x .readFails { x with client := .heard }
  | handler {x' : Link} {r : Reaction} (h : x.handlerTurn r = some x') : Step x (.handler r) x'
  | serverEnds : Step x .serverEnds { x with server := false }

theorem step_of_next {a : LinkMove} (hnext : x.next a = some x') : Step x a x' := by
  cases a with
  | line stored h =>
      simp only [Link.next] at hnext
      split at hnext
      · next hclient =>
          obtain ⟨hruns, heq⟩ := Option.ite_none_right_eq_some.1 hnext
          cases heq
          exact .line hclient (clientRuns_iff.1 hruns)
      · cases hnext
  | endOfInput =>
      simp only [Link.next] at hnext
      split at hnext
      · next hclient =>
          obtain ⟨hruns, heq⟩ := Option.ite_none_right_eq_some.1 hnext
          cases heq
          exact .endOfInput hclient (clientRuns_iff.1 hruns)
      · cases hnext
  | client =>
      obtain ⟨hruns, hturn⟩ := Option.ite_none_right_eq_some.1 hnext
      exact .client (clientRuns_iff.1 hruns) hturn
  | interrupt =>
      simp only [Link.next] at hnext
      split at hnext
      · cases hnext
      · obtain ⟨hsignal, heq⟩ := Option.ite_none_right_eq_some.1 hnext
        cases heq
        exact .interrupt hsignal
  | signal =>
      simp only [Link.next] at hnext
      split at hnext
      · cases hnext
      · exact .signal hnext
  | giveUp =>
      obtain ⟨hsignal, heq⟩ := Option.ite_none_right_eq_some.1 hnext
      cases heq
      exact .giveUp hsignal
  | readFails =>
      simp only [Link.next] at hnext
      split at hnext
      · next hclient =>
          obtain ⟨hsignal, heq⟩ := Option.ite_none_right_eq_some.1 hnext
          cases heq
          exact .readFails hclient hsignal
      · cases hnext
  | handler r => exact .handler hnext
  | serverEnds =>
      cases hnext
      exact .serverEnds

theorem Signalled.step {n : ℕ} {a : LinkMove} (h : Signalled n x) (hmemory : x.memory.length = 256)
    (hok : Timely x a) (hstep : Step x a x') :
    ∃ m, Signalled m x' ∧ m + (answersSignal a).toNat ≤ n := by
  cases hstep with
  | line hclient hruns =>
      refine ⟨n, ?_, Nat.le_refl n⟩
      split
      · exact h.line hclient _ _
      · exact h.clientEnds (hruns.resolve_left h.signal_ne) true
  | endOfInput hclient hruns =>
      exact ⟨n, h.clientEnds (hruns.resolve_left h.signal_ne) false, Nat.le_refl n⟩
  | client hruns hturn => exact ⟨n, h.client hruns hturn, Nat.le_refl n⟩
  | interrupt hsignal => exact absurd hsignal h.signal_ne
  | signal hturn =>
      obtain ⟨m, hlt, h'⟩ := h.signal hturn
      exact ⟨m, h', hlt⟩
  | giveUp hsignal => exact ⟨n, h.clientEnds hsignal false, Nat.le_refl n⟩
  | readFails hclient hsignal => exact absurd hclient h.client_ne
  | handler hturn =>
      obtain ⟨m, hlt, h'⟩ := h.handler hmemory hok.1 hturn
      exact ⟨m, h', hlt⟩
  | serverEnds => exact ⟨n, h.serverEnds, Nat.le_refl n⟩

theorem Phase.step {a : LinkMove} (h : Phase x) (hmemory : x.memory.length = 256)
    (hok : Timely x a) (hstep : Step x a x') : Phase x' := by
  by_cases hidle : x.signal = .idle
  · cases hstep with
    | line hclient hruns =>
        obtain ⟨rh, linked, server, handler, memory, taken, hh, rfl⟩ := h.at_prompt hclient hidle
        split
        · exact phase_prompt (.sending _) hh
        · rw [Link.clientEnds, clientEnds_fifo (.inl rfl)]
          exact .ended hh
    | endOfInput hclient hruns =>
        obtain ⟨rh, linked, server, handler, memory, taken, hh, rfl⟩ := h.at_prompt hclient hidle
        rw [Link.clientEnds, clientEnds_fifo (.inl rfl)]
        exact .ended hh
    | client hruns hturn => exact h.client hruns hturn
    | interrupt hsignal =>
        obtain ⟨n, -, h'⟩ := h.interrupt hok hsignal
        exact .signalled h'
    | signal hturn => exact h.signal hturn
    | giveUp hsignal => cases hidle.symm.trans hsignal
    | readFails hclient hsignal => cases hidle.symm.trans hsignal
    | handler hturn => exact h.handler hmemory hok.1 hok.2 hturn
    | serverEnds =>
        cases h with
        | asking hc hmeet => exact .asking hc hmeet
        | alone hc hwc hh => exact .alone hc hwc hh
        | asked hc => exact .asked hc
        | reacting hc hh => exact .reacting hc hh
        | answering hc hmeet hwh => exact .answering hc hmeet hwh
        | telling => exact .telling
        | told hh => exact .told hh
        | heard hh => exact .heard hh
        | unanswered hc hh => exact .unanswered hc hh
        | ended hh => exact .ended hh
        | signalled h => exact .signalled h.serverEnds
  · cases h with
    | signalled h =>
        obtain ⟨m, h', -⟩ := h.step hmemory hok hstep
        exact .signalled h'
    | _ => exact absurd rfl hidle

/-! ## The array of the handler -/

theorem clientTurn_memory (hturn : x.clientTurn = some x') : x'.memory = x.memory := by
  unfold Link.clientTurn at hturn
  split at hturn
  · cases hturn
  · cases hturn
  · split at hturn
    · cases hturn
      split <;> rfl
    · cases hturn
    · split at hturn <;> cases hturn <;> rfl
  · cases hturn
    split <;> rfl
  · split at hturn
    · cases hturn
      split <;> rfl
    · cases hturn
    · obtain ⟨_, -, rfl⟩ := Option.map_eq_some_iff.1 hturn
      rfl
  · cases hturn
    rfl

theorem signalTurn_memory (hturn : x.signalTurn = some x') : x'.memory = x.memory := by
  unfold Link.signalTurn at hturn
  split at hturn
  · cases hturn
  · cases hturn
  · split at hturn
    · cases hturn
      split <;> rfl
    · cases hturn
    · split at hturn <;> cases hturn <;> rfl
  · cases hturn
    rfl
  · cases hturn
    rfl

/-- A `read` overwrites the start of the array, and a pass leaves something in it. -/
theorem handlerTurn_memory {r : Reaction} (hmemory : x.memory.length = 256)
    (hturn : x.handlerTurn r = some x') : x'.memory.length = 256 := by
  unfold Link.handlerTurn at hturn
  split at hturn
  · split at hturn
    · cases hturn
      split <;> exact hmemory
    · cases hturn
    · obtain ⟨⟨bytes, pipe⟩, hread, rfl⟩ := Option.map_eq_some_iff.1 hturn
      have hbytes : bytes.length ≤ 256 := by
        rcases Fifo.read_cases hread with ⟨-, -, rfl, -⟩ | ⟨-, rfl, -⟩
        · exact Nat.zero_le _
        · exact List.length_take_le _ _
      show (overwrite x.memory bytes).length = 256
      rw [overwrite, List.length_append, List.length_drop]
      omega
  · cases hturn
    exact hmemory
  · split at hturn
    · cases hturn
      exact hmemory
    · split at hturn
      · cases hturn
        exact hmemory
      · cases hturn
        exact r.memory_length
  · split at hturn
    · cases hturn
      split <;> exact hmemory
    · cases hturn
    · cases hturn
      exact hmemory
    · split at hturn <;> cases hturn <;> exact hmemory
  · cases hturn
    exact hmemory
  · cases hturn
  · cases hturn

theorem memory_step {a : LinkMove} (hmemory : x.memory.length = 256) (hstep : Step x a x') :
    x'.memory.length = 256 := by
  cases hstep with
  | line _ _ => split <;> exact hmemory
  | client _ hturn => rwa [clientTurn_memory hturn]
  | signal hturn => rwa [signalTurn_memory hturn]
  | handler hturn => exact handlerTurn_memory hmemory hturn
  | endOfInput _ _ | interrupt _ | giveUp _ | readFails _ _ | serverEnds => exact hmemory

end Steps

/-! ## Runs -/

section Runs

variable {x x' : Link}

/-- In a run that meets the condition, the FIFO, the two processes and the array are as they should
    be. -/
theorem phase_reachable (h : linkMachine.ReachableUnder Timely x) :
    x.memory.length = 256 ∧ Phase x := by
  refine h.invariant (I := fun x => x.memory.length = 256 ∧ Phase x) ?_ ?_
  · rintro _ ⟨memory, hmemory, rfl⟩
    refine ⟨hmemory, ?_⟩
    rw [empty_eq_fifo]
    exact .asking .prompt .apart
  · rintro x a x' - ⟨hmemory, hphase⟩ hok hnext
    have hstep := step_of_next hnext
    exact ⟨memory_step hmemory hstep, hphase.step hmemory hok hstep⟩

theorem Phase.framed (h : Phase x) : Framed x := by
  cases h with
  | asked hc => exact .inr ⟨_, rfl, rfl⟩
  | signalled h =>
      cases h with
      | called hc hs => exact .inr ⟨.interrupt, rfl, rfl⟩
      | calling _ _ | caught _ _ _ => exact .inl rfl
  | _ => exact .inl rfl

theorem Signalled.le {n : ℕ} (h : Signalled n x) : n ≤ 10 := by
  cases h with
  | calling hc hmeet => cases hmeet <;> decide
  | called hc hs => cases hs <;> decide
  | caught hc hs hh => cases hs <;> cases hh <;> decide

/-- A handler that does not answer; any reaction will do to see whether it can go on. -/
def silent : Reaction := ⟨none, false, false, List.replicate 256 nul, List.length_replicate⟩

/-- Where neither `kill_child` nor the handler can go on, the handler has left. -/
theorem Signalled.left {n : ℕ} (h : Signalled n x)
    (hfinal : ∀ a, answersSignal a = true → x.next a = none) : x.handler = .left := by
  have hhandler : x.handlerTurn silent = none := hfinal (.handler silent) rfl
  have hsignal : x.client ≠ .ended → x.signalTurn = none := by
    intro hclient
    have hnone := hfinal .signal rfl
    simp only [Link.next] at hnone
    exact hnone
  cases h with
  | calling hc hmeet =>
      have hturn := hsignal (by cases hc <;> nofun)
      cases hmeet with
      | apart | reader => simp only [Link.signalTurn, writers_signal, reduceCtorEq] at hturn
      | writer => simp only [Link.handlerTurn, readers_handler, reduceCtorEq] at hhandler
      | met =>
          simp only [Link.signalTurn, writers_signal, write_fifo, reduceCtorEq, and_false, if_false]
            at hturn
  | called hc hs =>
      have hdata : "quit".toList ≠ [] := by decide
      simp only [Link.handlerTurn, readers_handler, read_fifo hdata, Option.map_some, reduceCtorEq]
        at hhandler
  | caught hc hs hh =>
      cases hh with
      | read => simp only [Link.handlerTurn, reduceCtorEq] at hhandler
      | reacting => simp only [Link.handlerTurn, if_true, reduceCtorEq] at hhandler
      | left => rfl

theorem Signalled.exec {n : ℕ} (h : Signalled n x) (hmemory : x.memory.length = 256)
    {labels : List LinkMove} (he : linkMachine.execUnder Timely x labels = some x') :
    labels.countP answersSignal ≤ n := by
  induction labels generalizing x n with
  | nil => exact Nat.zero_le n
  | cons a rest ih =>
      simp only [Machine.execUnder, Option.ite_none_right_eq_some, Option.bind_eq_some_iff] at he
      obtain ⟨hok, y, hnext, he⟩ := he
      have hstep := step_of_next hnext
      obtain ⟨m, h', hle⟩ := h.step hmemory hok hstep
      have hrest := ih h' (memory_step hmemory hstep) he
      rw [List.countP_cons]
      cases ha : answersSignal a <;> simp only [ha, Bool.toNat_true, Bool.toNat_false] at hle ⊢ <;>
        simp <;> omega

/-- **Framing of the commands.** In every run that meets the condition, the strings that the handler
    takes are the commands that the client sends, one after the other; and if the client has been
    interrupted, at most ten more steps of `kill_child` and the handler follow, and where neither can
    go on the handler has left. -/
theorem commands_framed (h : linkMachine.ReachableUnder Timely x) :
    Framed x ∧ (x.signal ≠ .idle →
      (∀ labels x', linkMachine.execUnder Timely x labels = some x' →
        labels.countP answersSignal ≤ 10) ∧
      ((∀ a, answersSignal a = true → linkMachine.next x a = none) → x.handler = .left)) := by
  obtain ⟨hmemory, hphase⟩ := phase_reachable h
  refine ⟨hphase.framed, fun hsignal => ?_⟩
  cases hphase with
  | signalled hsignalled =>
      exact ⟨fun labels x' he => (hsignalled.exec hmemory he).trans hsignalled.le,
        fun hfinal => hsignalled.left hfinal⟩
  | _ => exact absurd rfl hsignal

end Runs

/-! ## Two runs -/

/-- The client at its prompt, and its handler before the next command. -/
def prompted (memory : Text) (sent taken : List Text) : Link :=
  ⟨fifo [] .closed .closed .closed .closed .closed, true, true, .prompt, .idle, .opening, memory,
    sent, taken⟩

/-- A step of the handler; where it reacts, it answers this and leaves this in its array. -/
def handlerStep (answer memory : Text) (h : memory.length = 256) : LinkMove :=
  .handler ⟨some [answer], false, false, memory, h⟩

/-- A line and its answer. -/
def passRun (stored : Text) (h : stored.length < 256) (answer memory : Text)
    (hmemory : memory.length = 256) : List LinkMove :=
  let handler := handlerStep answer memory hmemory
  [.line stored h, .client, handler, .client, .client, handler, handler, handler, handler, .client,
    handler, handler, .client, .client, .client]

/-- A command that is not `quit`, with an answer in one piece, brings the two back to where they
    were. -/
theorem exec_pass {stored : Text} {h : stored.length < 256} {answer memory memory' : Text}
    {hmemory : memory'.length = 256} {sent taken : List Text}
    (hquit : (Sending.line stored h).command ≠ "quit".toList) (hanswer : answer ≠ [])
    (hlength : answer.length ≤ 4096) :
    linkMachine.exec (prompted memory sent taken) (passRun stored h answer memory' hmemory) =
      some (prompted memory' (sent ++ [(Sending.line stored h).command])
        (taken ++ [(Sending.line stored h).command])) := by
  have hmessage : (Sending.line stored h).message ≠ [] := by simp [Sending.message]
  have hfits : (Sending.line stored h).message.length ≤ 256 := by
    have := (dropNewline_cString stored).length_le
    simp only [Sending.message, List.length_append, List.length_singleton]
    omega
  have hother : (Sending.line stored h).command ≠ ['q', 'u', 'i', 't'] := hquit
  simp [passRun, handlerStep, FifoEnd.release, hother, prompted, linkMachine, Machine.exec,
    Link.next, Link.clientRuns, Link.clientTurn, Link.handlerTurn, openWrite_client,
    openRead_handler, write_fifo,
    closeWrite_client (.inr (.inl Dialogue.opened_ne)), read_fifo hmessage,
    List.take_of_length_le hfits, List.drop_of_length_le hfits, received_line,
    closeRead_handler (.inl rfl), openWrite_handler, openRead_client, read_fifo hanswer,
    List.take_of_length_le hlength, List.drop_of_length_le hlength, hanswer,
    closeWrite_handler (.inr (.inl Dialogue.opened_ne)), read_fifo_nil,
    closeRead_client (.inl rfl)]

/-- A signal at the prompt, and what answers it. -/
def signalRun : List LinkMove :=
  let handler := .handler silent
  [.interrupt, .signal, handler, .signal, handler, handler, handler, .signal, .signal]

/-- The array of a handler that has read nothing. -/
def emptyMemory : Text := List.replicate 256 nul

/-- What `help readF` leaves in the array. -/
def helpMemory : Text := "help readF".toList ++ List.replicate 246 nul

theorem helpMemory_length : helpMemory.length = 256 := by
  have hcommand : "help readF".toList.length = 10 := by decide
  unfold helpMemory
  simp only [List.length_append, List.length_replicate, hcommand]

theorem prompted_init {memory : Text} (h : memory.length = 256) :
    linkMachine.init (prompted memory [] []) := ⟨memory, h, by rw [empty_eq_fifo]; rfl⟩

/-- An interrupted client with nothing in the array of its handler. -/
theorem commands_framed_first :
    ∃ x, linkMachine.ReachableUnder Timely x ∧ x.sent = ["quit".toList] ∧ x.taken = x.sent ∧
      x.signal = .returned ∧ Framed x ∧
      (∀ labels x', linkMachine.execUnder Timely x labels = some x' →
        labels.countP answersSignal ≤ 10) ∧
      ((∀ a, answersSignal a = true → linkMachine.next x a = none) → x.handler = .left) := by
  obtain ⟨x, hx, hsignal, hsent, htaken⟩ : ∃ x, linkMachine.execUnder Timely
      (prompted emptyMemory [] []) signalRun = some x ∧ x.signal = .returned ∧
      x.sent = ["quit".toList] ∧ x.taken = x.sent := ⟨_, rfl, rfl, rfl, rfl⟩
  have hreach := Machine.ReachableUnder.exec _ (.init (prompted_init List.length_replicate)) hx
  obtain ⟨hframed, hleaves⟩ := commands_framed hreach
  exact ⟨x, hreach, hsent, htaken, hsignal, hframed, hleaves (by rw [hsignal]; nofun)⟩

/-- Behind `help readF`, the `quit` of an interrupted client becomes `quit readF`. -/
theorem commands_not_always_framed :
    ¬ ∀ x, linkMachine.Reachable x → Framed x ∧ (x.signal ≠ .idle →
      (∀ a, answersSignal a = true → linkMachine.next x a = none) → x.handler = .left) := by
  intro hall
  have hpass := @exec_pass "help readF\n".toList (by decide) "usage".toList emptyMemory helpMemory
    helpMemory_length [] [] (by decide) (by decide) (by decide)
  have hfirst := (Machine.Reachable.init (prompted_init List.length_replicate)).exec _ hpass
  obtain ⟨x, hx, hsent, htaken⟩ : ∃ x, linkMachine.exec
      (prompted helpMemory ["help readF".toList] ["help readF".toList]) (signalRun.take 5) = some x ∧
      x.sent = ["help readF".toList, "quit".toList] ∧
      x.taken = ["help readF".toList, "quit readF".toList] := ⟨_, rfl, rfl, rfl⟩
  rcases (hall x (hfirst.exec _ hx)).1 with heq | ⟨s, -, heq⟩
  · rw [hsent, htaken] at heq
    exact absurd heq (by decide)
  · have hlength := congrArg List.length heq
    rw [hsent, htaken, List.length_append] at hlength
    simp at hlength

end SystemProgramming.Server.Framing
