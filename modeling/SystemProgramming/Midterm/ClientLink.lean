import SystemProgramming.Lib.Fifo
import SystemProgramming.Lib.Machine
import SystemProgramming.Midterm.ClientLoop

set_option autoImplicit false

/-! # A client, its signals and its handler

The command loop of a client, the `kill_child` that SIGINT and SIGTSTP call in the middle of it, and
the handler of the client, over the client FIFO with its blocking opens. The handler is here what
matters to the FIFO: it takes the string in its array after every read, leaves on `quit`, and gives
any answer to other commands; a pass may leave anything in the array, since `strtok` writes into it.
The reads of the FIFO do not fail, and `kill_child` is not interrupted itself. -/

namespace SystemProgramming.Server

open Function

/-! ## The two processes -/

/-- The descriptors that the FIFO is read from. -/
inductive Reader
  | client
  | handler
deriving DecidableEq

/-- The descriptors that it is written to: of the client's loop, of `kill_child`, of the handler, and
    those that the handler has forgotten to close. -/
inductive Writer
  | client
  | signal
  | handler
  | leaked
deriving DecidableEq

instance : Fintype Reader where
  elems := {.client, .handler}
  complete r := by cases r <;> simp

instance : Fintype Writer where
  elems := {.client, .signal, .handler, .leaked}
  complete w := by cases w <;> simp

/-- Where the command loop of the client is. -/
inductive LoopPC
  /-- in `fgets`, or in a `stat` of the server's FIFO around it -/
  | prompt
  /-- before `open` for writing, in it, or about to write the line that is stored -/
  | sending (stored : Text) (h : stored.length < 256)
  /-- about to close behind a command; whether it was `quit` -/
  | sent (quit : Bool)
  /-- before `open` for reading, in it, or in the loop of `read` calls -/
  | listening
  /-- about to close behind the response -/
  | heard
  | ended

/-- Where `kill_child` is. -/
inductive SignalPC
  | idle
  /-- before `open` for writing, in it, or about to write -/
  | opening
  | written
  | unlinking
  | returned
deriving DecidableEq

/-- Where the handler is. -/
inductive HandlerPC
  /-- before `open` for reading, in it, or about to read -/
  | opening
  /-- about to close behind a command -/
  | read (command : Text)
  | reacting (command : Text)
  /-- before `open` for writing, in it, or with these pieces to write -/
  | answering (pieces : List Text) (leaks kills : Bool)
  /-- `unlink` in `killServer` -/
  | unlinking
  /-- the loop is left -/
  | left
  /-- `exitFailure`, or a signal -/
  | exited
deriving DecidableEq

/-- The FIFO, where the two processes and `kill_child` are, and history: what was sent and what was
    taken. -/
structure Link where
  pipe : Fifo Reader Writer Char
  /-- the FIFO has not been removed -/
  linked : Bool
  /-- the FIFO of the server is there -/
  server : Bool
  client : LoopPC
  signal : SignalPC
  handler : HandlerPC
  /-- the array `command` of the handler -/
  memory : Text
  /-- the commands that the client has sent -/
  sent : List Text
  /-- the strings that the handler has taken -/
  taken : List Text

/-- What a pass of the handler does about a command other than `quit`. -/
structure Reaction where
  /-- the answer, write by write; without one the handler exits -/
  answer : Option (List Text)
  /-- the descriptor of the answer is not closed -/
  leaks : Bool
  /-- the command was `killServer` -/
  kills : Bool
  /-- what is left in the array -/
  memory : Text
  memory_length : memory.length = 256

/-- A step of one of the processes, or a signal. -/
inductive LinkMove
  /-- `fgets` stores a line -/
  | line (stored : Text) (h : stored.length < 256)
  /-- `fgets` fails -/
  | endOfInput
  /-- the next step of the client's loop -/
  | client
  /-- SIGINT or SIGTSTP -/
  | interrupt
  /-- the next step of `kill_child` -/
  | signal
  /-- behind `kill_child`, `fgets` or `open` fails with EINTR, or a further signal finds the FIFO
      removed -/
  | giveUp
  /-- behind `kill_child`, a `read` of the response fails with EINTR -/
  | readFails
  /-- the next step of the handler -/
  | handler (reaction : Reaction)
  /-- the server removes its FIFO -/
  | serverEnds

namespace Link

variable (x : Link)

/-- The client is not in `kill_child`. -/
def clientRuns : Bool := x.signal = .idle ∨ x.signal = .returned

/-- The client process ends, and may remove the FIFO before. -/
def clientEnds (removes : Bool) : Link :=
  { x with
    pipe := ((x.pipe.closeRead .client).closeWrite .client).closeWrite .signal
    linked := x.linked && !removes
    client := .ended }

/-- The handler process is about to end, or has ended. -/
def handlerEnds (pc : HandlerPC) : Link :=
  { x with
    pipe := ((x.pipe.closeRead .handler).closeWrite .handler).closeWrite .leaked
    handler := pc }

/-- A signal interrupts an `open` that blocks. -/
def abandoned : Fifo Reader Writer Char :=
  let pipe := if x.pipe.readers .client = .opening then x.pipe.closeRead .client else x.pipe
  if x.pipe.writers .client = .opening then pipe.closeWrite .client else pipe

/-- The command loop of the client; a write without a reader is a SIGPIPE. -/
def clientTurn : Option Link :=
  match x.client with
  | .prompt | .ended => none
  | .sending stored h =>
      match x.pipe.writers .client with
      | .closed =>
          some (if x.linked then { x with pipe := x.pipe.openWrite .client } else x.clientEnds true)
      | .opening => none
      | .opened =>
          match x.pipe.write (Sending.line stored h).message with
          | none => some (x.clientEnds false)
          | some pipe =>
              some { x with
                pipe := pipe
                client := .sent ((Sending.line stored h).command = "quit".toList)
                sent := x.sent ++ [(Sending.line stored h).command] }
  | .sent quit =>
      some (if quit then x.clientEnds true
        else { x with pipe := x.pipe.closeWrite .client, client := .listening })
  | .listening =>
      match x.pipe.readers .client with
      | .closed =>
          some (if x.linked then { x with pipe := x.pipe.openRead .client } else x.clientEnds true)
      | .opening => none
      | .opened =>
          (x.pipe.read 4096).map fun r =>
            { x with pipe := r.2, client := if r.1 = [] then .heard else .listening }
  | .heard => some { x with pipe := x.pipe.closeRead .client, client := .prompt }

/-- `kill_child`, behind the test of the server's FIFO. -/
def signalTurn : Option Link :=
  match x.signal with
  | .idle | .returned => none
  | .opening =>
      match x.pipe.writers .signal with
      | .closed =>
          some (if x.linked then { x with pipe := x.pipe.openWrite .signal } else x.clientEnds true)
      | .opening => none
      | .opened =>
          match x.pipe.write Sending.interrupt.message with
          | none => some (x.clientEnds false)
          | some pipe =>
              some { x with
                pipe := pipe
                signal := .written
                sent := x.sent ++ [Sending.interrupt.command] }
  | .written => some { x with pipe := x.pipe.closeWrite .signal, signal := .unlinking }
  | .unlinking => some { x with linked := false, signal := .returned }

/-- The loop of the handler. -/
def handlerTurn (r : Reaction) : Option Link :=
  match x.handler with
  | .opening =>
      match x.pipe.readers .handler with
      | .closed =>
          some (if x.linked then { x with pipe := x.pipe.openRead .handler }
            else x.handlerEnds .exited)
      | .opening => none
      | .opened =>
          (x.pipe.read 256).map fun read =>
            { x with
              pipe := read.2
              handler := .read (received x.memory read.1)
              memory := overwrite x.memory read.1
              taken := x.taken ++ [received x.memory read.1] }
  | .read command =>
      some { x with pipe := x.pipe.closeRead .handler, handler := .reacting command }
  | .reacting command =>
      if command = "quit".toList then some (x.handlerEnds .left)
      else
        match r.answer with
        | none => some (x.handlerEnds .exited)
        | some pieces =>
            some { x with memory := r.memory, handler := .answering pieces r.leaks r.kills }
  | .answering pieces leaks kills =>
      match x.pipe.writers .handler, pieces with
      | .closed, _ =>
          some (if x.linked then { x with pipe := x.pipe.openWrite .handler }
            else x.handlerEnds .exited)
      | .opening, _ => none
      | .opened, [] =>
          let pipe := if leaks then
            { x.pipe with writers := update x.pipe.writers .leaked .opened } else x.pipe
          some { x with
            pipe := pipe.closeWrite .handler
            handler := if kills then .unlinking else .opening }
      | .opened, piece :: pieces =>
          match x.pipe.write piece with
          | none => some (x.handlerEnds .exited)
          | some pipe => some { x with pipe := pipe, handler := .answering pieces leaks kills }
  | .unlinking => some { x with linked := false, handler := .opening }
  | .left | .exited => none

/-- The steps of the client, of `kill_child` and of the handler; while `kill_child` runs the loop of
    the client does not. -/
def next : LinkMove → Option Link
  | .line stored h =>
      match x.client with
      | .prompt =>
          if x.clientRuns then
            some (if x.server then { x with client := .sending stored h } else x.clientEnds true)
          else none
      | _ => none
  | .endOfInput =>
      match x.client with
      | .prompt => if x.clientRuns then some (x.clientEnds false) else none
      | _ => none
  | .client => if x.clientRuns then x.clientTurn else none
  | .interrupt =>
      match x.client with
      | .ended => none
      | _ =>
          if x.signal = .idle then
            some { x with
              pipe := x.abandoned, signal := if x.server then .opening else .unlinking }
          else none
  | .signal =>
      match x.client with
      | .ended => none
      | _ => x.signalTurn
  | .giveUp => if x.signal = .returned then some (x.clientEnds false) else none
  | .readFails =>
      match x.client with
      | .listening => if x.signal = .returned then some { x with client := .heard } else none
      | _ => none
  | .handler r => x.handlerTurn r
  | .serverEnds => some { x with server := false }

end Link

/-- A client that has come to its command loop, and a handler with anything in its array. -/
def linkMachine : Machine Link LinkMove where
  init x := ∃ memory : Text, memory.length = 256 ∧
    x = ⟨Fifo.empty, true, true, .prompt, .idle, .opening, memory, [], []⟩
  next := Link.next

end SystemProgramming.Server
