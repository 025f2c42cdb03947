import Mathlib.Data.Int.Notation
import SystemProgramming.Lib.CText
import SystemProgramming.Lib.Prog

set_option autoImplicit false

/-! # The calls of a request handler

What the commands of `request` ask of the system, of the shared file table and of its locks. The
replies are left open, so that a path of a handler is one way its calls can turn out.

A loop of `read` calls on one descriptor is asked for at once: its reply is the whole sequence of
results up to the first that is not positive, finite as the file is; a loop that ends earlier
ignores the rest. Calls whose results the code ignores reply nothing; what it prints for the
operator is left out. -/

namespace SystemProgramming.Server

/-- The functions of `sync.c` on an entry of the shared table. -/
inductive LockOp
  | readerEnter
  | readerExit
  | writerEnter
  | writerExit
deriving DecidableEq

/-- The files a handler opens: the FIFO of its client, a file of the client directory, a file of the
    server directory. -/
inductive Path
  | clientFifo
  | file (name : Text)
  | serverFile (name : Text)
deriving DecidableEq

/-- How a file is opened for writing. -/
inductive WriteMode
  /-- `O_WRONLY` -/
  | plain
  /-- `O_WRONLY | O_APPEND` -/
  | append
  /-- `O_WRONLY | O_APPEND | O_CREAT` -/
  | appendCreate
  /-- `O_WRONLY | O_CREAT` -/
  | create
  /-- `O_WRONLY | O_CREAT | O_EXCL` -/
  | exclusive
  /-- `fopen(…, "w+")` -/
  | truncate
deriving DecidableEq

/-- The calls of a handler on the shared table, the files and the client FIFO. -/
inductive Call
  /-- `get_file` -/
  | getFile (name : Text)
  /-- `init_file` -/
  | initFile (name : Text)
  | lock (op : LockOp) (entry : ℕ)
  /-- `open(…, O_RDONLY)` or `fopen(…, "r")` -/
  | openRead (path : Path)
  | openWrite (path : Path) (mode : WriteMode)
  /-- `access(…, F_OK)` -/
  | access (path : Path)
  | tmpfile
  /-- the calls `read(fd, buffer, size)` of a loop -/
  | reads (fd : ℕ) (size : ℕ)
  /-- what `fgets` delivers from a stream, up to its end or a read error -/
  | stream (fd : ℕ)
  | write (fd : ℕ) (bytes : Text)
  /-- the `fputs` calls on a stream -/
  | fputs (fd : ℕ) (bytes : Text)
  | close (fd : ℕ)
  | unlink (path : Path)
deriving DecidableEq

/-- The results of the `read` calls of a loop: the chunks, and whether the last call failed. -/
structure Reads (size : ℕ) where
  chunks : List Text
  failed : Bool
  chunk_size : ∀ c ∈ chunks, c ≠ [] ∧ c.length ≤ size

/-- The replies; `none` is `NULL` or -1. -/
def Reply : Call → Type
  | .getFile _ | .initFile _ => Option ℕ
  | .openRead _ | .openWrite _ _ | .tmpfile => Option ℕ
  | .access _ => Bool
  | .reads _ size => Reads size
  | .stream _ => Text
  | .write _ _ => ℤ
  | .lock _ _ | .fputs _ _ | .close _ | .unlink _ => Unit

/-- A handler, or a part of one. -/
abbrev Handler := Prog Call Reply

namespace Handler

/-- `get_file` -/
def getFile (name : Text) : Handler (Option ℕ) := Prog.perform (Call.getFile name)
/-- `init_file` -/
def initFile (name : Text) : Handler (Option ℕ) := Prog.perform (Call.initFile name)
/-- `reader_enter`, `reader_exit`, `writer_enter` or `writer_exit` -/
def lock (op : LockOp) (entry : ℕ) : Handler Unit := Prog.perform (Call.lock op entry)
/-- `open(…, O_RDONLY)` or `fopen(…, "r")` -/
def openRead (path : Path) : Handler (Option ℕ) := Prog.perform (Call.openRead path)
/-- `open` or `fopen` for writing -/
def openWrite (path : Path) (mode : WriteMode) : Handler (Option ℕ) :=
  Prog.perform (Call.openWrite path mode)
/-- `access(…, F_OK) != -1` -/
def access (path : Path) : Handler Bool := Prog.perform (Call.access path)
/-- `tmpfile` -/
def tmpfile : Handler (Option ℕ) := Prog.perform Call.tmpfile
/-- a loop of `read` calls into an array of this size -/
def reads (fd size : ℕ) : Handler (Reads size) := Prog.perform (Call.reads fd size)
/-- the reads of a stream to its end -/
def stream (fd : ℕ) : Handler Text := Prog.perform (Call.stream fd)
/-- `write` -/
def write (fd : ℕ) (bytes : Text) : Handler ℤ := Prog.perform (Call.write fd bytes)
/-- `fputs` -/
def fputs (fd : ℕ) (bytes : Text) : Handler Unit := Prog.perform (Call.fputs fd bytes)
/-- `close` or `fclose` -/
def close (fd : ℕ) : Handler Unit := Prog.perform (Call.close fd)
/-- `unlink` -/
def unlink (path : Path) : Handler Unit := Prog.perform (Call.unlink path)

/-- `exitFailure`. -/
def exitFailure {α : Type} : Handler α := Prog.exit

/-- These descriptors are closed, one after the other. -/
def closeAll : List ℕ → Handler Unit
  | [] => pure ()
  | fd :: rest => do
      close fd
      closeAll rest

/-- Open the client FIFO for writing; on failure close the given descriptors and exit. -/
def openClient (mode : WriteMode) (opened : List ℕ) : Handler ℕ := do
  match ← openWrite .clientFifo mode with
  | some fd => pure fd
  | none =>
      closeAll opened
      exitFailure

/-- Write to the client; on failure close the given descriptors, unlink the FIFO if the code does,
    and exit. -/
def sendBytes (fd : ℕ) (bytes : Text) (opened : List ℕ) (unlinks : Bool) : Handler Unit := do
  if (← write fd bytes) = -1 then
    closeAll opened
    if unlinks then unlink .clientFifo
    exitFailure
  else pure ()

/-- Write a response with its terminator. -/
def send (fd : ℕ) (response : String) (opened : List ℕ) (unlinks : Bool) : Handler Unit :=
  sendBytes fd (response.toList ++ [nul]) opened unlinks

/-- Open the client FIFO, write a response and close the FIFO. -/
def respond (response : String) (unlinks : Bool) : Handler Unit := do
  let clientFd ← openClient .plain []
  send clientFd response [clientFd] unlinks
  close clientFd

/-- The entry of a file in the shared table, a new one if it has none. -/
def fileEntry (name : Text) : Handler ℕ := do
  match ← getFile name with
  | some entry => pure entry
  | none =>
      match ← initFile name with
      | some entry => pure entry
      | none => exitFailure

end Handler

end SystemProgramming.Server
