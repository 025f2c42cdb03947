import SystemProgramming.Lib.Monitor
import SystemProgramming.Midterm.Request

set_option autoImplicit false

/-! # The command loop

A pass of the loop of `request`, with the commands that do not use the shared file table. The
handlers of the others are those of `Request`, whose calls are some of the calls here. -/

namespace SystemProgramming.Server

open Handler

/-- The calls of `request`. -/
inductive RequestCall
  | file (c : Call)
  /-- `read` from the client FIFO; the reply is the string in `command`, or the error -/
  | readCommand (fd : ℕ)
  /-- `opendir`, `readdir` and `closedir` on the server directory; the reply is the names in it -/
  | readServerDir
  /-- `fork` in `archServer`; the child runs `tar` -/
  | forkTar
  /-- `waitpid`; the reply is whether the status is that of a success -/
  | waitTar
  /-- `kill(getppid(), SIGINT)` -/
  | killParent
  | unlinkServerFifo
deriving DecidableEq

/-- What a call answers. -/
def RequestReply : RequestCall → Type
  | .file c => Reply c
  | .readCommand _ => Option Text
  | .readServerDir => Option (List Text)
  | .forkTar | .waitTar => Bool
  | .killParent | .unlinkServerFifo => Unit

/-- A piece of `request`. -/
abbrev Requester := Prog RequestCall RequestReply

/-- A handler on files as a part of `request`. -/
def files {α : Type} (p : Handler α) : Requester α := p.lift .file fun _ r => r

/-- the `read` of a command -/
def readCommand (fd : ℕ) : Requester (Option Text) := Prog.perform (RequestCall.readCommand fd)
/-- `opendir` and `readdir` on the server directory -/
def readServerDir : Requester (Option (List Text)) := Prog.perform RequestCall.readServerDir
/-- the `fork` of `archServer` -/
def forkTar : Requester Bool := Prog.perform RequestCall.forkTar
/-- its `waitpid` -/
def waitTar : Requester Bool := Prog.perform RequestCall.waitTar
/-- `kill(getppid(), SIGINT)` -/
def killParent : Requester Unit := Prog.perform RequestCall.killParent
/-- `unlink(server_fifo_path)` -/
def unlinkServerFifo : Requester Unit := Prog.perform RequestCall.unlinkServerFifo

/-! ## help and list -/

/-- The responses to `help` and to `help` with the name of a command. -/
def helpResponse (command : Text) : Option String :=
  if command = "help".toList then
    some ("Available commands are:\n\nhelp, list, readF, writeT, upload, download, archServer, " ++
      "killServer, quit\n")
  else if command = "help readF".toList then
    some ("\n\nreadF <file> <line #>\nDisplay the #th line of the <file>, returns with an error if " ++
      "<file> does not exists.\n\n")
  else if command = "help writeT".toList then
    some ("\n\nwriteT <file> <line #> <string>\nWrite the  content of “string” to the  #th  line the " ++
      "<file>, if the line # is not given writes to the end of file. If the file does not exists in " ++
      "Servers directory creates and edits thefile at the same time.\n\n")
  else if command = "help upload".toList then
    some ("\n\nupload <file>\nUploads the file from the current working directory of client to the " ++
      "Servers directory.\n\n")
  else if command = "help download".toList then
    some "\n\ndownload <file>\nReceive <file> from Servers directory to client side\n\n"
  else if command = "help archServer".toList then
    some ("\n\narchServer <fileName>.tar\nUsing fork, exec and tar utilities create a child process " ++
      "that will collect all the files currently available on the the  Server side and store them " ++
      "in the <filename>.tar archive\n\n")
  else if command = "help killServer".toList then
    some "\n\nkillServer\nSends a kill request to the Server\n\n"
  else none

/-- The names of a directory, one a line. -/
def listing (names : List Text) : Text :=
  (names.filter fun name => name ≠ ".".toList ∧ name ≠ "..".toList).flatMap (· ++ ['\n'])

/-- `list`; the array `response` has 4096 elements. -/
def list : Requester Unit := do
  let clientFd ← files (openClient .plain [])
  match ← readServerDir with
  | none =>
      -- this answers on a descriptor of its own, `clientFd` stays open
      files (respond "Error opening server directory.\n" true)
  | some names =>
      if (listing names).length < 4096 then
        files (sendBytes clientFd (listing names ++ [nul]) [clientFd] true)
        files (close clientFd)
      else Prog.undefined

/-! ## archServer and killServer -/

/-- The branch for `archServer`; `rest` follows the name of the command. -/
def archServer (rest : Text) : Requester Unit := do
  match (strtok [' '] rest).1 with
  | none => files (respond "No file name provided for archServer\n" true)
  | some archiveName =>
      if archiveName.length < 4 ∨ archiveName.drop (archiveName.length - 4) ≠ ".tar".toList then
        files (respond "Invalid filename. Must end with \".tar\"\n" true)
      else if (← forkTar) = false then Prog.exit
      else if ← waitTar then
        files (respond
          "Succesfully archived server directory, created .tar file is in server directory.\n" true)
      else files (respond "Failed to archive server directory.\n" true)

/-- The branch for `killServer`. -/
def killServer : Requester Unit := do
  files do
    let clientFd ← openClient .plain []
    send clientFd "\nKilling the server...\n" [clientFd] true
    close clientFd
    unlink .clientFifo
  killParent
  unlinkServerFifo

/-! ## The loop -/

/-- What `request` does after a pass: another one, or it returns. -/
inductive Next
  | again
  | leave
deriving DecidableEq

/-- The command on files that a token names. -/
def fileCommand (token : Text) : Option CommandName :=
  if token = "readF".toList then some .readF
  else if token = "writeT".toList then some .writeT
  else if token = "upload".toList then some .upload
  else if token = "download".toList then some .download
  else none

/-- The name of a command, and what follows it. -/
def splitCommand (command : Text) : Text × Text :=
  match strtok [' '] command with
  | (none, rest) => ("invalid".toList, rest)
  | (some token, rest) => (token, rest)

/-- The commands that come with arguments. -/
def runNamed (token rest : Text) (locals : Locals) : Requester Unit :=
  match fileCommand token with
  | some name => files (runCommand name rest locals)
  | none =>
      if token = "archServer".toList then archServer rest
      else files (respond "\ninvalid command\n" false)

/-- What a command that has arrived leads to. -/
def dispatch (command : Text) (locals : Locals) : Requester Next := do
  match helpResponse command with
  | some response =>
      files (respond response true)
      pure .again
  | none =>
      if command = "list".toList then
        list
        pure .again
      else if command = "quit".toList then pure .leave
      else if command = "killServer".toList then
        killServer
        pure .again
      else
        runNamed (splitCommand command).1 (splitCommand command).2 locals
        pure .again

/-- A pass of the loop. -/
def request (locals : Locals) : Requester Next := do
  match ← files (openRead .clientFifo) with
  | none => Prog.exit
  | some clientFd =>
      match ← readCommand clientFd with
      | none =>
          files (close clientFd)
          files (respond "Error reading command from client FIFO.\n" true)
          pure .again
      | some command =>
          files (close clientFd)
          dispatch command locals

end SystemProgramming.Server
