import SystemProgramming.Lib.Bytes
import SystemProgramming.Lib.Environment
import SystemProgramming.Midterm.Brackets
import SystemProgramming.Midterm.CommandLoop
import SystemProgramming.Midterm.FileTable

set_option autoImplicit false

/-! # The host of a handler

A handler alone with the files, the shared table and its client. The host answers the calls of a
pass of the command loop: it keeps the contents of the files, the table with its locks, the
descriptors, and what has been sent to the client. It knows a file by its name: that two names are
two files is so for names of entries, not for paths such as `f` and `./f`. What goes wrong is up to
its `fate`, which says for each call whether it fails, and how many bytes it moves before it
does. -/

namespace SystemProgramming.Server

open Function Prog

/-- The content of a file after it has been opened for writing, if it can be. -/
def WriteMode.onOpen (mode : WriteMode) (content : Option Text) : Option Text :=
  match mode, content with
  | .plain, content | .append, content => content
  | .appendCreate, content | .create, content => some (content.getD [])
  | .exclusive, none => some []
  | .exclusive, some _ => none
  | .truncate, _ => some []

/-- What a descriptor is open on. -/
inductive Opened
  | fifo
  /-- a file, with the offset; `none` is the end of the file -/
  | file (path : Path) (offset : Option ℕ)
  | temp

/-- The files, the table, the descriptors, the client's end, and what goes wrong. -/
structure Host where
  sd : Sync.Shared
  files : Path → Option Text
  /-- the names in the server directory, in the order of `readdir` -/
  serverNames : List Text
  /-- the memory of `command` once the client has sent one -/
  command : Text
  opened : ℕ → Option Opened
  nextFd : ℕ
  /-- what has been written to the client FIFO, write by write -/
  responses : List Text
  /-- what goes wrong: the call with this number fails after so many bytes -/
  fate : ℕ → Option ℕ
  calls : ℕ

namespace Host

variable (w : Host)

/-- The next call goes well. -/
def succeeds : Bool := (w.fate w.calls).isNone

/-- A call has been made. -/
def tick : Host := { w with calls := w.calls + 1 }

/-- The bytes that the next call moves, and whether it fails. -/
def moved (bytes : Text) : Text × Bool :=
  match w.fate w.calls with
  | none => (bytes, false)
  | some n => (bytes.take n, true)

/-- A new descriptor. -/
def openAs (file : Opened) : Option ℕ × Host :=
  (some w.nextFd,
    { w with opened := update w.opened w.nextFd (some file), nextFd := w.nextFd + 1 })

/-- The file has this content now. -/
def setFile (path : Path) (content : Text) : Host :=
  { w with files := update w.files path (some content) }

/-- `open(…, O_RDONLY)` or `fopen(…, "r")` -/
def openRead (path : Path) : Option ℕ × Host :=
  if w.succeeds = false then (none, w.tick)
  else
    match path with
    | .clientFifo => w.tick.openAs .fifo
    | path => if (w.files path).isSome then w.tick.openAs (.file path (some 0)) else (none, w.tick)

/-- `open` or `fopen` for writing. -/
def openWrite (path : Path) (mode : WriteMode) : Option ℕ × Host :=
  if w.succeeds = false then (none, w.tick)
  else
    match path with
    | .clientFifo => w.tick.openAs .fifo
    | path =>
        match mode.onOpen (w.files path) with
        | none => (none, w.tick)
        | some content =>
            (w.tick.setFile path content).openAs
              (.file path (if mode = .append ∨ mode = .appendCreate then none else some 0))

/-- What can be read from a descriptor. -/
def text (fd : ℕ) : Text :=
  match w.opened fd with
  | some (.file path offset) => ((w.files path).getD []).drop (offset.getD 0)
  | _ => []

/-- Bytes have been accepted on a descriptor. -/
def put (fd : ℕ) (bytes : Text) : Host :=
  match w.opened fd with
  | some .fifo => { w with responses := w.responses ++ [bytes] }
  | some (.file path offset) =>
      let content := (w.files path).getD []
      { w.setFile path (match offset with
          | none => content ++ bytes
          | some k => content.take k ++ overwrite (content.drop k) bytes) with
        opened := update w.opened fd (some (.file path (offset.map (· + bytes.length)))) }
  | _ => w

/-- `write`: what it answers, and what has been accepted. -/
def write (fd : ℕ) (bytes : Text) : ℤ × Host :=
  let (accepted, failed) := w.moved bytes
  if failed ∧ accepted = [] then (-1, w.tick) else (accepted.length, w.tick.put fd accepted)

/-- The results of the `read` calls of a loop. -/
def reads (fd size : ℕ) : Reads size where
  chunks := if h : 0 < size then chunksFrom size [] (w.moved (w.text fd)).1 else []
  failed := (w.moved (w.text fd)).2
  chunk_size := by
    split
    · exact chunksFrom_size ‹_› _
    · simp

/-- The calls on files. A lock function that would wait does not return. -/
def answer (w : Host) : (c : Call) → Option (Reply c × Host)
  | .getFile name => some (Sync.getFile w.sd name, w)
  | .initFile name =>
      let (entry, sd) := Sync.initFile name w.succeeds true w.sd
      some (entry, { w.tick with sd := sd })
  | .lock op entry =>
      (op.apply (w.sd.files entry)).map fun file =>
        ((), { w with sd := { w.sd with files := update w.sd.files entry file } })
  | .openRead path => some (w.openRead path)
  | .openWrite path mode => some (w.openWrite path mode)
  | .access path => some ((w.files path).isSome, w)
  | .tmpfile => some (if w.succeeds then w.tick.openAs .temp else (none, w.tick))
  | .reads fd size => some (w.reads fd size, w.tick)
  | .stream fd => some ((w.moved (w.text fd)).1, w.tick)
  | .write fd bytes => some (w.write fd bytes)
  | .fputs fd bytes => some ((), w.tick.put fd (w.moved bytes).1)
  | .close fd => some ((), { w with opened := update w.opened fd none })
  | .unlink path => some ((), { w with files := update w.files path none })

/-- The calls of a pass. What `tar` puts into its archive is left out. -/
def answerRequest (w : Host) : (c : RequestCall) → Option (RequestReply c × Host)
  | .file c => w.answer c
  | .readCommand _ =>
      some (if w.succeeds then some (cString w.command) else none, w.tick)
  | .readServerDir => some (if w.succeeds then some w.serverNames else none, w.tick)
  | .forkTar | .waitTar => some (w.succeeds, w.tick)
  | .killParent | .unlinkServerFifo => some ((), w)

end Host

end SystemProgramming.Server
