import SystemProgramming.Lib.PathName
import SystemProgramming.Lib.Service
import SystemProgramming.Midterm.Transfers
import SystemProgramming.Midterm.WriteText
import SystemProgramming.Midterm.ReadLine

set_option autoImplicit false

/-! # The files as a store

What the commands on files are for: a client alone reads and changes the files of two directories.
`fileStore` is this service. It does not serve what the handlers are not made for: lines that do not
fit in their arrays, and a file with a NUL that is to be edited. The file names of its commands are
names of entries of the two directories (`DirectoryName`), not paths, so that two names are two
files. -/

namespace SystemProgramming.Server

open Function

/-! ## The commands -/

/-- One of the names that the programs themselves use: `server_directory`, `client_%d.fifo`,
    `server_%d.fifo`, `logfile_%d.log`. -/
def IsReserved (s : Text) : Prop :=
  s = "server_directory".toList ∨ ".fifo".toList <:+ s ∨ "logfile_".toList <+: s

instance (s : Text) : Decidable (IsReserved s) := inferInstanceAs (Decidable (_ ∨ _ ∨ _))

/-- The name of an entry of a directory that the programs do not use themselves, and that is not cut
    off in `server_file_path` behind `server_directory/`. -/
def DirectoryName (s : Text) : Prop :=
  IsEntryName s ∧ nul ∉ s ∧ ("server_directory/".toList ++ s).length < 260 ∧ ¬ IsReserved s

instance (s : Text) : Decidable (DirectoryName s) := inferInstanceAs (Decidable (_ ∧ _ ∧ _ ∧ _))

/-- A file name of a command. -/
structure FileName where
  text : Text
  isName : DirectoryName text
  no_space : ' ' ∉ text

theorem FileName.ne (file : FileName) : file.text ≠ [] := (isEntryName_iff.1 file.isName.1).1

/-- The decimal number of a line that fits an `int`. -/
structure LineNumber where
  digits : Text
  ne : digits ≠ []
  isDigit : digits.all Char.isDigit = true
  pos : 1 ≤ digitsValue digits
  le : digitsValue digits ≤ 2147483647

/-- The number that the digits stand for. -/
def LineNumber.value (k : LineNumber) : ℕ := digitsValue k.digits

/-- A command on files as a client types it, in one line. -/
inductive FileCommand
  /-- `writeT f s` or `writeT f k s` -/
  | write (c : TextCommand) (hline : '\n' ∉ c.text) (hname : DirectoryName c.fileName)
  /-- `readF f` or `readF f k` -/
  | read (file : FileName) (number : Option LineNumber)
  | upload (file : FileName)
  | download (file : FileName)

namespace FileCommand

/-- The name of its file. -/
def fileName : FileCommand → Text
  | .write c _ _ => c.fileName
  | .read file _ => file.text
  | .upload file | .download file => file.text

/-- What follows the name of the command. -/
def arguments : FileCommand → Text
  | .write c _ _ => c.fileName ++ ' ' :: c.tail
  | .read file none => file.text
  | .read file (some k) => file.text ++ ' ' :: k.digits
  | .upload file | .download file => file.text

/-- The name of the command. -/
def name : FileCommand → CommandName
  | .write _ _ _ => .writeT
  | .read _ _ => .readF
  | .upload _ => .upload
  | .download _ => .download

end FileCommand

/-- The name as it is typed. -/
def CommandName.text : CommandName → Text
  | .readF => "readF".toList
  | .writeT => "writeT".toList
  | .upload => "upload".toList
  | .download => "download".toList

/-- The line of the client. -/
def FileCommand.text (c : FileCommand) : Text := c.name.text ++ ' ' :: c.arguments

/-! ## What they do -/

/-- A response and its terminator. -/
def reply (response : String) : Text := response.toList ++ [nul]

/-- The line that `writeT` appends; a single word gets a space. -/
def appendedLine (text : Text) : Text := if ' ' ∈ text then text else text ++ [' ']

/-- The lines of the file up to line `k` fit in the buffer of `fgets`, and no NUL ends them. -/
def Editable (k : ℕ) (content : Text) : Prop :=
  nul ∉ content ∧ ∀ l ∈ (lines content).take k, l.length ≤ 4095

instance (k : ℕ) (content : Text) : Decidable (Editable k content) :=
  inferInstanceAs (Decidable (_ ∧ _))

instance decidableLinesFit : (k : ℤ) → (ls : List Text) → Decidable (LinesFit k ls)
  | _, [] => inferInstanceAs (Decidable True)
  | k, line :: rest =>
      have : Decidable (LinesFit (k - 1) rest) := decidableLinesFit (k - 1) rest
      inferInstanceAs (Decidable (if k = 0 ∧ '\n' ∈ line then lineLength line ≤ 4095
        else lineLength line ≤ 4096 ∧ LinesFit (k - 1) rest))

/-- `readF` of line `k`. Where the file has one newline less it sends nothing. -/
def lineAnswer (k : ℕ) (content : Text) : Text :=
  if k = content.count '\n' + 1 then [] else lineResponse k content

/-- `readF` on the content of the file, if there is one. -/
def readAnswer (number : Option LineNumber) : Option Text → Option Text
  | none => some (reply "Error opening file to read\n")
  | some content =>
      match number with
      | none => some content
      | some k =>
          if LinesFit (k.value - 1) (lines content) then some (lineAnswer k.value content) else none

/-- `writeT`: the content that it leaves, if it changes the file, and the answer. -/
def writeAnswer (c : TextCommand) (content : Option Text) : Option (Option Text × Text) :=
  match c.number, content with
  | none, content =>
      some (some (content.getD [] ++ appendedLine c.text ++ ['\n']),
        reply "Succesfully written into the file.\n")
  | some _, none => some (none, reply "Error opening file to write.\n")
  | some k, some content =>
      if Editable (digitsValue k) content then
        if digitsValue k ≤ (lines content).length then
          some (some (setLine (digitsValue k - 1) c.text content),
            reply "Succesfully written into the file.\n")
        else some (none, reply "Line number exceeds the number of lines in the file.\n")
      else none

/-- A transfer between the two directories, with the error for a file that is not there. -/
def transferAnswer (t : Transfer) (source dest : Option Text) (missing taken : String) :
    Option Text × Text :=
  match source, dest with
  | none, _ => (none, reply missing)
  | some _, some _ => (none, reply taken)
  | some content, none => (some content, reply (t.success content.length))

/-- The content of a file is set, or nothing changes. -/
def putFile (files : Path → Option Text) (path : Path) : Option Text → Path → Option Text
  | none => files
  | some content => update files path (some content)

/-- The commands on the files of the two directories. -/
def fileStore : Service (Path → Option Text) FileCommand Text where
  serve files c :=
    match c with
    | .write c _ _ =>
        (writeAnswer c (files (.file c.fileName))).map fun r =>
          (putFile files (.file c.fileName) r.1, r.2)
    | .read file number => (readAnswer number (files (.file file.text))).map fun r => (files, r)
    | .upload file =>
        let r := transferAnswer .upload (files (.file file.text)) (files (.serverFile file.text))
          "Error opening file for upload\n" "File already exists in the server's directory\n"
        some (putFile files (.serverFile file.text) r.1, r.2)
    | .download file =>
        let r := transferAnswer .download (files (.serverFile file.text)) (files (.file file.text))
          "File does not exist in the server's directory\n"
          "File already exists in the client's directory\n"
        some (putFile files (.file file.text) r.1, r.2)

end SystemProgramming.Server
