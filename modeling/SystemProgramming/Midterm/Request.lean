import SystemProgramming.Midterm.Calls

set_option autoImplicit false

/-! # The commands on files

The handlers of `readF`, `writeT`, `upload` and `download` in `request`. Each returns where the code
comes back to the top of its command loop. Locals that a handler reads before it writes them are
arguments: `fileName` and `str` hold whatever the stack holds. -/

namespace SystemProgramming.Server

open Handler

/-- The buffers of a handler that are not initialised. -/
structure Locals where
  fileName : Text
  str : Text

/-! ## readF -/

/-- The arguments of `readF`: `valid`, `file_name` and `line_number`. -/
def readFArgs (rest : Text) (locals : Locals) : Bool × Text × ℤ :=
  match strtok [' '] rest with
  | (none, _) => (false, locals.fileName, -1)
  | (some fileName, rest) =>
      match strtok [' '] rest with
      | (none, _) => (true, fileName, -1)
      | (some token, _) => (true, fileName, if atoi token = 0 then -1 else atoi token)

/-- Send the chunks of a file to the client. -/
def sendChunks (fileFd clientFd : ℕ) : List Text → Handler Unit
  | [] => pure ()
  | chunk :: rest => do
      sendBytes clientFd chunk [fileFd, clientFd] true
      sendChunks fileFd clientFd rest

/-- `readF` without a line number. -/
def readWhole (fileFd clientFd sfile : ℕ) : Handler Unit := do
  let result ← reads fileFd 4096
  sendChunks fileFd clientFd result.chunks
  if result.failed then
    close fileFd
    respond "Error reading from file.\n" true
  close fileFd
  close clientFd
  lock .readerExit sfile

/-- The loop of `readF` over the characters of the file, with `current_line` and the start of `line`
    that is filled; it returns `current_line`. The array `line` has 4096 elements. -/
def lineLoop (fileFd clientFd sfile : ℕ) (lineNumber : ℤ) : ℤ → Text → Text → Handler ℤ
  | currentLine, _, [] => pure currentLine
  | currentLine, line, ch :: rest =>
      if ch = '\n' then
        if currentLine = lineNumber then
          if line.length < 4096 then do
            sendBytes clientFd (line ++ [ch]) [fileFd, clientFd] true
            lock .readerExit sfile
            pure currentLine
          else Prog.undefined
        else lineLoop fileFd clientFd sfile lineNumber (currentLine + 1) [] rest
      else if line.length < 4096 then
        lineLoop fileFd clientFd sfile lineNumber currentLine (line ++ [ch]) rest
      else Prog.undefined

/-- `readF` with a line number. -/
def readLine (fileFd clientFd sfile : ℕ) (lineNumber : ℤ) : Handler Unit := do
  let result ← reads fileFd 1
  let currentLine ← lineLoop fileFd clientFd sfile lineNumber 1 [] result.chunks.flatten
  if currentLine < lineNumber ∨ lineNumber < 1 then
    send clientFd "Line number exceeds the number of lines in the file.\n" [fileFd, clientFd] true
  close fileFd
  close clientFd
  lock .readerExit sfile

/-- The branch for `readF`; `rest` follows the name of the command. -/
def readF (rest : Text) (locals : Locals) : Handler Unit := do
  let (valid, fileName, lineNumber) := readFArgs rest locals
  let sfile ← fileEntry fileName
  lock .readerEnter sfile
  match ← openRead (.file fileName) with
  | none =>
      respond "Error opening file to read\n" true
      lock .readerExit sfile
  | some fileFd =>
      let clientFd ← openClient .plain [fileFd]
      if valid = false then
        send clientFd "Invalid command format for readF\n" [fileFd, clientFd] true
        close clientFd
        lock .readerExit sfile
      else if lineNumber = -1 then readWhole fileFd clientFd sfile
      else readLine fileFd clientFd sfile lineNumber

/-! ## writeT -/

/-- The arguments of `writeT`: `file_name`, `line_number` and `string_to_write`, which may be `NULL`
    after a line number. -/
structure WriteTArgs where
  fileName : Text
  lineNumber : ℤ
  string : Option Text

/-- `string_to_write` when there is no line number. -/
def wholeString (str rest : Text) : Text := if str ≠ [] then str else rest

/-- The parsing of `writeT`; without a file name there is nothing to do. -/
def writeTArgs (rest : Text) (locals : Locals) : Option WriteTArgs :=
  match strtok [' '] rest with
  | (none, _) => none
  | (some fileName, rest) =>
      match strtok [' '] rest with
      | (none, rest) => some ⟨fileName, -1, some (wholeString locals.str rest)⟩
      | (some token, rest) =>
          if token.all Char.isDigit then
            let lineNumber := if atoi token = 0 then -1 else atoi token
            if lineNumber ≥ 0 then some ⟨fileName, lineNumber, (strtok [] rest).1⟩
            else some ⟨fileName, lineNumber, some (wholeString locals.str rest)⟩
          else
            let (next, rest) := strtok [] rest
            some ⟨fileName, -1, some (wholeString (token ++ [' '] ++ next.getD []) rest)⟩

/-- `writeT` without a line number. -/
def appendString (fileName : Text) (sfile : ℕ) (string : Text) : Handler Unit := do
  lock .writerEnter sfile
  match ← openWrite (.file fileName) .appendCreate with
  | none =>
      respond "Error opening file to write.\n" false
      lock .writerExit sfile
  | some fileFd =>
      if (← write fileFd string) = -1 then
        close fileFd
        respond "Error writing string into the file.\n" false
        lock .writerExit sfile
      else if (← write fileFd ['\n']) = -1 then
        close fileFd
        respond "Error writing string into the file.\n" true
        lock .writerExit sfile
      else
        close fileFd
        lock .writerExit sfile
        let clientFd ← openClient .append []
        send clientFd "Succesfully written into the file.\n" [clientFd] true
        close clientFd

/-- The loop that copies a file to the temporary file and replaces a line, over the buffers that
    `fgets` returns: the temporary file and `placed`. -/
def editLoop (lineNumber : ℤ) (string : Text) : ℤ → List Text → Text × Bool
  | _, [] => ([], false)
  | currentLine, buffer :: rest =>
      let (temp, placed) := editLoop lineNumber string (currentLine + 1) rest
      if lineNumber = currentLine + 1 then (cString string ++ ['\n'] ++ temp, true)
      else (cString buffer ++ temp, placed)

/-- The read section of `writeT` on the content of the file. -/
def editLines (lineNumber : ℤ) (string content : Text) : Text × Bool :=
  editLoop lineNumber string 0 (fgetsAll 4096 content)

/-- The write section of `writeT`: what it copies from the temporary file. -/
def copyLines (temp : Text) : Text := (fgetsAll 4096 temp).flatMap cString

/-- The write section of `writeT` with a line number, and the response. -/
def writeBack (fileName : Text) (sfile tempFd : ℕ) (temp : Text) : Handler Unit := do
  lock .writerEnter sfile
  match ← openWrite (.file fileName) .truncate with
  | none =>
      close tempFd
      respond "Error opening file to write.\n" true
      lock .writerExit sfile
  | some fileFd =>
      fputs fileFd (copyLines temp)
      close fileFd
      lock .writerExit sfile
      close tempFd
      respond "Succesfully written into the file.\n" true

/-- `writeT` with a line number. -/
def replaceString (fileName : Text) (sfile : ℕ) (lineNumber : ℤ) (string : Option Text) :
    Handler Unit := do
  lock .readerEnter sfile
  match ← openRead (.file fileName) with
  | none =>
      respond "Error opening file to write.\n" true
      lock .readerExit sfile
  | some fileFd =>
      match ← tmpfile with
      | none =>
          close fileFd
          respond "Error opening file to write.\n" true
      | some tempFd =>
          let content ← stream fileFd
          let (temp, placed) := editLines lineNumber (string.getD []) content
          if placed && string.isNone then
            -- `fputs(NULL, temp_file)`
            Prog.undefined
          else
            fputs tempFd temp
            close fileFd
            lock .readerExit sfile
            if placed then writeBack fileName sfile tempFd temp
            else
              close tempFd
              respond "Line number exceeds the number of lines in the file.\n" true

/-- The branch for `writeT`. -/
def writeT (rest : Text) (locals : Locals) : Handler Unit := do
  match writeTArgs rest locals with
  | none => respond "Invalid file name.\n" false
  | some ⟨fileName, lineNumber, string⟩ =>
      let sfile ← fileEntry fileName
      if lineNumber = -1 then appendString fileName sfile (string.getD [])
      else replaceString fileName sfile lineNumber string

/-! ## upload and download -/

/-- The copy loop of `upload` and `download`: the bytes transferred, or nothing once a write was
    short, which is answered and releases the lock. -/
def transfer (fromFd toFd sfile : ℕ) (response : String) (release : LockOp) :
    ℕ → List Text → Handler (Option ℕ)
  | total, [] => pure (some total)
  | total, chunk :: rest => do
      if (← write toFd chunk) ≠ chunk.length then
        closeAll [fromFd, toFd]
        respond response true
        lock release sfile
        pure none
      else transfer fromFd toFd sfile response release (total + chunk.length) rest

/-- The branch for `upload`. -/
def upload (rest : Text) : Handler Unit := do
  match (strtok [' '] rest).1 with
  | none =>
      -- the descriptor stays open
      let clientFd ← openClient .plain []
      send clientFd "Error opening file for upload\n" [clientFd] true
  | some fileName =>
      let sfile ← fileEntry fileName
      lock .readerEnter sfile
      match ← openRead (.file fileName) with
      | none =>
          respond "Error opening file for upload\n" true
          lock .readerExit sfile
      | some fileToUpload =>
          if ← access (.serverFile fileName) then
            let clientFd ← openClient .plain [fileToUpload]
            send clientFd "File already exists in the server's directory\n"
              [clientFd, fileToUpload] true
            close clientFd
            close fileToUpload
            lock .readerExit sfile
          else
            match ← openWrite (.serverFile fileName) .exclusive with
            | none =>
                close fileToUpload
                respond "Error creating file in the server's directory\n" true
                lock .readerExit sfile
            | some serverFile =>
                let result ← reads fileToUpload 4096
                match ← transfer fileToUpload serverFile sfile
                    "Error writing data to the server's file\n" .readerExit 0 result.chunks with
                | none => pure ()
                | some total =>
                    close fileToUpload
                    lock .readerExit sfile
                    close serverFile
                    respond ("File uploaded successfully. Total bytes transferred: " ++
                      toString total ++ "\n") true

/-- The branch for `download`. -/
def download (rest : Text) : Handler Unit := do
  match (strtok [' '] rest).1 with
  | none => respond "No file name provided for download\n" true
  | some fileName =>
      if (← access (.serverFile fileName)) = false then
        respond "File does not exist in the server's directory\n" true
      else
        match ← openRead (.serverFile fileName) with
        | none => respond "Error opening file for download\n" true
        | some serverFile =>
            if ← access (.file fileName) then
              respond "File already exists in the client's directory\n" true
            else
              let sfile ← fileEntry fileName
              lock .writerEnter sfile
              match ← openWrite (.file fileName) .create with
              | none =>
                  respond "Failed to download file.\n" true
                  lock .writerExit sfile
              | some newFileFd =>
                  let result ← reads serverFile 4096
                  match ← transfer serverFile newFileFd sfile
                      "Error occured while downloading the file.\n" .writerExit 0 result.chunks with
                  | none => pure ()
                  | some total =>
                      close serverFile
                      close newFileFd
                      lock .writerExit sfile
                      respond ("File downloaded successfully. Total bytes transferred: " ++
                        toString total ++ "\n") true

/-! ## The commands -/

/-- The commands that use the shared file table. -/
inductive CommandName
  | readF
  | writeT
  | upload
  | download
deriving DecidableEq

/-- The handler of a command, given what follows its name. -/
def runCommand (name : CommandName) (rest : Text) (locals : Locals) : Handler Unit :=
  match name with
  | .readF => readF rest locals
  | .writeT => writeT rest locals
  | .upload => upload rest
  | .download => download rest

end SystemProgramming.Server
