import SystemProgramming.Midterm.Host
import SystemProgramming.Midterm.LineEdit

set_option autoImplicit false

/-! # Runs of a handler in its host

What the parts of the handlers do in a host where nothing goes wrong: which descriptors they open,
what they send, and what becomes of the file they work on. -/

namespace SystemProgramming.Server

open Function Prog Sync Handler

namespace Host

variable {w : Host}

/-- Nothing goes wrong. -/
def Calm (w : Host) : Prop := ∀ n, w.fate n = none

theorem Calm.succeeds (h : w.Calm) : w.succeeds = true := by rw [Host.succeeds, h w.calls]; rfl

theorem Calm.moved (h : w.Calm) (bytes : Text) : w.moved bytes = (bytes, false) := by
  rw [Host.moved, h w.calls]

/-! ## The client FIFO -/

/-- The host after some bytes have been sent to the client. -/
def sent (w : Host) (bytes : Text) : Host := { w.tick with responses := w.responses ++ [bytes] }

@[simp] theorem sent_files (bytes : Text) : (w.sent bytes).files = w.files := rfl

/-- The host after a response on a FIFO that is opened for it. -/
def responded (w : Host) (bytes : Text) : Host :=
  { w with
    calls := w.calls + 2
    nextFd := w.nextFd + 1
    opened := update w.opened w.nextFd none
    responses := w.responses ++ [bytes] }

@[simp] theorem responded_files (bytes : Text) : (w.responded bytes).files = w.files := rfl

/-- The host after a call that has opened a descriptor. -/
def opening (w : Host) (file : Opened) : Host :=
  { w with
    calls := w.calls + 1
    opened := update w.opened w.nextFd (some file)
    nextFd := w.nextFd + 1 }

@[simp] theorem opening_files (file : Opened) : (w.opening file).files = w.files := rfl

theorem answer_openFifo (h : w.Calm) {mode : WriteMode} :
    w.answer (.openWrite .clientFifo mode) = some (some w.nextFd, w.opening .fifo) := by
  rw [answer, openWrite, h.succeeds]
  rfl

theorem Calm.write (h : w.Calm) (fd : ℕ) (bytes : Text) :
    w.write fd bytes = ((bytes.length : ℤ), w.tick.put fd bytes) := by
  rw [Host.write, h.moved]
  exact if_neg (by simp)

theorem put_fifo {fd : ℕ} {bytes : Text} (hfd : w.opened fd = some .fifo) :
    w.put fd bytes = { w with responses := w.responses ++ [bytes] } := by
  rw [put, hfd]

theorem answer_write_fifo (h : w.Calm) {fd : ℕ} {bytes : Text} (hfd : w.opened fd = some .fifo) :
    w.answer (.write fd bytes) = some ((bytes.length : ℤ), w.sent bytes) := by
  show some (w.write fd bytes) = _
  rw [h.write, put_fifo (w := w.tick) hfd]
  rfl

theorem runIn_openClient (h : w.Calm) {mode : WriteMode} {opened : List ℕ} :
    runIn answer (openClient mode opened) w
      = (some (.returned w.nextFd), w.opening .fifo) :=
  runIn_perform_bind (answer_openFifo h)

theorem runIn_sendBytes (h : w.Calm) {fd : ℕ} (hfd : w.opened fd = some .fifo) {bytes : Text}
    {opened : List ℕ} {unlinks : Bool} :
    runIn answer (sendBytes fd bytes opened unlinks) w = (some (.returned ()), w.sent bytes) := by
  refine (runIn_perform_bind (answer_write_fifo h hfd)).trans ?_
  have hn : ((bytes.length : ℕ) : ℤ) ≠ -1 := by omega
  rw [if_neg hn]
  rfl

/-- The host after a descriptor has been closed. -/
def closed (w : Host) (fd : ℕ) : Host := { w with opened := update w.opened fd none }

@[simp] theorem closed_files (fd : ℕ) : (w.closed fd).files = w.files := rfl

theorem answer_close {fd : ℕ} : w.answer (.close fd) = some ((), w.closed fd) := rfl

theorem runIn_respond (h : w.Calm) {response : String} {unlinks : Bool} :
    runIn answer (respond response unlinks) w
      = (some (.returned ()), w.responded (response.toList ++ [nul])) := by
  have hopened : (w.opening .fifo).Calm := h
  refine (runIn_bind_returned (runIn_openClient h)).trans ?_
  refine (runIn_bind_returned (runIn_sendBytes hopened (update_self _ _ _))).trans ?_
  have hclosed : update (update w.opened w.nextFd (some Opened.fifo)) w.nextFd none
      = update w.opened w.nextFd none := update_idem _ _ _
  unfold responded
  rw [← hclosed]
  rfl

/-! ## The locks -/

/-- The host after an entry of the table has been changed. -/
def locked (w : Host) (entry : ℕ) (file : Sync.File) : Host :=
  { w with sd := { w.sd with files := update w.sd.files entry file } }

@[simp] theorem locked_files (entry : ℕ) (file : Sync.File) :
    (w.locked entry file).files = w.files :=
  rfl

theorem answer_lock {op : LockOp} {entry : ℕ} {g : Sync.File}
    (h : op.apply (w.sd.files entry) = some g) :
    w.answer (.lock op entry) = some ((), w.locked entry g) := by
  show (op.apply (w.sd.files entry)).map _ = _
  rw [h]
  rfl

/-- The host with another table. -/
def withTable (w : Host) (sd : Shared) : Host := { w with sd := sd }

@[simp] theorem withTable_files (sd : Shared) : (w.withTable sd).files = w.files := rfl

/-- A section that is left gives back the table. -/
theorem answer_exit {role : Role} {entry : ℕ} {g : Sync.File}
    (h : (enter role).apply (w.sd.files entry) = some g) {w' : Host}
    (hsd : w'.sd = (w.locked entry g).sd) :
    w'.answer (.lock (exit role) entry) = some ((), w'.withTable w.sd) := by
  have hexit : (exit role).apply (w'.sd.files entry) = some (w.sd.files entry) := by
    rw [hsd, show (w.locked entry g).sd.files entry = g from update_self _ _ _]
    exact exit_of_enter h
  have hback : update (w.locked entry g).sd.files entry (w.sd.files entry) = w.sd.files := by
    show update (update w.sd.files entry g) entry (w.sd.files entry) = _
    rw [update_idem, update_eq_self]
  show ((exit role).apply (w'.sd.files entry)).map _ = _
  rw [hexit, Option.map_some, hsd, hback]
  rfl

/-! ## The entry of a file -/

/-- The handler of a file need not wait for a role: the file has an entry where it can be taken, or
    there is room for one. -/
structure Ready (w : Host) (role : Role) (name : Text) : Prop where
  calm : w.Calm
  room : getFile w.sd name = none → w.sd.size ≠ w.sd.capacity
  free : ∀ entry, getFile w.sd name = some entry →
    ∃ g, (enter role).apply (w.sd.files entry) = some g

/-- The index of the entry that a handler works with. -/
def index (w : Host) (name : Text) : ℕ := (getFile w.sd name).getD w.sd.size

/-- The host once the file has its entry. -/
def located (w : Host) (name : Text) : Host :=
  if getFile w.sd name = none then { w.tick with sd := (initFile name true true w.sd).2 } else w

@[simp] theorem located_files (name : Text) : (w.located name).files = w.files := by
  unfold located
  split <;> rfl

@[simp] theorem located_responses (name : Text) : (w.located name).responses = w.responses := by
  unfold located
  split <;> rfl

theorem Calm.located (h : w.Calm) (name : Text) : (w.located name).Calm := by
  unfold Host.located
  split
  · exact h
  · exact h

theorem initFile_room {sd : Shared} (h : sd.size ≠ sd.capacity) (name : Text) :
    Sync.initFile name true true sd = (some sd.size, { sd with
      files := update sd.files sd.size
        { sd.files sd.size with name := name, readerMutex := 1, writerMutex := 1, readerCount := 0 }
      size := sd.size + 1 }) := by
  rw [Sync.initFile, if_neg h]
  rfl

theorem Ready.runIn_fileEntry {role : Role} {name : Text} (h : w.Ready role name) :
    runIn answer (fileEntry name) w = (some (.returned (w.index name)), w.located name) := by
  have hget : w.answer (.getFile name) = some (getFile w.sd name, w) := rfl
  refine (runIn_perform_bind hget).trans ?_
  unfold located index
  cases hfound : getFile w.sd name with
  | some entry => rfl
  | none =>
      have hinit : w.answer (.initFile name)
          = some (some w.sd.size, { w.tick with sd := (initFile name true true w.sd).2 }) := by
        rw [answer, h.calm.succeeds, initFile_room (h.room hfound)]
        rfl
      exact runIn_perform_bind hinit

theorem Ready.enter {role : Role} {name : Text} (h : w.Ready role name) :
    ∃ g, (Server.enter role).apply ((w.located name).sd.files (w.index name)) = some g := by
  unfold located index
  cases hfound : getFile w.sd name with
  | some entry => exact h.free entry hfound
  | none =>
      refine enter_of_idle role ?_
      show Idle ((initFile name true true w.sd).2.files w.sd.size)
      rw [initFile_room (h.room hfound)]
      show Idle (update w.sd.files w.sd.size _ w.sd.size)
      rw [update_self]
      exact ⟨rfl, rfl, rfl⟩

/-- A single file. -/
def oneFile (name content : Text) (path : Path) : Option Text :=
  if path = .file name then some content else none

/-- A host with these files, whose table is empty. -/
def fresh (files : Path → Option Text) : Host where
  sd := ⟨1, 0, fun _ => ⟨[], 0, 0, 0⟩⟩
  files := files
  serverNames := []
  command := []
  opened := fun _ => none
  nextFd := 3
  responses := []
  fate := fun _ => none
  calls := 0

theorem ready_fresh (files : Path → Option Text) (role : Role) (name : Text) :
    (fresh files).Ready role name where
  calm := fun _ => rfl
  room := fun _ => Nat.zero_ne_one
  free := fun _ h => by cases h

theorem fresh_oneFile (name content : Text) :
    (fresh (oneFile name content)).files (.file name) = some content := if_pos rfl

/-! ## Files -/

@[simp] theorem setFile_files (path : Path) (content : Text) :
    (w.setFile path content).files = update w.files path (some content) := rfl

theorem answer_openRead (h : w.Calm) {name content : Text}
    (hcontent : w.files (.file name) = some content) :
    w.answer (.openRead (.file name))
      = some (some w.nextFd, w.opening (.file (.file name) (some 0))) := by
  show some (w.openRead (.file name)) = _
  unfold openRead
  rw [h.succeeds]
  show some (if (w.files (.file name)).isSome then _ else _) = _
  rw [hcontent]
  rfl

theorem answer_openWrite (h : w.Calm) {name content : Text} {mode : WriteMode}
    (hcontent : mode.onOpen (w.files (.file name)) = some content) :
    w.answer (.openWrite (.file name) mode)
      = some (some w.nextFd, (w.setFile (.file name) content).opening
          (.file (.file name) (if mode = .append ∨ mode = .appendCreate then none else some 0))) := by
  show some (w.openWrite (.file name) mode) = _
  unfold openWrite
  simp only [h.succeeds, hcontent]
  rfl

/-- The host after some bytes have been written behind the end of a file. -/
def appended (w : Host) (path : Path) (bytes : Text) : Host :=
  w.tick.setFile path ((w.files path).getD [] ++ bytes)

@[simp] theorem appended_files (path : Path) (bytes : Text) : (w.appended path bytes).files
    = update w.files path (some ((w.files path).getD [] ++ bytes)) := rfl

theorem answer_write_end (h : w.Calm) {path : Path} {fd : ℕ} {bytes : Text}
    (hfd : w.opened fd = some (.file path none)) :
    w.answer (.write fd bytes) = some ((bytes.length : ℤ), w.appended path bytes) := by
  have hsame : update w.opened fd (some (.file path none)) = w.opened := by
    rw [← hfd, update_eq_self]
  show some (w.write fd bytes) = _
  rw [h.write, put, show w.tick.opened fd = _ from hfd]
  show some (_, { w.appended path bytes with
    opened := update w.opened fd (some (.file path none)) }) = _
  rw [hsame]
  rfl

theorem answer_tmpfile (h : w.Calm) :
    w.answer .tmpfile = some (some w.nextFd, w.opening .temp) := by
  rw [answer, h.succeeds]
  rfl

theorem text_start {path : Path} {fd : ℕ} {content : Text}
    (hfd : w.opened fd = some (.file path (some 0))) (hcontent : w.files path = some content) :
    w.text fd = content := by
  rw [text, hfd]
  show ((w.files path).getD []).drop 0 = content
  rw [hcontent]
  rfl

theorem answer_stream (h : w.Calm) {path : Path} {fd : ℕ} {content : Text}
    (hfd : w.opened fd = some (.file path (some 0))) (hcontent : w.files path = some content) :
    w.answer (.stream fd) = some (content, w.tick) := by
  show some ((w.moved (w.text fd)).1, w.tick) = _
  rw [h.moved, text_start hfd hcontent]

/-- Reading a file character by character. -/
theorem answer_readChars (h : w.Calm) {path : Path} {fd : ℕ} {content : Text}
    (hfd : w.opened fd = some (.file path (some 0))) (hcontent : w.files path = some content) :
    ∃ result : Reads 1, result.chunks.flatten = content ∧
      w.answer (.reads fd 1) = some (result, w.tick) := by
  refine ⟨w.reads fd 1, ?_, rfl⟩
  show (chunksFrom 1 [] (w.moved (w.text fd)).1).flatten = content
  rw [chunksFrom_flatten, h.moved, text_start hfd hcontent]
  rfl

theorem answer_fputs_temp {fd : ℕ} {bytes : Text} (hfd : w.opened fd = some .temp) :
    w.answer (.fputs fd bytes) = some ((), w.tick) := by
  show some ((), w.tick.put fd _) = _
  rw [put, show w.tick.opened fd = _ from hfd]

/-- The host after an empty file has been filled. -/
def filled (w : Host) (path : Path) (fd : ℕ) (bytes : Text) : Host :=
  { w.tick.setFile path bytes with
    opened := update w.opened fd (some (.file path (some bytes.length))) }

@[simp] theorem filled_files (path : Path) (fd : ℕ) (bytes : Text) :
    (w.filled path fd bytes).files = update w.files path (some bytes) := rfl

theorem answer_fputs_start (h : w.Calm) {path : Path} {fd : ℕ} {bytes : Text}
    (hfd : w.opened fd = some (.file path (some 0))) (hempty : w.files path = some []) :
    w.answer (.fputs fd bytes) = some ((), w.filled path fd bytes) := by
  show some ((), w.tick.put fd _) = _
  rw [h.moved, put, show w.tick.opened fd = _ from hfd]
  show some ((), { w.tick.setFile path
      (((w.files path).getD []).take 0 ++ overwrite (((w.files path).getD []).drop 0) bytes) with
    opened := update w.opened fd (some (.file path (some (0 + bytes.length)))) }) = _
  rw [hempty, Nat.zero_add]
  simp [overwrite, filled]

end Host

/-! ## writeT -/

section WriteT

variable {w : Host} {fileName : Text} {entry : ℕ} {g : Sync.File}

theorem returns_appendString (h : w.Calm)
    (hlock : (enter .writer).apply (w.sd.files entry) = some g) (fileName string : Text) :
    Returns Host.answer (appendString fileName entry string) w fun _ w' =>
      w'.files = update w.files (.file fileName)
          (some ((w.files (.file fileName)).getD [] ++ string ++ ['\n'])) ∧
        w'.sd = w.sd ∧
        w'.responses = w.responses ++ ["Succesfully written into the file.\n".toList ++ [nul]] := by
  have hn (bytes : Text) : ((bytes.length : ℕ) : ℤ) ≠ -1 := by omega
  refine returns_perform_bind (Host.answer_lock hlock) ?_
  refine returns_perform_bind (Host.answer_openWrite (by exact h) rfl) ?_
  refine returns_perform_bind (Host.answer_write_end (by exact h) (update_self _ _ _)) ?_
  rw [if_neg (hn _)]
  refine returns_perform_bind (Host.answer_write_end (by exact h) (update_self _ _ _)) ?_
  rw [if_neg (hn _)]
  refine returns_perform_bind Host.answer_close ?_
  refine returns_perform_bind (Host.answer_exit hlock rfl) ?_
  refine returns_bind ⟨_, _, Host.runIn_openClient (by exact h), ?_⟩
  refine returns_bind ⟨_, _, Host.runIn_sendBytes (by exact h) (update_self _ _ _), ?_⟩
  refine returns_perform Host.answer_close ⟨?_, rfl, rfl⟩
  simp

theorem returns_writeBack (h : w.Calm)
    (hlock : (enter .writer).apply (w.sd.files entry) = some g) (fileName temp : Text)
    (tempFd : ℕ) :
    Returns Host.answer (writeBack fileName entry tempFd temp) w fun _ w' =>
      w'.files = update w.files (.file fileName) (some (copyLines temp)) ∧ w'.sd = w.sd ∧
        w'.responses = w.responses ++ ["Succesfully written into the file.\n".toList ++ [nul]] := by
  refine returns_perform_bind (Host.answer_lock hlock) ?_
  refine returns_perform_bind (Host.answer_openWrite (by exact h) rfl) ?_
  refine returns_perform_bind (Host.answer_fputs_start (by exact h) (update_self _ _ _)
    (update_self _ _ _)) ?_
  refine returns_perform_bind Host.answer_close ?_
  refine returns_perform_bind (Host.answer_exit hlock rfl) ?_
  refine returns_perform_bind Host.answer_close ?_
  refine ⟨_, _, Host.runIn_respond (by exact h), ?_, rfl, rfl⟩
  simp

/-- What an edit of a line leaves behind: the new content and a success, or the file as it was and
    an error. -/
def Edited (w : Host) (fileName : Text) (edit : Text × Bool) (w' : Host) : Prop :=
  if edit.2 then
    w'.files = update w.files (.file fileName) (some edit.1) ∧
      w'.responses = w.responses ++ ["Succesfully written into the file.\n".toList ++ [nul]]
  else
    w'.files = w.files ∧ w'.responses
      = w.responses ++ ["Line number exceeds the number of lines in the file.\n".toList ++ [nul]]

theorem returns_replaceString (h : w.Calm)
    (hlock : ∀ role, ∃ g, (enter role).apply (w.sd.files entry) = some g) {content : Text}
    (hcontent : w.files (.file fileName) = some content) (lineNumber : ℤ) (string : Text) :
    Returns Host.answer (replaceString fileName entry lineNumber (some string)) w fun _ w' =>
      Edited w fileName (editLines lineNumber string content) w' ∧ w'.sd = w.sd := by
  obtain ⟨g, hreader⟩ := hlock .reader
  obtain ⟨g', hwriter⟩ := hlock .writer
  refine returns_perform_bind (Host.answer_lock hreader) ?_
  refine returns_perform_bind (Host.answer_openRead (by exact h) hcontent) ?_
  refine returns_perform_bind (Host.answer_tmpfile (by exact h)) ?_
  have hfile : update (update w.opened w.nextFd (some (Opened.file (.file fileName) (some 0))))
      (w.nextFd + 1) (some Opened.temp) w.nextFd = some (.file (.file fileName) (some 0)) := by
    rw [update_of_ne (by omega), update_self]
  refine returns_perform_bind (Host.answer_stream (by exact h) hfile hcontent) ?_
  dsimp only
  have hcopy := copyLines_editLines lineNumber string content
  rcases hedit : editLines lineNumber string content with ⟨temp, placed⟩
  rw [hedit] at hcopy
  simp only [Option.getD_some, hedit, Option.isNone_some, Bool.and_false, Bool.false_eq_true,
    if_false]
  refine returns_perform_bind (Host.answer_fputs_temp (update_self _ _ _)) ?_
  refine returns_perform_bind Host.answer_close ?_
  refine returns_perform_bind (Host.answer_exit hreader rfl) ?_
  cases placed with
  | true =>
      refine (returns_writeBack (by exact h) (by exact hwriter) fileName temp _).mono ?_
      rintro - w' ⟨hfiles, hsd, hresponses⟩
      rw [hcopy] at hfiles
      exact ⟨⟨hfiles, hresponses⟩, hsd⟩
  | false =>
      refine returns_perform_bind Host.answer_close ?_
      refine ⟨_, _, Host.runIn_respond (by exact h), ⟨?_, rfl⟩, rfl⟩
      rfl

end WriteT

/-! ## Commands -/

theorem runIn_files {α : Type} (p : Handler α) (w : Host) :
    runIn Host.answerRequest (files p) w = runIn Host.answer p w := by
  refine runIn_lift (f := RequestCall.file) (fun s c => ?_)
  show (s.answer c).map _ = s.answer c
  cases s.answer c <;> rfl

/-- The commands without arguments are no commands on files. -/
theorem ne_of_fileCommand {command s : Text} {name : CommandName}
    (h : fileCommand (splitCommand command).1 = some name)
    (hs : fileCommand (splitCommand s).1 = none) : command ≠ s := by
  rintro rfl
  rw [hs] at h
  cases h

/-- A command on files is passed to its handler. -/
theorem dispatch_file {command : Text} {name : CommandName} (locals : Locals)
    (h : fileCommand (splitCommand command).1 = some name) :
    dispatch command locals = (do
      files (runCommand name (splitCommand command).2 locals)
      pure .again) := by
  have hhelp : helpResponse command = none := by
    unfold helpResponse
    rw [if_neg (ne_of_fileCommand h (by decide)), if_neg (ne_of_fileCommand h (by decide)),
      if_neg (ne_of_fileCommand h (by decide)), if_neg (ne_of_fileCommand h (by decide)),
      if_neg (ne_of_fileCommand h (by decide)), if_neg (ne_of_fileCommand h (by decide)),
      if_neg (ne_of_fileCommand h (by decide))]
  unfold dispatch
  rw [hhelp]
  dsimp only
  rw [if_neg (ne_of_fileCommand h (by decide)), if_neg (ne_of_fileCommand h (by decide)),
    if_neg (ne_of_fileCommand h (by decide))]
  unfold runNamed
  rw [h]

/-- What holds at the end of a command on files holds at the end of its handler. -/
theorem returns_dispatch {command : Text} {name : CommandName} {locals : Locals} {w : Host}
    {Q : Host → Prop} (h : fileCommand (splitCommand command).1 = some name)
    (hrun : Returns Host.answer (runCommand name (splitCommand command).2 locals) w
      fun _ w' => Q w') :
    Returns Host.answerRequest (dispatch command locals) w fun _ w' => Q w' := by
  obtain ⟨a, w', hend, hQ⟩ := hrun
  rw [dispatch_file locals h]
  exact returns_bind ⟨a, w', (runIn_files _ w).trans hend, returns_pure hQ⟩

end SystemProgramming.Server
