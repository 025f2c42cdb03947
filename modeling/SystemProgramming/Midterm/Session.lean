import SystemProgramming.Midterm.StaleMemory
import SystemProgramming.Midterm.Store

set_option autoImplicit false

/-! # Sessions of a client

A handler whose client is alone with the files serves what `fileStore` serves, command after
command, whatever the buffers of its passes hold. What is behind it is the table: no command leaves
an entry in which a role cannot be taken, although `readF` leaves a line with one exit too many. -/

namespace SystemProgramming.Server

open Function Prog Sync Handler

/-! ## The table between two commands -/

/-- Nobody has a role; `reader_count` may be too low. -/
def Unheld (f : File) : Prop := f.readerMutex = 1 ∧ f.writerMutex = 1 ∧ f.readerCount ≤ 0

theorem Unheld.enter {f : File} (h : Unheld f) (role : Role) :
    ∃ g, (Server.enter role).apply f = some g := by
  obtain ⟨hreader, hwriter, -⟩ := h
  cases role with
  | reader =>
      refine ⟨_, readerEnter_eq_some.2 ⟨0, if f.readerCount + 1 = 1 then 0 else 1, hreader, ?_, rfl⟩⟩
      rw [hwriter]
      split <;> rfl
  | writer =>
      show ∃ g, Sync.writerEnter f = some g
      rw [Sync.writerEnter, hreader, hwriter]
      exact ⟨_, rfl⟩

/-- An exit too many only lowers the count. -/
theorem Unheld.readerExit {f : File} (h : Unheld f) :
    ∃ g, (exit .reader).apply f = some g ∧ Unheld g ∧ g.name = f.name := by
  obtain ⟨hreader, hwriter, hcount⟩ := h
  have hexit : (exit .reader).apply f = some { f with readerCount := f.readerCount - 1 } := by
    show Sync.readerExit f = _
    have hne : f.readerCount - 1 ≠ 0 := by omega
    rw [Sync.readerExit, hreader]
    simp [semWait, semPost, hne, ← hreader]
  exact ⟨_, hexit, ⟨hreader, hwriter, by dsimp only; omega⟩, rfl⟩

/-- What a command on a file makes of the table: it may have entered the file. -/
structure TableKept (fileName : Text) (sd sd' : Shared) : Prop where
  capacity : sd'.capacity = sd.capacity
  unheld : (∀ entry < sd.size, Unheld (sd.files entry)) →
    ∀ entry < sd'.size, Unheld (sd'.files entry)
  names : sd'.names = sd.names ∨ fileName ∉ sd.names ∧ sd'.names = sd.names ++ [fileName]

theorem TableKept.refl (fileName : Text) (sd : Shared) : TableKept fileName sd sd :=
  ⟨rfl, id, .inl rfl⟩

theorem length_names (sd : Shared) : sd.names.length = sd.size := by simp [Shared.names]

/-- The handler has located its file, and leaves the entry so. -/
theorem tableKept_located {w : Host} {role : Role} {fileName : Text}
    (hready : w.Ready role fileName) {f : File} (hf : Unheld f) (hname : f.name = fileName) :
    TableKept fileName w.sd ((w.located fileName).locked (w.index fileName) f).sd := by
  unfold Host.located Host.index
  cases hfound : getFile w.sd fileName with
  | some entry =>
      obtain ⟨hentry, hentryName⟩ := getFile_eq_some hfound
      rw [if_neg (Option.some_ne_none entry), Option.getD_some]
      refine ⟨rfl, fun hall i hi => ?_, .inl ?_⟩
      · show Unheld (update w.sd.files entry f i)
        by_cases hie : i = entry
        · rw [hie, update_self]
          exact hf
        · rw [update_of_ne hie]
          exact hall i hi
      · refine List.map_congr_left fun i _ => ?_
        show (update w.sd.files entry f i).name = _
        by_cases hie : i = entry
        · rw [hie, update_self, hname, hentryName]
        · rw [update_of_ne hie]
  | none =>
      have hroom := Host.initFile_room (hready.room hfound) fileName
      rw [if_pos rfl, Option.getD_none]
      have hsize : ((Host.locked { w.tick with sd := (initFile fileName true true w.sd).2 }
          w.sd.size f).sd).size = w.sd.size + 1 := by
        show (initFile fileName true true w.sd).2.size = _
        rw [hroom]
      have hfiles : ∀ i < w.sd.size, ((Host.locked
          { w.tick with sd := (initFile fileName true true w.sd).2 } w.sd.size f).sd).files i
            = w.sd.files i := by
        intro i hi
        show update (initFile fileName true true w.sd).2.files w.sd.size f i = _
        rw [update_of_ne hi.ne, hroom]
        exact update_of_ne hi.ne _ _
      have hnew : ((Host.locked { w.tick with sd := (initFile fileName true true w.sd).2 }
          w.sd.size f).sd).files w.sd.size = f := update_self _ _ _
      refine ⟨?_, fun hall i hi => ?_, .inr ⟨getFile_eq_none.1 hfound, ?_⟩⟩
      · show (initFile fileName true true w.sd).2.capacity = _
        rw [hroom]
      · rw [hsize] at hi
        rcases Nat.lt_succ_iff_lt_or_eq.1 hi with hi | rfl
        · rw [hfiles i hi]
          exact hall i hi
        · rw [hnew]
          exact hf
      · rw [names_entered hsize hfiles, hnew, hname]

/-- No command has to be given up: the entries are not held, and there is room for the files. -/
structure Host.Attends (w : Host) (names : List Text) : Prop where
  calm : w.Calm
  unheld : ∀ entry < w.sd.size, Unheld (w.sd.files entry)
  room : (names.filter (· ∉ w.sd.names)).length + w.sd.size ≤ w.sd.capacity

section Attends

variable {w w' : Host} {names : List Text} {fileName : Text}

theorem Host.Attends.ready (h : w.Attends names) (hname : fileName ∈ names) (role : Role) :
    w.Ready role fileName := by
  refine ⟨h.calm, fun hnone hfull => ?_, fun entry hentry => ?_⟩
  · have hmem : fileName ∈ names.filter (· ∉ w.sd.names) :=
      List.mem_filter.2 ⟨hname, by simpa using getFile_eq_none.1 hnone⟩
    have hpos := List.length_pos_of_mem hmem
    have := h.room
    omega
  · exact (h.unheld entry (getFile_eq_some hentry).1).enter role

/-- The entry of the file, once it is located. -/
theorem Host.Attends.entry (h : w.Attends names) (hname : fileName ∈ names) :
    Unheld ((w.located fileName).sd.files (w.index fileName)) ∧
      ((w.located fileName).sd.files (w.index fileName)).name = fileName := by
  unfold Host.located Host.index
  cases hfound : getFile w.sd fileName with
  | some entry =>
      obtain ⟨hentry, hentryName⟩ := getFile_eq_some hfound
      rw [if_neg (Option.some_ne_none entry), Option.getD_some]
      exact ⟨h.unheld entry hentry, hentryName⟩
  | none =>
      have hroom := Host.initFile_room ((h.ready hname .reader).room hfound) fileName
      rw [if_pos rfl, Option.getD_none]
      show Unheld ((Sync.initFile fileName true true w.sd).2.files w.sd.size) ∧ _ = fileName
      rw [hroom]
      dsimp only
      rw [update_self]
      exact ⟨⟨rfl, rfl, Int.le_refl 0⟩, rfl⟩

theorem Host.Attends.kept (h : w.Attends names) (hname : fileName ∈ names) (hcalm : w'.Calm)
    (hkept : TableKept fileName w.sd w'.sd) : w'.Attends names := by
  refine ⟨hcalm, hkept.unheld h.unheld, ?_⟩
  have hroom := h.room
  rw [← length_names] at hroom ⊢
  rw [hkept.capacity]
  rcases hkept.names with heq | ⟨hnew, heq⟩
  · rwa [heq]
  · have hlt : (names.filter (· ∉ w.sd.names ++ [fileName])).length
        < (names.filter (· ∉ w.sd.names)).length := by
      have hsplit : names.filter (· ∉ w.sd.names ++ [fileName])
          = (names.filter (· ∉ w.sd.names)).filter (· ≠ fileName) := by
        rw [List.filter_filter]
        refine List.filter_congr fun name _ => ?_
        simp [and_comm]
      rw [hsplit]
      exact List.length_filter_lt_length_iff_exists.2
        ⟨fileName, List.mem_filter.2 ⟨hname, by simpa using hnew⟩, by simp⟩
    rw [heq, List.length_append, List.length_singleton]
    omega

/-- The handler leaves the entry as it was. -/
theorem Host.Attends.tableKept (h : w.Attends names) (hname : fileName ∈ names) :
    TableKept fileName w.sd (w.located fileName).sd := by
  obtain ⟨hf, hfileName⟩ := h.entry hname
  have hkept := tableKept_located (h.ready hname .reader) hf hfileName
  have hsame : ((w.located fileName).locked (w.index fileName)
      ((w.located fileName).sd.files (w.index fileName))).sd = (w.located fileName).sd := by
    rw [Host.locked, update_eq_self]
  rwa [hsame] at hkept

end Attends

/-- What a command leaves that is served. -/
structure Served (w : Host) (fileName : Text) (files : Path → Option Text) (answer : Text)
    (w' : Host) : Prop where
  files : w'.files = files
  sent : ∃ sent, w'.responses = w.responses ++ sent ∧ sent.flatten = answer
  table : TableKept fileName w.sd w'.sd

theorem Host.located_opened (w : Host) (fileName : Text) :
    (w.located fileName).opened = w.opened ∧ (w.located fileName).nextFd = w.nextFd := by
  unfold Host.located
  split <;> exact ⟨rfl, rfl⟩

/-! ## Opening what is not there -/

section Calls

variable {w : Host} {path : Path}

theorem Host.answer_openRead_none (h : w.Calm) (hpath : path ≠ .clientFifo)
    (hmissing : w.files path = none) : w.answer (.openRead path) = some (none, w.tick) := by
  show some (w.openRead path) = _
  unfold Host.openRead
  rw [h.succeeds]
  cases path with
  | clientFifo => exact absurd rfl hpath
  | _ =>
      simp only [Bool.true_eq_false, if_false, hmissing]
      rfl

theorem Host.answer_openRead_some (h : w.Calm) (hpath : path ≠ .clientFifo) {content : Text}
    (hcontent : w.files path = some content) :
    w.answer (.openRead path) = some (some w.nextFd, w.opening (.file path (some 0))) := by
  show some (w.openRead path) = _
  unfold Host.openRead
  rw [h.succeeds]
  cases path with
  | clientFifo => exact absurd rfl hpath
  | _ =>
      simp only [Bool.true_eq_false, if_false, hcontent]
      rfl

/-- A file that is made. -/
theorem Host.answer_openWrite_new (h : w.Calm) (hpath : path ≠ .clientFifo) {mode : WriteMode}
    (hmode : mode = .create ∨ mode = .exclusive) (hmissing : w.files path = none) :
    w.answer (.openWrite path mode)
      = some (some w.nextFd, (w.setFile path []).opening (.file path (some 0))) := by
  show some (w.openWrite path mode) = _
  unfold Host.openWrite
  rw [h.succeeds]
  cases path with
  | clientFifo => exact absurd rfl hpath
  | _ => rcases hmode with rfl | rfl <;> simp only [WriteMode.onOpen, hmissing] <;> rfl

end Calls

/-! ## writeT -/

section Commands

variable {w : Host} {names : List Text} {fileName rest : Text} {locals : Locals}

theorem served_writeT_append (h : w.Attends names) (hname : fileName ∈ names) {string : Text}
    (hargs : writeTArgs rest locals = some ⟨fileName, -1, some string⟩) :
    Returns Host.answer (writeT rest locals) w fun _ w' =>
      Served w fileName (update w.files (.file fileName)
        (some ((w.files (.file fileName)).getD [] ++ string ++ ['\n'])))
        (reply "Succesfully written into the file.\n") w' := by
  obtain ⟨g, hlock⟩ := (h.ready hname .writer).enter
  unfold writeT
  rw [hargs]
  refine returns_bind ⟨_, _, (h.ready hname .writer).runIn_fileEntry, ?_⟩
  refine (returns_appendString (h.calm.located _) hlock _ _).mono ?_
  rintro - w' ⟨hfiles, hsd, hresponses⟩
  rw [Host.located_files] at hfiles
  rw [Host.located_responses] at hresponses
  exact ⟨hfiles, ⟨_, hresponses, List.flatten_singleton⟩, by rw [hsd]; exact h.tableKept hname⟩

theorem served_writeT_missing (h : w.Attends names) (hname : fileName ∈ names) {lineNumber : ℤ}
    {string : Option Text} (hnumber : lineNumber ≠ -1)
    (hargs : writeTArgs rest locals = some ⟨fileName, lineNumber, string⟩)
    (hmissing : w.files (.file fileName) = none) :
    Returns Host.answer (writeT rest locals) w fun _ w' =>
      Served w fileName w.files (reply "Error opening file to write.\n") w' := by
  obtain ⟨g, hlock⟩ := (h.ready hname .reader).enter
  have hcalm := h.calm.located fileName
  unfold writeT
  rw [hargs]
  refine (returns_bind_iff (h.ready hname .reader).runIn_fileEntry).2 ?_
  rw [if_neg hnumber]
  refine returns_perform_bind (Host.answer_lock hlock) ?_
  refine returns_perform_bind (Host.answer_openRead_none (by exact hcalm) nofun
    (by rwa [Host.locked_files, Host.located_files])) ?_
  refine returns_bind ⟨_, _, Host.runIn_respond (by exact hcalm), ?_⟩
  refine returns_perform (Host.answer_exit hlock rfl) ⟨?_, ⟨_, ?_, List.flatten_singleton⟩, ?_⟩
  · exact Host.located_files fileName
  · show (w.located fileName).responses ++ _ = _
    rw [Host.located_responses]
    rfl
  · exact h.tableKept hname

theorem served_writeT_line (h : w.Attends names) (hname : fileName ∈ names) {lineNumber : ℤ}
    {string content : Text} (hnumber : lineNumber ≠ -1)
    (hargs : writeTArgs rest locals = some ⟨fileName, lineNumber, some string⟩)
    (hcontent : w.files (.file fileName) = some content) :
    Returns Host.answer (writeT rest locals) w fun _ w' =>
      Edited w fileName (editLines lineNumber string content) w' ∧
        TableKept fileName w.sd w'.sd := by
  unfold writeT
  rw [hargs]
  refine (returns_bind_iff (h.ready hname .reader).runIn_fileEntry).2 ?_
  rw [if_neg hnumber]
  refine (returns_replaceString (h.calm.located fileName) (fun role => (h.ready hname role).enter)
    (by rwa [Host.located_files]) lineNumber string).mono ?_
  rintro - w' ⟨hedited, hsd⟩
  unfold Edited at hedited ⊢
  rw [Host.located_files, Host.located_responses] at hedited
  exact ⟨hedited, by rw [hsd]; exact h.tableKept hname⟩

end Commands

/-! ## readF -/

section Reads

variable {w : Host} {path : Path} {fd fileFd clientFd entry : ℕ} {content : Text}

/-- The results of the `read` calls on a file from its start. -/
theorem Host.answer_reads (h : w.Calm) {size : ℕ} (hsize : 0 < size)
    (hfile : w.opened fd = some (.file path (some 0))) (hcontent : w.files path = some content) :
    ∃ result : Reads size, result.chunks.flatten = content ∧ result.failed = false ∧
      w.answer (.reads fd size) = some (result, w.tick) := by
  refine ⟨w.reads fd size, ?_, ?_, rfl⟩
  · show (if _ : 0 < size then chunksFrom size [] (w.moved (w.text fd)).1 else []).flatten = content
    rw [dif_pos hsize, chunksFrom_flatten, h.moved, Host.text_start hfile hcontent]
    rfl
  · show (w.moved (w.text fd)).2 = false
    rw [h.moved]

theorem returns_sendChunks (h : w.Calm) (hclient : w.opened clientFd = some .fifo)
    (chunks : List Text) :
    Returns Host.answer (sendChunks fileFd clientFd chunks) w fun _ w' =>
      w'.responses = w.responses ++ chunks ∧ w'.files = w.files ∧ w'.sd = w.sd ∧ w'.Calm := by
  induction chunks generalizing w with
  | nil => exact returns_pure ⟨(List.append_nil _).symm, rfl, rfl, h⟩
  | cons chunk rest ih =>
      refine returns_bind ⟨_, _, Host.runIn_sendBytes h hclient, ?_⟩
      refine (ih (w := w.sent chunk) (by exact h) hclient).mono ?_
      rintro - w' ⟨hresponses, hfiles, hsd, hcalm⟩
      refine ⟨?_, hfiles, hsd, hcalm⟩
      rw [hresponses]
      show (w.responses ++ [chunk]) ++ rest = _
      rw [List.append_assoc, List.singleton_append]

/-- The file as a whole. -/
theorem returns_readWhole (h : w.Calm) {f g : File}
    (hfile : w.opened fileFd = some (.file path (some 0))) (hcontent : w.files path = some content)
    (hclient : w.opened clientFd = some .fifo)
    (hlock : (enter .reader).apply f = some g) (hentry : w.sd.files entry = g) :
    Returns Host.answer (readWhole fileFd clientFd entry) w fun _ w' =>
      (∃ sent, w'.responses = w.responses ++ sent ∧ sent.flatten = content) ∧
        w'.files = w.files ∧ w'.sd = (w.locked entry f).sd := by
  obtain ⟨result, hflat, hfailed, hreads⟩ := Host.answer_reads h (by decide : 0 < 4096) hfile
    hcontent
  refine returns_perform_bind hreads ?_
  refine returns_bind ((returns_sendChunks (w := w.tick) h hclient result.chunks).mono ?_)
  rintro - w' ⟨hresponses, hfiles, hsd, -⟩
  rw [hfailed, if_neg Bool.false_ne_true]
  refine returns_perform_bind Host.answer_close (returns_perform_bind Host.answer_close ?_)
  have hexit : (exit .reader).apply (w'.sd.files entry) = some f := by
    rw [hsd]
    show (exit .reader).apply (w.sd.files entry) = some f
    rw [hentry]
    exact exit_of_enter hlock
  refine returns_perform (Host.answer_lock (by exact hexit)) ⟨⟨_, hresponses, hflat⟩, hfiles, ?_⟩
  show { w'.sd with files := update w'.sd.files entry f } = _
  rw [hsd]
  rfl

/-- One line, when those before it fit. -/
theorem returns_readLine (h : w.Calm) {f g : File} (hf : Unheld f)
    (hfile : w.opened fileFd = some (.file path (some 0))) (hcontent : w.files path = some content)
    (hclient : w.opened clientFd = some .fifo)
    (hlock : (enter .reader).apply f = some g) (hentry : w.sd.files entry = g) {k : ℕ}
    (hk : 1 ≤ k) (hfits : LinesFit (k - 1) (lines content)) :
    Returns Host.answer (readLine fileFd clientFd entry k) w fun _ w' =>
      (∃ sent, w'.responses = w.responses ++ sent ∧ sent.flatten = lineAnswer k content) ∧
        w'.files = w.files ∧
        ∃ f', Unheld f' ∧ f'.name = f.name ∧ w'.sd = (w.locked entry f').sd := by
  have hleave : (exit .reader).apply (w.sd.files entry) = some f := by
    rw [hentry]
    exact exit_of_enter hlock
  have hend : ∀ w₁ : Host, w₁.sd = w.sd → w₁.files = w.files →
      Returns Host.answer
        (do
          close fileFd
          close clientFd
          lock .readerExit entry) w₁ fun _ w' => w'.responses = w₁.responses ∧
            w'.files = w.files ∧ w'.sd = (w.locked entry f).sd := by
    intro w₁ hsd hfiles
    refine returns_perform_bind Host.answer_close (returns_perform_bind Host.answer_close ?_)
    refine returns_perform (Host.answer_lock (by rw [← hsd] at hleave; exact hleave))
      ⟨rfl, hfiles, ?_⟩
    show { w₁.sd with files := update w₁.sd.files entry f } = _
    rw [hsd]
    rfl
  obtain ⟨result, hflat, -, hreads⟩ := Host.answer_reads h (by decide : 0 < 1) hfile hcontent
  refine returns_perform_bind hreads ?_
  rw [hflat, lineLoop_eq]
  have hscan := scanLines_end (k : ℤ) 1 List.not_mem_nil (Nat.zero_le _) content
  generalize scanLines (k : ℤ) 1 [] content = scan at hscan ⊢
  cases hscan with
  | overrun hfit => exact absurd hfits hfit
  | @found n l _ hnumber hcount hl =>
      have hanswer : lineAnswer k content = l := by
        rw [lineAnswer, if_neg (by omega), lineResponse, show k - 1 = n by omega, lines, hl,
          Option.getD_some]
      -- the lock is released here and at the end
      obtain ⟨g', hagain, hg', hname⟩ := hf.readerExit
      refine returns_bind (returns_bind ⟨_, _, Host.runIn_sendBytes (w := w.tick) h hclient, ?_⟩)
      refine returns_perform_bind (Host.answer_lock (by exact hleave)) (returns_pure ?_)
      show Returns _ (if _ then _ else _) _ _
      rw [if_neg (by omega)]
      refine returns_perform_bind Host.answer_close (returns_perform_bind Host.answer_close ?_)
      refine returns_perform (Host.answer_lock (g := g') ?_)
        ⟨⟨[l], rfl, ?_⟩, rfl, g', hg', hname, ?_⟩
      · rw [← hagain]
        exact congrArg _ (update_self _ _ _)
      · rw [hanswer, List.flatten_singleton]
      · exact congrArg (fun files => { w.sd with files := files }) (update_idem _ _ _)
  | passed _ hnumber =>
      have hlength := length_linesFrom_le [] content
      have hleft : ∀ w' : Host, w'.sd = (w.locked entry f).sd →
          ∃ f', Unheld f' ∧ f'.name = f.name ∧ w'.sd = (w.locked entry f').sd :=
        fun w' hsd => ⟨f, hf, rfl, hsd⟩
      show Returns _ (if _ then _ else _) _ _
      by_cases hmissing : 1 + (content.count '\n' : ℤ) < k
      · have hanswer : lineAnswer k content
            = reply "Line number exceeds the number of lines in the file.\n" := by
          rw [lineAnswer, if_neg (by omega), lineResponse, List.getElem?_eq_none
            (by show (linesFrom [] content).length ≤ _; omega), Option.getD_none]
          rfl
        rw [if_pos (.inl (by exact hmissing))]
        refine returns_bind ⟨_, _, Host.runIn_sendBytes (w := w.tick) h hclient, ?_⟩
        refine (hend (w.tick.sent _) rfl rfl).mono ?_
        rintro - w' ⟨hresponses, hfiles, hsd⟩
        refine ⟨⟨_, hresponses, ?_⟩, hfiles, hleft w' hsd⟩
        rw [hanswer, List.flatten_singleton]
        rfl
      · have hanswer : lineAnswer k content = [] := if_pos (by omega)
        rw [if_neg (by omega)]
        refine (hend w.tick rfl rfl).mono ?_
        rintro - w' ⟨hresponses, hfiles, hsd⟩
        refine ⟨⟨[], ?_, by rw [hanswer]; rfl⟩, hfiles, hleft w' hsd⟩
        rw [hresponses, List.append_nil]
        rfl

end Reads

section ReadF

variable {w : Host} {names : List Text} {fileName rest : Text} {locals : Locals}

/-- The number that `readF` uses. -/
def lineNumberOf (number : Option ℕ) : ℤ := number.elim (-1) (↑)

theorem served_readF_missing (h : w.Attends names) (hname : fileName ∈ names) {lineNumber : ℤ}
    (hargs : readFArgs rest locals = (true, fileName, lineNumber))
    (hmissing : w.files (.file fileName) = none) :
    Returns Host.answer (readF rest locals) w fun _ w' =>
      Served w fileName w.files (reply "Error opening file to read\n") w' := by
  obtain ⟨g, hlock⟩ := (h.ready hname .reader).enter
  have hcalm := h.calm.located fileName
  unfold readF
  rw [hargs]
  refine (returns_bind_iff (h.ready hname .reader).runIn_fileEntry).2 ?_
  refine returns_perform_bind (Host.answer_lock hlock) ?_
  refine returns_perform_bind (Host.answer_openRead_none (by exact hcalm) nofun
    (by rwa [Host.locked_files, Host.located_files])) ?_
  refine returns_bind ⟨_, _, Host.runIn_respond (by exact hcalm), ?_⟩
  refine returns_perform (Host.answer_exit hlock rfl) ⟨?_, ⟨_, ?_, List.flatten_singleton⟩, ?_⟩
  · exact Host.located_files fileName
  · show (w.located fileName).responses ++ _ = _
    rw [Host.located_responses]
    rfl
  · exact h.tableKept hname

/-- `readF` of a file that is there. -/
theorem served_readF (h : w.Attends names) (hname : fileName ∈ names) {number : Option ℕ}
    {content : Text} (hargs : readFArgs rest locals = (true, fileName, lineNumberOf number))
    (hcontent : w.files (.file fileName) = some content)
    (hfits : ∀ k ∈ number, 1 ≤ k ∧ LinesFit (k - 1) (lines content)) :
    Returns Host.answer (readF rest locals) w fun _ w' =>
      Served w fileName w.files (number.elim content fun k => lineAnswer k content) w' := by
  obtain ⟨g, hlock⟩ := (h.ready hname .reader).enter
  obtain ⟨hunheld, hentryName⟩ := h.entry hname
  have hcalm := h.calm.located fileName
  have hcontent' : (w.located fileName).files (.file fileName) = some content := by
    rw [Host.located_files, hcontent]
  unfold readF
  rw [hargs]
  refine (returns_bind_iff (h.ready hname .reader).runIn_fileEntry).2 ?_
  refine returns_perform_bind (Host.answer_lock hlock) ?_
  refine returns_perform_bind (Host.answer_openRead_some (by exact hcalm) nofun
    (by exact hcontent')) ?_
  refine (returns_bind_iff (Host.runIn_openClient (by exact hcalm))).2 ?_
  have hfile : update (update (w.located fileName).opened (w.located fileName).nextFd
      (some (.file (.file fileName) (some 0)))) ((w.located fileName).nextFd + 1)
      (some Opened.fifo) (w.located fileName).nextFd
        = some (.file (.file fileName) (some 0)) :=
    (update_of_ne (Nat.ne_of_lt (Nat.lt_succ_self _)) _ _).trans (update_self _ _ _)
  rw [if_neg (by simp)]
  cases number with
  | none =>
      rw [lineNumberOf, Option.elim_none, if_pos rfl, Option.elim_none]
      refine (returns_readWhole (by exact hcalm) hfile (by exact hcontent') (update_self _ _ _)
        hlock (update_self _ _ _)).mono ?_
      rintro - w' ⟨⟨sent, hsent, hflat⟩, hfiles, hsd⟩
      refine ⟨hfiles.trans (Host.located_files fileName), ⟨sent, ?_, hflat⟩, ?_⟩
      · rw [hsent]
        exact congrArg (· ++ sent) (Host.located_responses fileName)
      · have hback : w'.sd = ((w.located fileName).locked (w.index fileName)
            ((w.located fileName).sd.files (w.index fileName))).sd :=
          hsd.trans (congrArg (fun files => { (w.located fileName).sd with files := files })
            (update_idem _ _ _))
        rw [hback]
        exact tableKept_located (h.ready hname .reader) hunheld hentryName
  | some k =>
      obtain ⟨hk, hfits⟩ := hfits k rfl
      have hne : (k : ℤ) ≠ -1 := by omega
      rw [lineNumberOf, Option.elim_some, if_neg hne, Option.elim_some]
      refine (returns_readLine (by exact hcalm) hunheld hfile (by exact hcontent')
        (update_self _ _ _) hlock (update_self _ _ _) hk hfits).mono ?_
      rintro - w' ⟨⟨sent, hsent, hflat⟩, hfiles, f', hf', hfname, hsd⟩
      refine ⟨hfiles.trans (Host.located_files fileName), ⟨sent, ?_, hflat⟩, ?_⟩
      · rw [hsent]
        exact congrArg (· ++ sent) (Host.located_responses fileName)
      · have hback : w'.sd = ((w.located fileName).locked (w.index fileName) f').sd :=
          hsd.trans (congrArg (fun files => { (w.located fileName).sd with files := files })
            (update_idem _ _ _))
        rw [hback]
        exact tableKept_located (h.ready hname .reader) hf' (hfname.trans hentryName)

end ReadF

/-! ## upload and download -/

section Transfers

variable {w : Host} {names : List Text} {fileName rest : Text}

/-- The copy loop, into a file that holds what has been written so far. -/
theorem returns_transfer (h : w.Calm) {path : Path} {fromFd toFd entry : ℕ} {response : String}
    {release : LockOp} {written : Text}
    (hfd : w.opened toFd = some (.file path (some written.length)))
    (hfile : w.files path = some written) (total : ℕ) (chunks : List Text) :
    Returns Host.answer (transfer fromFd toFd entry response release total chunks) w fun r w' =>
      r = some (total + chunks.flatten.length) ∧
        w'.files = update w.files path (some (written ++ chunks.flatten)) ∧
        w'.responses = w.responses ∧ w'.sd = w.sd ∧ w'.Calm := by
  induction chunks generalizing w written total with
  | nil =>
      refine returns_pure ⟨rfl, ?_, rfl, rfl, h⟩
      rw [List.flatten_nil, List.append_nil, ← hfile, update_eq_self]
  | cons chunk rest ih =>
      have hput : w.tick.put toFd chunk = { w.tick.setFile path (written ++ chunk) with
          opened := update w.opened toFd (some (.file path (some (written ++ chunk).length))) } := by
        rw [Host.put, show w.tick.opened toFd = _ from hfd]
        dsimp only
        rw [show w.tick.files path = some written from hfile]
        simp [overwrite, Host.tick, Host.setFile]
      have hwrite : w.answer (.write toFd chunk)
          = some ((chunk.length : ℤ), w.tick.put toFd chunk) := by
        show some (w.write toFd chunk) = _
        rw [h.write]
      refine returns_perform_bind hwrite ?_
      rw [hput, if_neg (by simp)]
      refine (ih (by exact h) (update_self _ _ _) (update_self _ _ _) _).mono ?_
      rintro r w' ⟨hr, hfiles, hresponses, hsd, hcalm⟩
      refine ⟨?_, ?_, hresponses, hsd, hcalm⟩
      · rw [hr, List.flatten_cons, List.length_append, Nat.add_assoc]
      · rw [hfiles, List.flatten_cons, List.append_assoc]
        exact update_idem _ _ _

/-- A file is read from its start and copied into a new one. -/
theorem returns_copy (h : w.Calm) {source dest : Path} {fromFd toFd entry : ℕ} {response : String}
    {release : LockOp} {content : Text} (hfrom : w.opened fromFd = some (.file source (some 0)))
    (hto : w.opened toFd = some (.file dest (some 0))) (hcontent : w.files source = some content)
    (hempty : w.files dest = some []) {f : Option ℕ → Handler Unit} {Q : Unit → Host → Prop}
    (hf : ∀ w' : Host, w'.files = update w.files dest (some content) →
      w'.responses = w.responses → w'.sd = w.sd → w'.Calm →
      Returns Host.answer (f (some content.length)) w' Q) :
    Returns Host.answer
      (do
        let result ← reads fromFd 4096
        let r ← transfer fromFd toFd entry response release 0 result.chunks
        f r) w Q := by
  obtain ⟨result, hflat, -, hreads⟩ := Host.answer_reads h (by decide : 0 < 4096) hfrom hcontent
  refine returns_perform_bind hreads (returns_bind ?_)
  have hstart : w.tick.opened toFd = some (.file dest (some ([] : Text).length)) := hto
  refine (returns_transfer (w := w.tick) h hstart hempty 0 result.chunks).mono ?_
  rintro r w' ⟨hr, hfiles, hresponses, hsd, hcalm⟩
  rw [hflat, Nat.zero_add] at hr
  rw [hflat, List.nil_append] at hfiles
  rw [hr]
  exact hf w' hfiles hresponses hsd hcalm

theorem served_upload (h : w.Attends names) (hname : fileName ∈ names)
    (hrest : (strtok [' '] rest).1 = some fileName) {source dest : Option Text}
    (hsource : w.files (.file fileName) = source)
    (hdest : w.files (.serverFile fileName) = dest) :
    Returns Host.answer (upload rest) w fun _ w' =>
      Served w fileName
        (putFile w.files (.serverFile fileName) (transferAnswer .upload source dest
          "Error opening file for upload\n"
          "File already exists in the server's directory\n").1)
        (transferAnswer .upload source dest "Error opening file for upload\n"
          "File already exists in the server's directory\n").2 w' := by
  obtain ⟨g, hlock⟩ := (h.ready hname .reader).enter
  have hcalm := h.calm.located fileName
  have htable := h.tableKept hname
  have hresponses := Host.located_responses (w := w) fileName
  rw [← Host.located_files (w := w) fileName] at hsource hdest ⊢
  unfold upload
  rw [hrest]
  refine (returns_bind_iff (h.ready hname .reader).runIn_fileEntry).2 ?_
  generalize w.located fileName = w₁ at *
  refine returns_perform_bind (Host.answer_lock hlock) ?_
  cases source with
  | none =>
      refine returns_perform_bind (Host.answer_openRead_none (by exact hcalm) nofun hsource) ?_
      refine returns_bind ⟨_, _, Host.runIn_respond (by exact hcalm), ?_⟩
      refine returns_perform (Host.answer_exit hlock rfl)
        ⟨rfl, ⟨_, ?_, List.flatten_singleton⟩, htable⟩
      exact congrArg (· ++ _) hresponses
  | some source =>
      refine returns_perform_bind (Host.answer_openRead_some (by exact hcalm) nofun hsource) ?_
      have haccess : ((w₁.locked (w.index fileName) g).opening
          (.file (.file fileName) (some 0))).answer (.access (.serverFile fileName))
            = some (dest.isSome, (w₁.locked (w.index fileName) g).opening
                (.file (.file fileName) (some 0))) :=
        congrArg (fun d => some (d, _)) (congrArg Option.isSome hdest)
      refine returns_perform_bind haccess ?_
      cases dest with
      | some dest =>
          rw [Option.isSome_some, if_pos rfl]
          refine returns_bind ⟨_, _, Host.runIn_openClient (by exact hcalm), ?_⟩
          refine returns_bind ⟨_, _, Host.runIn_sendBytes (by exact hcalm) (update_self _ _ _), ?_⟩
          refine returns_perform_bind Host.answer_close (returns_perform_bind Host.answer_close ?_)
          refine returns_perform (Host.answer_exit hlock rfl)
            ⟨rfl, ⟨_, ?_, List.flatten_singleton⟩, htable⟩
          exact congrArg (· ++ _) hresponses
      | none =>
          have hnew : Path.serverFile fileName ≠ .clientFifo := nofun
          rw [Option.isSome_none, if_neg Bool.false_ne_true]
          refine returns_perform_bind (Host.answer_openWrite_new (by exact hcalm) hnew
            (.inr rfl) hdest) ?_
          refine returns_copy (by exact hcalm) ?_ (update_self _ _ _)
            ((update_of_ne ?_ _ _).trans hsource) (update_self _ _ _) ?_
          · exact (update_of_ne (Nat.ne_of_lt (Nat.lt_succ_self w₁.nextFd)) _ _).trans
              (update_self _ _ _)
          · simp
          intro w' hfiles hsent hsd hcalm'
          refine returns_perform_bind Host.answer_close ?_
          refine returns_perform_bind (Host.answer_exit hlock hsd) ?_
          refine returns_perform_bind Host.answer_close ?_
          refine ⟨_, _, Host.runIn_respond (by exact hcalm'), ?_,
            ⟨_, ?_, List.flatten_singleton⟩, htable⟩
          · exact hfiles.trans (update_idem _ _ _)
          · exact congrArg (· ++ _) (hsent.trans hresponses)

theorem served_download (h : w.Attends names) (hname : fileName ∈ names)
    (hrest : (strtok [' '] rest).1 = some fileName) {source dest : Option Text}
    (hsource : w.files (.serverFile fileName) = source)
    (hdest : w.files (.file fileName) = dest) :
    Returns Host.answer (download rest) w fun _ w' =>
      Served w fileName
        (putFile w.files (.file fileName) (transferAnswer .download source dest
          "File does not exist in the server's directory\n"
          "File already exists in the client's directory\n").1)
        (transferAnswer .download source dest "File does not exist in the server's directory\n"
          "File already exists in the client's directory\n").2 w' := by
  have haccess : ∀ w : Host, ∀ path,
      w.answer (.access path) = some ((w.files path).isSome, w) := fun _ _ => rfl
  unfold download
  rw [hrest]
  refine returns_perform_bind (haccess w (.serverFile fileName)) ?_
  rw [hsource]
  cases source with
  | none =>
      rw [Option.isSome_none, if_pos rfl]
      exact ⟨_, _, Host.runIn_respond h.calm, rfl, ⟨_, rfl, List.flatten_singleton⟩, .refl _ _⟩
  | some source =>
      rw [Option.isSome_some, if_neg Bool.false_ne_true.symm]
      have hfile : Path.serverFile fileName ≠ .clientFifo := nofun
      refine returns_perform_bind (Host.answer_openRead_some h.calm hfile hsource) ?_
      have hopened : (w.opening (.file (.serverFile fileName) (some 0))).Attends names :=
        ⟨h.calm, h.unheld, h.room⟩
      have hfd : (w.opening (.file (.serverFile fileName) (some 0))).opened w.nextFd
          = some (.file (.serverFile fileName) (some 0)) := update_self _ _ _
      have hnext : (w.opening (.file (.serverFile fileName) (some 0))).nextFd = w.nextFd + 1 := rfl
      have hkept : (w.opening (.file (.serverFile fileName) (some 0))).responses = w.responses ∧
          (w.opening (.file (.serverFile fileName) (some 0))).files = w.files ∧
          (w.opening (.file (.serverFile fileName) (some 0))).sd = w.sd := ⟨rfl, rfl, rfl⟩
      generalize w.opening (.file (.serverFile fileName) (some 0)) = w₁ at *
      obtain ⟨hresponses, hfiles, hsd⟩ := hkept
      refine returns_perform_bind (haccess w₁ (.file fileName)) ?_
      rw [hfiles, hdest]
      cases dest with
      | some dest =>
          rw [Option.isSome_some, if_pos rfl]
          refine ⟨_, _, Host.runIn_respond hopened.calm, hfiles, ⟨_, ?_, List.flatten_singleton⟩, ?_⟩
          · exact congrArg (· ++ _) hresponses
          · rw [show (w₁.responded _).sd = w.sd from hsd]
            exact .refl _ _
      | none =>
          rw [Option.isSome_none, if_neg Bool.false_ne_true]
          obtain ⟨g, hlock⟩ := (hopened.ready hname .writer).enter
          have htable := hopened.tableKept hname
          have hcalm := hopened.calm.located fileName
          have hopen := w₁.located_opened fileName
          have hsent := Host.located_responses (w := w₁) fileName
          have hsame := Host.located_files (w := w₁) fileName
          refine (returns_bind_iff (hopened.ready hname .writer).runIn_fileEntry).2 ?_
          generalize w₁.located fileName = w₂ at *
          obtain ⟨hopen, hnextFd⟩ := hopen
          rw [hsd] at htable
          rw [hfiles] at hsame
          rw [← hsame] at hsource hdest ⊢
          refine returns_perform_bind (Host.answer_lock hlock) ?_
          have hnew : Path.file fileName ≠ .clientFifo := nofun
          refine returns_perform_bind (Host.answer_openWrite_new (by exact hcalm) hnew
            (.inl rfl) hdest) ?_
          refine returns_copy (by exact hcalm) ?_ (update_self _ _ _)
            ((update_of_ne ?_ _ _).trans hsource) (update_self _ _ _) ?_
          · refine (update_of_ne ?_ _ _).trans ((congrFun hopen _).trans hfd)
            show w.nextFd ≠ w₂.nextFd
            omega
          · simp
          intro w' hfiles' hsent' hsd' hcalm'
          refine returns_perform_bind Host.answer_close ?_
          refine returns_perform_bind Host.answer_close ?_
          refine returns_perform_bind (Host.answer_exit hlock hsd') ?_
          refine ⟨_, _, Host.runIn_respond (by exact hcalm'), ?_,
            ⟨_, ?_, List.flatten_singleton⟩, htable⟩
          · exact hfiles'.trans (update_idem _ _ _)
          · exact congrArg (· ++ _) (hsent'.trans (hsent.trans hresponses))

end Transfers

/-! ## Nothing goes wrong later -/

theorem Host.openRead_fate (w : Host) (path : Path) : (w.openRead path).2.fate = w.fate := by
  unfold Host.openRead
  split
  · rfl
  · split
    · rfl
    · split <;> rfl

theorem Host.openWrite_fate (w : Host) (path : Path) (mode : WriteMode) :
    (w.openWrite path mode).2.fate = w.fate := by
  unfold Host.openWrite
  split
  · rfl
  · split
    · rfl
    · split <;> rfl

theorem Host.put_fate (w : Host) (fd : ℕ) (bytes : Text) : (w.put fd bytes).fate = w.fate := by
  unfold Host.put
  split <;> rfl

theorem Host.answer_fate {w : Host} {c : Call} {r : Reply c × Host} (h : w.answer c = some r) :
    r.2.fate = w.fate := by
  cases c with
  | lock op entry =>
      obtain ⟨file, -, rfl⟩ := Option.map_eq_some_iff.1 h
      rfl
  | openRead path =>
      cases h
      exact w.openRead_fate path
  | openWrite path mode =>
      cases h
      exact w.openWrite_fate path mode
  | tmpfile =>
      cases h
      show ((if w.succeeds then w.tick.openAs .temp else (none, w.tick)) :
        Option ℕ × Host).2.fate = w.fate
      split <;> rfl
  | write fd bytes =>
      cases h
      show (w.write fd bytes).2.fate = w.fate
      unfold Host.write
      dsimp only
      split
      · rfl
      · exact w.tick.put_fate fd _
  | fputs fd bytes =>
      cases h
      exact w.tick.put_fate fd _
  | _ =>
      cases h
      rfl

theorem Host.calm_run {α : Type} {p : Requester α} {w : Host} (h : w.Calm) :
    (runIn answerRequest p w).2.Calm := by
  refine runIn_keeps (P := Host.Calm) (fun w c r hcalm hr => ?_) h
  cases c with
  | file c =>
      unfold Host.Calm
      rw [Host.answer_fate hr]
      exact hcalm
  | _ =>
      cases hr
      exact hcalm

/-! ## The commands as the client types them -/

theorem CommandName.text_token (name : CommandName) : name.text ≠ [] ∧ ' ' ∉ name.text := by
  cases name <;> exact ⟨by decide, by decide⟩

theorem splitCommand_text (c : FileCommand) : splitCommand c.text = (c.name.text, c.arguments) := by
  obtain ⟨hne, hspace⟩ := c.name.text_token
  have htoken : strtok [' '] (c.name.text ++ ' ' :: c.arguments)
      = (some c.name.text, c.arguments) := strtok_token hne hspace
  unfold splitCommand FileCommand.text
  simp only [htoken]

theorem fileCommand_text (c : FileCommand) : fileCommand (splitCommand c.text).1 = some c.name := by
  rw [splitCommand_text]
  cases c.name <;> rfl

theorem readFArgs_text (file : FileName) (number : Option LineNumber) (locals : Locals) :
    readFArgs (FileCommand.read file number).arguments locals
      = (true, file.text, lineNumberOf (number.map LineNumber.value)) := by
  unfold readFArgs
  cases number with
  | none =>
      rw [FileCommand.arguments, strtok_last file.ne file.no_space]
      rfl
  | some k =>
      have hspace : ' ' ∉ k.digits := fun h => by
        have hdigit := List.all_eq_true.1 k.isDigit ' ' h
        revert hdigit
        decide
      have hpos := k.pos
      have hvalue := atoi_digits k.isDigit k.le
      rw [FileCommand.arguments, strtok_token file.ne file.no_space]
      dsimp only
      rw [strtok_last k.ne hspace]
      dsimp only
      rw [hvalue, if_neg (by omega)]
      rfl

/-- The command behind a line number. -/
def editCommand (c : TextCommand) (k : Text) (hk : c.number = some k) (hline : '\n' ∉ c.text) :
    EditCommand where
  lineNumber := digitsValue k
  string := c.text
  positive := by
    have := (c.number_range k hk).1
    omega
  no_nul := c.text_nul
  no_newline := hline

section Commands

variable {w : Host} {names : List Text} {locals : Locals} {files : Path → Option Text}
  {answer : Text}

theorem served_write (c : TextCommand) (hline : '\n' ∉ c.text) (hfile : DirectoryName c.fileName)
    (h : w.Attends names) (hname : c.fileName ∈ names)
    (hserve : fileStore.serve w.files (.write c hline hfile) = some (files, answer)) :
    Returns Host.answer (writeT (FileCommand.write c hline hfile).arguments locals) w fun _ w' =>
      Served w c.fileName files answer w' := by
  obtain ⟨⟨changed, text⟩, hwrite, heq⟩ := Option.map_eq_some_iff.1 hserve
  cases heq
  have hargs : (FileCommand.write c hline hfile).arguments = (splitCommand c.command).2 := by
    rw [c.splitCommand_command]
    rfl
  rw [hargs]
  unfold writeAnswer at hwrite
  cases hnumber : c.number with
  | none =>
      simp only [hnumber] at hwrite
      cases hwrite
      exact served_writeT_append h hname (c.args_append hnumber locals)
  | some k =>
      have hk := c.args_line hnumber locals
      have hne : ((digitsValue k : ℕ) : ℤ) ≠ -1 := by omega
      cases hcontent : w.files (.file c.fileName) with
      | none =>
          simp only [hnumber, hcontent] at hwrite
          cases hwrite
          exact served_writeT_missing h hname hne hk hcontent
      | some content =>
          simp only [hnumber, hcontent] at hwrite
          obtain ⟨⟨hnul, hshort⟩, hwrite⟩ := Option.ite_none_right_eq_some.1 hwrite
          have hpos := (c.number_range k hnumber).1
          have hindex : (editCommand c k hnumber hline).index = digitsValue k - 1 := by
            show ((digitsValue k : ℤ) - 1).toNat = _
            omega
          have hfits : Fits (editCommand c k hnumber hline).index content :=
            fits_of_short hnul (by rw [hindex, Nat.sub_add_cancel hpos]; exact hshort)
          have hedit := (editCommand c k hnumber hline).editLines_eq hfits
          rw [hindex] at hedit
          refine (served_writeT_line h hname hne hk hcontent).mono ?_
          rintro - w' ⟨hedited, hkept⟩
          rw [show editLines (digitsValue k : ℤ) c.text content = _ from hedit] at hedited
          unfold Edited at hedited
          dsimp only at hedited
          by_cases hle : digitsValue k ≤ (lines content).length
          · rw [if_pos hle] at hwrite
            rw [if_pos (by simp only [decide_eq_true_eq]; omega)] at hedited
            cases hwrite
            refine ⟨?_, ⟨_, hedited.2, List.flatten_singleton⟩, hkept⟩
            rw [hedited.1]
            show update w.files (.file c.fileName)
              (some (setLine (editCommand c k hnumber hline).index c.text content)) = _
            rw [hindex]
            rfl
          · rw [if_neg hle] at hwrite
            rw [if_neg (by simp only [decide_eq_true_eq]; omega)] at hedited
            cases hwrite
            exact ⟨hedited.1, ⟨_, hedited.2, List.flatten_singleton⟩, hkept⟩

theorem served_read (file : FileName) (number : Option LineNumber) (h : w.Attends names)
    (hname : file.text ∈ names)
    (hserve : fileStore.serve w.files (.read file number) = some (files, answer)) :
    Returns Host.answer (readF (FileCommand.read file number).arguments locals) w fun _ w' =>
      Served w file.text files answer w' := by
  obtain ⟨text, hread, heq⟩ := Option.map_eq_some_iff.1 hserve
  cases heq
  have hargs := readFArgs_text file number locals
  cases hcontent : w.files (.file file.text) with
  | none =>
      rw [hcontent] at hread
      cases hread
      exact served_readF_missing h hname hargs hcontent
  | some content =>
      rw [hcontent] at hread
      have hserved := served_readF h hname hargs hcontent
      cases number with
      | none =>
          cases hread
          exact hserved nofun
      | some k =>
          obtain ⟨hfits, heq⟩ := Option.ite_none_right_eq_some.1 hread
          cases heq
          refine hserved ?_
          rintro n hn
          obtain rfl : k.value = n := Option.some.inj hn
          exact ⟨k.pos, hfits⟩

/-- A command that the store serves is served. -/
theorem served_runCommand (c : FileCommand) (h : w.Attends names) (hname : c.fileName ∈ names)
    (hserve : fileStore.serve w.files c = some (files, answer)) :
    Returns Host.answer (runCommand c.name c.arguments locals) w fun _ w' =>
      Served w c.fileName files answer w' := by
  cases c with
  | write c hline hfile => exact served_write c hline hfile h hname hserve
  | read file number => exact served_read file number h hname hserve
  | upload file =>
      cases hserve
      exact served_upload h hname (congrArg Prod.fst (strtok_last file.ne file.no_space)) rfl rfl
  | download file =>
      cases hserve
      exact served_download h hname (congrArg Prod.fst (strtok_last file.ne file.no_space)) rfl rfl

end Commands

/-! ## Passes and sessions -/

/-- A pass in a calm host reads the command of the client and dispatches it. -/
theorem returns_request {w : Host} (h : w.Calm) {m : Memory} {command : Text}
    (hcommand : cString m.command = command) {Q : Next → Host → Prop}
    (hrun : Returns Host.answerRequest (dispatch command m.locals)
      (w.withCommand m.command).listening Q) :
    Returns Host.answerRequest (request m.locals) (w.withCommand m.command) Q := by
  have hcalm : (w.withCommand m.command).Calm := h
  have hopen : runIn Host.answerRequest (Server.files (Handler.openRead .clientFifo))
      (w.withCommand m.command)
        = (some (.returned (some w.nextFd)), (w.withCommand m.command).opening .fifo) := by
    refine (runIn_files _ _).trans (runIn_perform ?_)
    show some ((w.withCommand m.command).openRead .clientFifo) = _
    rw [Host.openRead, hcalm.succeeds]
    rfl
  have hread : ((w.withCommand m.command).opening .fifo).answerRequest (.readCommand w.nextFd)
      = some (some command, ((w.withCommand m.command).opening .fifo).tick) := by
    have hsucceeds : ((w.withCommand m.command).opening .fifo).succeeds = true :=
      Host.Calm.succeeds (by exact h)
    rw [Host.answerRequest, hsucceeds]
    exact congrArg (fun text => some (some text, _)) hcommand
  refine returns_bind ⟨_, _, hopen, returns_perform_bind hread ?_⟩
  exact returns_bind ⟨_, _, (runIn_files _ _).trans (runIn_perform Host.answer_close), hrun⟩

/-- A handler and the memory of its passes; the answer is all that a pass sends. -/
def handler : Service Host Memory Text where
  serve w m :=
    match w.pass m with
    | (some (.returned .again), w') =>
        some (w', (w'.responses.drop w.responses.length).flatten)
    | _ => none

/-- A host with these files, ready for commands on the names. -/
def Keeps (names : List Text) (w : Host) (files : Path → Option Text) : Prop :=
  w.Attends names ∧ w.files = files

/-- The memory holds the command of the client, on one of the names. -/
def Carries (names : List Text) (m : Memory) (c : FileCommand) : Prop :=
  cString m.command = c.text ∧ c.fileName ∈ names

theorem handler_implements (names : List Text) :
    handler.Implements fileStore (Keeps names) (Carries names) := by
  rintro w files m c files' answer ⟨hw, rfl⟩ ⟨hcommand, hname⟩ hserve
  have hattends : (w.withCommand m.command).listening.Attends names :=
    ⟨hw.calm, hw.unheld, hw.room⟩
  have hrun : Returns Host.answer (runCommand c.name c.arguments m.locals)
      (w.withCommand m.command).listening fun _ w' =>
        Served (w.withCommand m.command).listening c.fileName files' answer w' :=
    served_runCommand c hattends hname hserve
  have hpass : Returns Host.answerRequest (request m.locals) (w.withCommand m.command)
      fun next w' => next = .again ∧
        Served (w.withCommand m.command).listening c.fileName files' answer w' := by
    refine returns_request hw.calm hcommand ?_
    obtain ⟨a, w', hend, hserved⟩ := hrun
    rw [dispatch_file m.locals (fileCommand_text c), splitCommand_text c]
    exact returns_bind ⟨a, w', (runIn_files _ _).trans hend, returns_pure ⟨rfl, hserved⟩⟩
  obtain ⟨next, w', hend, rfl, hfiles, ⟨sent, hsent, hflat⟩, htable⟩ := hpass
  have hcalm : w'.Calm := by
    have := Host.calm_run (p := request m.locals) (w := w.withCommand m.command) (by exact hw.calm)
    rwa [hend] at this
  refine ⟨w', ?_, hw.kept hname hcalm htable, hfiles⟩
  show (match w.pass m with
    | (some (.returned .again), w') => some (w', (w'.responses.drop w.responses.length).flatten)
    | _ => none) = _
  rw [Host.pass, hend]
  dsimp only
  rw [hsent, ← hflat]
  exact congrArg (fun rest => some (w', List.flatten rest)) List.drop_left

/-- **Sessions.** A client that is alone with the files gets for every command, however many there
    are, what the store answers, and leaves the files that the store leaves. -/
theorem session_stored {names : List Text} {w : Host} (hw : w.Attends names) {ms : List Memory}
    {cs : List FileCommand} (hcommands : List.Forall₂ (Carries names) ms cs)
    {files : Path → Option Text} {answers : List Text}
    (hstore : fileStore.session w.files cs = some (files, answers)) :
    ∃ w', handler.session w ms = some (w', answers) ∧ w'.files = files ∧ w'.Attends names := by
  obtain ⟨w', hsession, hattends, hfiles⟩ :=
    (handler_implements names).session hcommands ⟨hw, rfl⟩ hstore
  exact ⟨w', hsession, hfiles, hattends⟩

theorem Host.attends_fresh (files : Path → Option Text) (fileName : Text) :
    (Host.fresh files).Attends [fileName] where
  calm := fun _ => rfl
  unheld := fun _ hentry => absurd hentry (Nat.not_lt_zero _)
  room := List.length_filter_le _ _

theorem singleWord_line : '\n' ∉ singleWord.text := by decide

theorem singleWord_name : DirectoryName singleWord.fileName := by decide

/-- `writeT f ab`, then `readF f` with an old file name in the array. -/
theorem session_stored_small :
    ∃ w', handler.session (Host.fresh fun _ => none)
        [⟨"writeT f ab".toList, [], []⟩, ⟨"readF f".toList, ['g'], ['a', 'b']⟩]
          = some (w', [reply "Succesfully written into the file.\n", "ab \n".toList]) ∧
      w'.files = putFile (fun _ => none) (.file ['f']) (some "ab \n".toList) ∧
      w'.Attends [['f']] := by
  have hcommands : List.Forall₂ (Carries [['f']])
      [⟨"writeT f ab".toList, [], []⟩, ⟨"readF f".toList, ['g'], ['a', 'b']⟩]
      [.write singleWord singleWord_line singleWord_name,
        .read ⟨['f'], singleWord_name, by decide⟩ none] :=
    .cons ⟨by decide, by decide⟩ (.cons ⟨by decide, by decide⟩ .nil)
  exact session_stored (Host.attends_fresh _ _) hcommands rfl

end SystemProgramming.Server
