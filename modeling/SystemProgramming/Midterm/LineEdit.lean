import Mathlib.Data.Fintype.Basic
import SystemProgramming.Lib.Lines
import SystemProgramming.Lib.Machine
import SystemProgramming.Midterm.Paths

set_option autoImplicit false

/-! # Line edits by several clients

`writeT` with a line number edits a file in two sections: it copies the file with the edit to a
temporary file under the reader lock, and later overwrites the file with the copy under the writer
lock. `editMachine` interleaves these sections for any number of handlers on one file. A handler
that reads while another one is between its two sections overwrites what that one writes. The
results of `fgets` and `fputs` are ignored: a handler whose disk is full reports success. -/

namespace SystemProgramming.Server

open Function Prog Handler

/-! ## What one edit does to the lines -/

section EditLoop

variable {lineNumber currentLine : ℤ} {string buffer : Text} {rest : List Text}

theorem editLoop_replace (h : lineNumber = currentLine + 1) :
    editLoop lineNumber string currentLine (buffer :: rest)
      = (cString string ++ ['\n'] ++ (editLoop lineNumber string (currentLine + 1) rest).1, true) :=
  if_pos h

theorem editLoop_copy (h : lineNumber ≠ currentLine + 1) :
    editLoop lineNumber string currentLine (buffer :: rest)
      = (cString buffer ++ (editLoop lineNumber string (currentLine + 1) rest).1,
        (editLoop lineNumber string (currentLine + 1) rest).2) :=
  if_neg h

end EditLoop

/-- Past the line that is replaced the loop only copies. -/
theorem editLoop_past {lineNumber currentLine : ℤ} (h : lineNumber ≤ currentLine) (string : Text)
    (buffers : List Text) :
    editLoop lineNumber string currentLine buffers = (buffers.flatMap cString, false) := by
  induction buffers generalizing currentLine with
  | nil => rfl
  | cons buffer rest ih =>
      rw [editLoop_copy (by omega), ih (by omega), List.flatMap_cons]

/-- The content fits an edit of line `k`, counted from 0: the lines up to it fit in the buffer, and
    the lines that are copied hold no NUL. -/
def Fits (k : ℕ) (content : Text) : Prop :=
  (∀ l ∈ (lines content).take (k + 1), l.length ≤ 4095) ∧
    nul ∉ ((lines content).eraseIdx k).flatten

instance (k : ℕ) (content : Text) : Decidable (Fits k content) :=
  inferInstanceAs (Decidable (_ ∧ _))

/-- On lines that fit the loop replaces line `k`, if there is one. -/
theorem editLoop_lines {ls : List Text} (hls : IsLines ls) {room k : ℕ} (currentLine : ℤ)
    {string : Text} (hstring : nul ∉ string) (hroom : ∀ l ∈ ls.take (k + 1), l.length ≤ room)
    (hnul : nul ∉ (ls.eraseIdx k).flatten) :
    editLoop (currentLine + k + 1) string currentLine (fgetsFrom room [] ls.flatten)
      = ((ls.set k (string ++ ['\n'])).flatten, decide (k < ls.length)) := by
  induction hls generalizing k currentLine with
  | nil => simp [fgetsFrom, editLoop]
  | @last l hne hl =>
      have hread : fgetsFrom room [] l = [l] :=
        fgetsFrom_last hl (by simpa using hroom l (by simp)) hne
      rw [List.flatten_singleton, hread]
      cases k with
      | zero =>
          rw [editLoop_replace (by simp), cString_of_not_mem hstring]
          simp [editLoop]
      | succ k =>
          have hcopy : cString l = l := cString_of_not_mem (by simpa using hnul)
          rw [editLoop_copy (by omega), hcopy]
          simp [editLoop]
  | @cons l ls hl hls ih =>
      have hfits : l.length + 1 ≤ room := by simpa using hroom (l ++ ['\n']) (by simp)
      rw [List.flatten_cons, fgetsFrom_line hl hfits]
      cases k with
      | zero =>
          have hcopy : nul ∉ ls.flatten := by simpa using hnul
          rw [editLoop_replace (by simp), editLoop_past (by simp), flatMap_cString_fgetsFrom hcopy,
            cString_of_not_mem hstring]
          simp
      | succ k =>
          rw [List.eraseIdx_cons_succ, List.flatten_cons, List.mem_append, not_or] at hnul
          have hrest := ih (k := k) (currentLine + 1)
            (fun l' hl' => hroom l' (List.mem_cons_of_mem _ hl')) hnul.2
          have hnumber : currentLine + ((k + 1 : ℕ) : ℤ) + 1 = currentLine + 1 + k + 1 := by
            push_cast
            omega
          rw [hnumber, editLoop_copy (by omega), hrest, cString_of_not_mem hnul.1]
          simp

theorem nul_not_mem_editLoop (lineNumber : ℤ) (string : Text) (currentLine : ℤ)
    (buffers : List Text) : nul ∉ (editLoop lineNumber string currentLine buffers).1 := by
  induction buffers generalizing currentLine with
  | nil => exact List.not_mem_nil
  | cons buffer rest ih =>
      have hnewline : nul ≠ '\n' := by decide
      by_cases h : lineNumber = currentLine + 1
      · rw [editLoop_replace h]
        simp [nul_not_mem_cString, ih, hnewline]
      · rw [editLoop_copy h]
        simp [nul_not_mem_cString, ih]

/-- The temporary file is copied as it is. -/
theorem copyLines_editLines (lineNumber : ℤ) (string content : Text) :
    copyLines (editLines lineNumber string content).1 = (editLines lineNumber string content).1 :=
  flatMap_cString_fgetsFrom (nul_not_mem_editLoop _ _ _ _)

/-! ## The commands -/

/-- `writeT` with a line number. The client sends its command as one line, up to the terminator. -/
structure EditCommand where
  lineNumber : ℤ
  string : Text
  positive : 1 ≤ lineNumber
  no_nul : nul ∉ string
  no_newline : '\n' ∉ string

namespace EditCommand

/-- The line that is replaced, counted from 0. -/
def index (c : EditCommand) : ℕ := (c.lineNumber - 1).toNat

/-- The content with the line replaced. -/
def replace (c : EditCommand) (content : Text) : Text := setLine c.index c.string content

/-- What the command makes of the content when nothing happens between its sections. -/
def run (c : EditCommand) (content : Text) : Text :=
  let (temp, placed) := editLines c.lineNumber c.string content
  if placed then copyLines temp else content

theorem editLines_eq (c : EditCommand) {content : Text} (h : Fits c.index content) :
    editLines c.lineNumber c.string content
      = (c.replace content, decide (c.index < (lines content).length)) := by
  have hnumber : c.lineNumber = 0 + c.index + 1 := by
    have hpos := c.positive
    unfold index
    omega
  have hedit := editLoop_lines (isLines_lines content) 0 c.no_nul h.1 h.2
  rw [lines_flatten, ← hnumber] at hedit
  exact hedit

theorem replace_comm {c c' : EditCommand} (h : c.lineNumber ≠ c'.lineNumber) (content : Text) :
    c.replace (c'.replace content) = c'.replace (c.replace content) := by
  refine setLine_comm ?_ c.no_newline c'.no_newline content
  have hpos := c.positive
  have hpos' := c'.positive
  unfold index
  omega

end EditCommand

/-- The arguments that `writeT` takes from a line of its client form an edit. -/
theorem editCommand_of_args {rest fileName string : Text} {locals : Locals} {lineNumber : ℤ}
    (hnul : nul ∉ rest) (hnewline : '\n' ∉ rest)
    (h : writeTArgs rest locals = some ⟨fileName, lineNumber, some string⟩)
    (hnumber : 0 ≤ lineNumber) :
    ∃ c : EditCommand, c.lineNumber = lineNumber ∧ c.string = string := by
  unfold writeTArgs at h
  rcases hfile : strtok [' '] rest with ⟨_ | file, rest'⟩
  · rw [hfile] at h
    cases h
  · rw [hfile] at h
    have hrest' := (strtok_sublist hfile).2
    rcases hline : strtok [' '] rest' with ⟨_ | token, rest''⟩
    · simp only [hline] at h
      cases h
      omega
    · simp only [hline] at h
      have hrest'' := (strtok_sublist hline).2
      by_cases hdigits : token.all Char.isDigit = true
      · simp only [hdigits, if_true] at h
        by_cases hzero : atoi token = 0
        · simp only [hzero, if_true] at h
          cases h
          omega
        · simp only [hzero, if_false] at h
          split at h
          · simp only [Option.some.injEq, WriteTArgs.mk.injEq] at h
            obtain ⟨rfl, rfl, hstring⟩ := h
            have hpart : string.Sublist rest :=
              ((strtok_sublist (Prod.ext hstring rfl)).1.trans hrest'').trans hrest'
            exact ⟨⟨atoi token, string, by omega, fun hc => hnul (hpart.mem hc),
              fun hc => hnewline (hpart.mem hc)⟩, rfl, rfl⟩
          · cases h
            omega
      · rw [if_neg hdigits] at h
        cases h
        omega

/-! ## The sections of several handlers -/

/-- Where a handler is with its edit. -/
inductive EditPC
  | start
  /-- between the sections, with the content of its temporary file -/
  | copied (temp : Text)
  | failed
  | done
deriving DecidableEq

/-- The handler is between its two sections. -/
def EditPC.isCopied : EditPC → Bool
  | .copied _ => true
  | _ => false

/-- The content of the file and the handlers that edit it. -/
structure EditState (ι : Type*) where
  content : Text
  pc : ι → EditPC

/-- The section of `writeT` under the reader lock, when its files open. -/
def readSection (c : EditCommand) (content : Text) : EditPC :=
  let (temp, placed) := editLines c.lineNumber c.string content
  if placed then .copied temp else .failed

/-- How the files of a section turn out: one does not open, or `fgets` reads so many bytes up to the
    end or an error, and so many of those that `fputs` is given reach the file. -/
inductive EditFiles
  | unopened
  | used (read written : ℕ)
deriving DecidableEq

/-- The section under the reader lock, when so much of the content is read and so much of the copy
    written. -/
def readPart (c : EditCommand) (content : Text) (read written : ℕ) : EditPC :=
  match readSection c (content.take read) with
  | .copied temp => .copied (temp.take written)
  | pc => pc

/-- The edits `c` of a file. A label names the handler that runs its next section, and how the files
    of the section turn out. -/
def editMachine {ι : Type*} [DecidableEq ι] (c : ι → EditCommand) (original : Text) :
    Machine (EditState ι) (ι × EditFiles) where
  init s := s.content = original ∧ ∀ i, s.pc i = .start
  next s a :=
    match s.pc a.1, a.2 with
    | .start, .used read written =>
        some { s with pc := update s.pc a.1 (readPart (c a.1) s.content read written) }
    | .copied temp, .used read written =>
        some ⟨(copyLines (temp.take read)).take written, update s.pc a.1 .done⟩
    | .start, .unopened | .copied _, .unopened =>
        some { s with pc := update s.pc a.1 .failed }
    | _, _ => none

/-- A section reads its file to the end, and what it writes reaches its file; the content that is
    copied fits the edit. -/
def Kept (c : EditCommand) (content : Text) : EditPC → EditFiles → Prop
  | .start, .used read written =>
      Fits c.index content ∧ content.length ≤ read ∧
        (editLines c.lineNumber c.string content).1.length ≤ written
  | .copied temp, .used read written => temp.length ≤ read ∧ (copyLines temp).length ≤ written
  | _, _ => True

instance (c : EditCommand) (content : Text) : (pc : EditPC) → (files : EditFiles) →
    Decidable (Kept c content pc files)
  | .start, .used _ _ => inferInstanceAs (Decidable (_ ∧ _ ∧ _))
  | .copied _, .used _ _ => inferInstanceAs (Decidable (_ ∧ _))
  | .start, .unopened | .copied _, .unopened | .failed, _ | .done, _ =>
      inferInstanceAs (Decidable True)

/-- No file fails a handler unnoticed, and it reads the content while no other handler is between
    its sections. -/
def Undisturbed {ι : Type*} (c : ι → EditCommand) (s : EditState ι) (a : ι × EditFiles) : Prop :=
  Kept (c a.1) s.content (s.pc a.1) a.2 ∧
    (s.pc a.1 = .start → a.2 ≠ .unopened → ∀ j, (s.pc j).isCopied = false)

instance {ι : Type*} [Fintype ι] (c : ι → EditCommand) (s : EditState ι) (a : ι × EditFiles) :
    Decidable (Undisturbed c s a) :=
  inferInstanceAs (Decidable (_ ∧ (_ → _ → _)))

section Edits

variable {ι : Type*} [DecidableEq ι] {c : ι → EditCommand} {original : Text}

/-- A step, by what becomes of the section. -/
inductive EditStep (c : ι → EditCommand) (s : EditState ι) : ι × EditFiles → EditState ι → Prop
  | copy (i : ι) {read written : ℕ} {temp : Text} (hpc : s.pc i = .start)
      (hread : editLines (c i).lineNumber (c i).string (s.content.take read) = (temp, true)) :
      EditStep c s (i, .used read written)
        { s with pc := update s.pc i (.copied (temp.take written)) }
  | write (i : ι) {read written : ℕ} {temp : Text} (hpc : s.pc i = .copied temp) :
      EditStep c s (i, .used read written)
        ⟨(copyLines (temp.take read)).take written, update s.pc i .done⟩
  | fail (i : ι) (files : EditFiles) (hpc : s.pc i ≠ .done) :
      EditStep c s (i, files) { s with pc := update s.pc i .failed }

theorem editStep_of_next {s s' : EditState ι} {a : ι × EditFiles}
    (h : (editMachine c original).next s a = some s') : EditStep c s a s' := by
  obtain ⟨i, files⟩ := a
  cases hpc : s.pc i with
  | start =>
      cases files with
      | used read written =>
          simp only [editMachine, hpc, Option.some.injEq] at h
          subst h
          rcases hread : editLines (c i).lineNumber (c i).string (s.content.take read)
            with ⟨temp, placed⟩
          cases placed with
          | true =>
              simp only [readPart, readSection, hread, if_pos]
              exact .copy i hpc hread
          | false =>
              simp only [readPart, readSection, hread, Bool.false_eq_true, if_false]
              exact .fail i _ (by rw [hpc]; exact nofun)
      | unopened =>
          simp only [editMachine, hpc, Option.some.injEq] at h
          subst h
          exact .fail i _ (by rw [hpc]; exact nofun)
  | copied temp =>
      cases files with
      | used read written =>
          simp only [editMachine, hpc, Option.some.injEq] at h
          subst h
          exact .write i hpc
      | unopened =>
          simp only [editMachine, hpc, Option.some.injEq] at h
          subst h
          exact .fail i _ (by rw [hpc]; exact nofun)
  | failed | done => simp [editMachine, hpc] at h

/-- The content is what the edits that are done make of the original one after the other; the edit
    between its sections, at most one, has copied the content as it still is. -/
structure EditInv (c : ι → EditCommand) (original : Text) (s : EditState ι) : Prop where
  serial : ∃ order : List ι, order.Nodup ∧ (∀ i, i ∈ order ↔ s.pc i = .done) ∧
    s.content = order.foldl (fun content i => (c i).run content) original ∧
    s.content = order.foldl (fun content i => (c i).replace content) original
  copied : ∀ i temp, s.pc i = .copied temp →
    editLines (c i).lineNumber (c i).string s.content = (temp, true) ∧ Fits (c i).index s.content ∧
      ∀ j, (s.pc j).isCopied = true → j = i

theorem editInv_init {s : EditState ι} (h : (editMachine c original).init s) :
    EditInv c original s := by
  obtain ⟨hcontent, hpc⟩ := h
  constructor
  · exact ⟨[], List.nodup_nil, fun i => by simp [hpc i], hcontent, hcontent⟩
  · intro i temp hi
    rw [hpc i] at hi
    cases hi

theorem update_eq_done {pc : ι → EditPC} {i : ι} {x : EditPC} (hpc : pc i ≠ .done) (hx : x ≠ .done)
    (k : ι) : update pc i x k = .done ↔ pc k = .done := by
  by_cases hk : k = i
  · subst hk
    rw [update_self]
    exact iff_of_false hx hpc
  · rw [update_of_ne hk]

omit [DecidableEq ι] in
/-- The write section writes what the command makes of the content that is there now. -/
theorem EditInv.written {s : EditState ι} (h : EditInv c original s) {i : ι} {temp : Text}
    (hpc : s.pc i = .copied temp) :
    copyLines temp = (c i).run s.content ∧ copyLines temp = (c i).replace s.content := by
  obtain ⟨hread, hfits, -⟩ := h.copied i temp hpc
  have hcopy := copyLines_editLines (c i).lineNumber (c i).string s.content
  have hedit := (c i).editLines_eq hfits
  rw [hread] at hcopy hedit
  refine ⟨?_, hcopy.trans (Prod.mk.inj hedit).1⟩
  simp only [EditCommand.run, hread, if_true]

theorem editInv_step {s s' : EditState ι} {a : ι × EditFiles} (hinv : EditInv c original s)
    (hok : Undisturbed c s a) (hnext : (editMachine c original).next s a = some s') :
    EditInv c original s' := by
  obtain ⟨order, hnodup, hdone, hrun, hreplace⟩ := hinv.serial
  cases editStep_of_next hnext with
  | @copy i read written temp hpc hread =>
      -- no other handler holds a copy, so that this is the only one
      have hnobody := hok.2 hpc nofun
      obtain ⟨hfits, hcontent, htemp⟩ : Kept (c i) s.content .start (.used read written) := by
        rw [← hpc]
        exact hok.1
      rw [List.take_of_length_le hcontent] at hread
      rw [hread] at htemp
      rw [List.take_of_length_le htemp]
      constructor
      · refine ⟨order, hnodup, fun k => ?_, hrun, hreplace⟩
        rw [hdone k]
        have hstart : s.pc i ≠ .done := by
          rw [hpc]
          exact nofun
        exact (update_eq_done (x := .copied temp) hstart nofun k).symm
      · intro k temp' hk
        by_cases hki : k = i
        · subst hki
          have htemp : temp = temp' := by simpa using hk
          subst htemp
          refine ⟨hread, hfits, fun j hj => ?_⟩
          by_contra hjk
          have hcopied : (s.pc j).isCopied = true := by simpa [update_of_ne hjk] using hj
          rw [hnobody j] at hcopied
          cases hcopied
        · have hcopied : s.pc k = .copied temp' := by simpa [update_of_ne hki] using hk
          have hnot := hnobody k
          rw [hcopied] at hnot
          cases hnot
  | @write i read written temp hpc =>
      -- the copy is still that of the content, so that the edit comes last in the order
      obtain ⟨htemp, hcopy⟩ : Kept (c i) s.content (.copied temp) (.used read written) := by
        rw [← hpc]
        exact hok.1
      rw [List.take_of_length_le htemp, List.take_of_length_le hcopy]
      obtain ⟨-, -, honly⟩ := hinv.copied i temp hpc
      obtain ⟨hran, hreplaced⟩ := hinv.written hpc
      have hi : i ∉ order := by
        intro h
        rw [hdone i, hpc] at h
        cases h
      constructor
      · refine ⟨order ++ [i], ?_, fun k => ?_, ?_, ?_⟩
        · exact hnodup.append (List.nodup_singleton i) (by simpa using hi)
        · by_cases hk : k = i
          · subst hk
            simp
          · simp [hk, hdone k]
        · rw [List.foldl_append, ← hrun]
          exact hran
        · rw [List.foldl_append, ← hreplace]
          exact hreplaced
      · intro k temp' hk
        by_cases hki : k = i
        · subst hki
          simp at hk
        · have hcopied : s.pc k = .copied temp' := by simpa [update_of_ne hki] using hk
          exact absurd (honly k (by rw [hcopied]; rfl)) hki
  | fail i files hpc =>
      constructor
      · refine ⟨order, hnodup, fun k => ?_, hrun, hreplace⟩
        rw [hdone k]
        exact (update_eq_done (x := .failed) hpc nofun k).symm
      · intro k temp' hk
        by_cases hki : k = i
        · subst hki
          simp at hk
        · have hcopied : s.pc k = .copied temp' := by simpa [update_of_ne hki] using hk
          obtain ⟨hread, hfits, honly⟩ := hinv.copied k temp' hcopied
          refine ⟨hread, hfits, fun j hj => honly j ?_⟩
          by_cases hji : j = i
          · subst hji
            simp [EditPC.isCopied] at hj
          · simpa [update_of_ne hji] using hj

theorem editInv {s : EditState ι} (h : (editMachine c original).ReachableUnder (Undisturbed c) s) :
    EditInv c original s :=
  h.invariant (fun _ => editInv_init) fun _ _ _ _ hinv hok hnext => editInv_step hinv hok hnext

/-- When two handlers both read before either writes, the one that writes last overwrites the edit
    of the other. -/
theorem edit_lost {i j : ι} (hij : i ≠ j) (hi : Fits (c i).index original)
    (hi' : (c i).index < (lines original).length) (hj : Fits (c j).index original)
    (hj' : (c j).index < (lines original).length) {n : ℕ} (horiginal : original.length ≤ n)
    (hlength : ((c i).replace original).length ≤ n)
    (hlength' : ((c j).replace original).length ≤ n) {s : EditState ι}
    (hs : (editMachine c original).exec ⟨original, fun _ => .start⟩
      [(i, .used n n), (j, .used n n), (i, .used n n), (j, .used n n)] = some s) :
    s.content = (c j).replace original := by
  have hread : readPart (c i) original n n = .copied ((c i).replace original) := by
    rw [readPart, List.take_of_length_le horiginal, readSection, (c i).editLines_eq hi,
      decide_eq_true hi']
    simp only [if_true]
    rw [List.take_of_length_le hlength]
  have hread' : readPart (c j) original n n = .copied ((c j).replace original) := by
    rw [readPart, List.take_of_length_le horiginal, readSection, (c j).editLines_eq hj,
      decide_eq_true hj']
    simp only [if_true]
    rw [List.take_of_length_le hlength']
  have hcopy : copyLines ((c j).replace original) = (c j).replace original := by
    have h := copyLines_editLines (c j).lineNumber (c j).string original
    rwa [(c j).editLines_eq hj] at h
  simp [Machine.exec, editMachine, hread, hread', hij, hij.symm] at hs
  rw [← hs]
  show (copyLines (((c j).replace original).take n)).take n = _
  rw [List.take_of_length_le hlength', hcopy, List.take_of_length_le hlength']

end Edits

/-! ## The sections of the handler -/

/-- What `writeT` does with the file and its temporary copy, and the lock calls around it. -/
inductive FileUse
  | lock (op : LockOp) (entry : ℕ)
  /-- `fgets` on the file -/
  | read (content : Text)
  /-- `fopen(…, "w+")` has truncated the file -/
  | truncate (fd : ℕ)
  | put (fd : ℕ) (bytes : Text)

/-- What a call does to the file. -/
def fileUses (e : Event Call Reply) : List FileUse :=
  match e.call, e.reply with
  | .lock op entry, _ => [.lock op entry]
  | .stream _, content => [.read content]
  | .openWrite (.file _) .truncate, some fd => [.truncate fd]
  | .fputs fd bytes, _ => [.put fd bytes]
  | _, _ => []

theorem fileUses_answer (c : Call) (r : Reply c) (h : c.isAnswer = true) : fileUses ⟨c, r⟩ = [] := by
  cases c with
  | openWrite path mode => cases path <;> first | rfl | cases h
  | write | close | unlink => rfl
  | _ => cases h

/-- The handler runs `readSection` between `reader_enter` and `reader_exit`, and writes the lines of
    its temporary file back between `writer_enter` and `writer_exit`. -/
theorem replaceString_sections (c : EditCommand) (fileName : Text) (sfile : ℕ) :
    Shows fileUses (replaceString fileName sfile c.lineNumber (some c.string)) fun l _ =>
      l = [.lock .readerEnter sfile] ∨
      l = [.lock .readerEnter sfile, .lock .readerExit sfile] ∨
      ∃ content tempFd temp,
        (readSection c content = .failed ∧ l = [.lock .readerEnter sfile, .read content,
          .put tempFd temp, .lock .readerExit sfile]) ∨
        readSection c content = .copied temp ∧
          (l = [.lock .readerEnter sfile, .read content, .put tempFd temp, .lock .readerExit sfile,
            .lock .writerEnter sfile, .lock .writerExit sfile] ∨
          ∃ fileFd, l = [.lock .readerEnter sfile, .read content, .put tempFd temp,
            .lock .readerExit sfile, .lock .writerEnter sfile, .truncate fileFd,
            .put fileFd (copyLines temp), .lock .writerExit sfile]) := by
  refine shows_bind.2 (shows_perform.2 fun _ => shows_bind.2 (shows_perform.2 fun file => ?_))
  cases file with
  | none =>
      refine (silent_respond fileUses_answer _ _).shows_bind fun _ => shows_perform.2 ?_
      intro _
      exact .inr (.inl rfl)
  | some fileFd =>
      refine shows_bind.2 (shows_perform.2 fun temp => ?_)
      cases temp with
      | none =>
          exact ((silent_close fileUses_answer _).bind fun _ =>
            silent_respond fileUses_answer _ _).shows fun _ => .inl rfl
      | some tempFd =>
          refine shows_bind.2 (shows_perform.2 fun content => ?_)
          rcases hread : editLines c.lineNumber c.string content with ⟨temp, placed⟩
          have hsection : readSection c content = if placed then .copied temp else .failed := by
            simp only [readSection, hread]
          simp only [Option.getD_some, hread, Option.isNone_some, Bool.and_false]
          refine shows_bind.2 (shows_perform.2 fun _ => ?_)
          refine (silent_close fileUses_answer _).shows_bind ?_
          intro _
          refine shows_bind.2 (shows_perform.2 fun _ => ?_)
          cases placed with
          | false =>
              refine ((silent_close fileUses_answer _).bind fun _ =>
                silent_respond fileUses_answer _ _).shows fun _ => ?_
              exact .inr (.inr ⟨content, tempFd, temp, .inl ⟨hsection, rfl⟩⟩)
          | true =>
              refine Shows.mono ?_ fun l _ h =>
                .inr (.inr ⟨content, tempFd, temp, .inr ⟨hsection, h⟩⟩)
              refine shows_bind.2 (shows_perform.2 fun _ => shows_bind.2 ?_)
              refine shows_perform.2 ?_
              intro file
              cases file with
              | none =>
                  refine (silent_close fileUses_answer _).shows_bind fun _ =>
                    (silent_respond fileUses_answer _ _).shows_bind fun _ =>
                    shows_perform.2 fun _ => ?_
                  exact .inl rfl
              | some fileFd =>
                  refine shows_bind.2 (shows_perform.2 fun _ => ?_)
                  refine (silent_close fileUses_answer _).shows_bind ?_
                  intro _
                  refine shows_bind.2 (shows_perform.2 fun _ => ?_)
                  refine ((silent_close fileUses_answer _).bind fun _ =>
                    silent_respond fileUses_answer _ _).shows fun _ => ?_
                  exact .inr ⟨fileFd, rfl⟩

/-! ## Two clients -/

/-- The edits `writeT f 1 x` and `writeT f 2 y`. -/
def twoEdits : Fin 2 → EditCommand
  | 0 => ⟨1, ['x'], by decide, by decide, by decide⟩
  | 1 => ⟨2, ['y'], by decide, by decide, by decide⟩

/-- Two edits that are not disturbed leave the content that the commands make of it one after the
    other; when both are done and replace different lines, this is the original one with both lines
    replaced. -/
theorem edits_kept {c : Fin 2 → EditCommand} {original : Text} {s : EditState (Fin 2)}
    (hs : (editMachine c original).ReachableUnder (Undisturbed c) s) :
    ((c 0).lineNumber ≠ (c 1).lineNumber → (∀ i, s.pc i = .done) →
      s.content = (c 0).replace ((c 1).replace original)) ∧
    ∃ order : List (Fin 2), order.Nodup ∧ (∀ i, i ∈ order ↔ s.pc i = .done) ∧
      s.content = order.foldl (fun content i => (c i).run content) original := by
  obtain ⟨order, hnodup, hdone, hrun, hreplace⟩ := (editInv hs).serial
  refine ⟨fun hne hall => ?_, order, hnodup, hdone, hrun⟩
  have hperm : order.Perm [1, 0] := by
    refine (List.perm_ext_iff_of_nodup hnodup (by decide)).2 ?_
    intro i
    exact iff_of_true ((hdone i).2 (hall i)) (by revert i; decide)
  have hcases : ∀ i j : Fin 2, i ≠ j → i = 0 ∧ j = 1 ∨ i = 1 ∧ j = 0 := by decide
  have hcomm : ∀ i ∈ order, ∀ j ∈ order, ∀ content,
      (c j).replace ((c i).replace content) = (c i).replace ((c j).replace content) := by
    intro i _ j _ content
    by_cases hij : i = j
    · rw [hij]
    · rcases hcases i j hij with ⟨rfl, rfl⟩ | ⟨rfl, rfl⟩
      · exact EditCommand.replace_comm hne.symm content
      · exact EditCommand.replace_comm hne content
  rw [hreplace, hperm.foldl_eq' hcomm]
  rfl

/-- The first handler edits the file, then the second. -/
theorem edits_kept_serial :
    ∃ s, (editMachine twoEdits "a\nb\n".toList).exec ⟨"a\nb\n".toList, fun _ => .start⟩
        [(0, .used 9 9), (0, .used 9 9), (1, .used 9 9), (1, .used 9 9)] = some s ∧
      s.content = (twoEdits 0).replace ((twoEdits 1).replace "a\nb\n".toList) := by
  obtain ⟨s, hrun, hexec, hdone⟩ : ∃ s,
      (editMachine twoEdits "a\nb\n".toList).execUnder (Undisturbed twoEdits)
        ⟨"a\nb\n".toList, fun _ => .start⟩
        [(0, .used 9 9), (0, .used 9 9), (1, .used 9 9), (1, .used 9 9)] = some s ∧
      (editMachine twoEdits "a\nb\n".toList).exec ⟨"a\nb\n".toList, fun _ => .start⟩
        [(0, .used 9 9), (0, .used 9 9), (1, .used 9 9), (1, .used 9 9)] = some s ∧
      ∀ i, s.pc i = .done :=
    ⟨_, rfl, rfl, by decide⟩
  have hs : (editMachine twoEdits "a\nb\n".toList).ReachableUnder (Undisturbed twoEdits) s :=
    Machine.ReachableUnder.exec _ (.init ⟨rfl, fun _ => rfl⟩) hrun
  exact ⟨s, hexec, (edits_kept hs).1 (by decide) hdone⟩

/-- Both handlers copy the file before either overwrites it: the edit of line 1 is lost. -/
theorem edits_not_always_kept :
    ∃ s, (editMachine twoEdits "a\nb\n".toList).exec ⟨"a\nb\n".toList, fun _ => .start⟩
        [(0, .used 9 9), (1, .used 9 9), (0, .used 9 9), (1, .used 9 9)] = some s ∧
      (editMachine twoEdits "a\nb\n".toList).Reachable s ∧
      (∀ i, s.pc i = .done) ∧ s.content = "a\ny\n".toList ∧
      s.content ≠ (twoEdits 0).replace ((twoEdits 1).replace "a\nb\n".toList) ∧
      s.content ≠ (twoEdits 0).run ((twoEdits 1).run "a\nb\n".toList) ∧
      s.content ≠ (twoEdits 1).run ((twoEdits 0).run "a\nb\n".toList) := by
  obtain ⟨s, hexec, hdone, hcontent⟩ : ∃ s, (editMachine twoEdits "a\nb\n".toList).exec
        ⟨"a\nb\n".toList, fun _ => .start⟩
        [(0, .used 9 9), (1, .used 9 9), (0, .used 9 9), (1, .used 9 9)] = some s ∧
      (∀ i, s.pc i = .done) ∧ s.content = "a\ny\n".toList :=
    ⟨_, rfl, by decide, by decide⟩
  refine ⟨s, hexec, Machine.Reachable.exec _ (.init ⟨rfl, fun _ => rfl⟩) hexec, hdone, hcontent, ?_⟩
  rw [hcontent]
  decide

end SystemProgramming.Server
