import SystemProgramming.Grades.Terminal
import SystemProgramming.Lib.PathName
import SystemProgramming.Lib.Service
import SystemProgramming.Lib.StableSort

set_option autoImplicit false

/-! # The grade book

What the program is for: a file is a list of records, and its functions add one, look one up, and
show them sorted or page by page. `gradebook` is this service; it does not serve what would not be a
record, more records than `sortAll` has room for, pages that are none, the log, and names that are
paths: two of them may lead to one file. The children implement it (`child_gradebook`). -/

namespace SystemProgramming.Grades

open Function

/-- The books by name, each a list of records. -/
abbrev Books := Text → Option (List Record)

/-- The name of a book: an entry of the directory, other than the log. -/
def BookName (filename : Text) : Prop := IsEntryName filename ∧ filename ≠ logName

instance (filename : Text) : Decidable (BookName filename) := inferInstanceAs (Decidable (_ ∧ _))

/-! ## The service -/

/-- The record of a name and a grade. -/
def Record.of (name grade : Text) : Option Record :=
  if h : (1 ≤ name.length ∧ name.length ≤ 29) ∧ (',' ∉ name ∧ '\n' ∉ name ∧ nul ∉ name) ∧
      grade.length = 2 ∧ grade.all Char.isAlpha = true then
    some ⟨name, grade, h.1.1, h.1.2, h.2.1.1, h.2.1.2.1, h.2.1.2.2, h.2.2.1,
      List.all_eq_true.1 h.2.2.2⟩
  else none

/-- The records in the order that a choice of the menu stands for: those called ascending are
    descending. Records with the same key keep their order. -/
def sortRecords (choice : ℤ) (records : List Record) : Option (List Record) :=
  match choice with
  | 1 => some (records.mergeSort fun a b => 0 ≤ strcmp a.name b.name)
  | 2 => some (records.mergeSort fun a b => strcmp a.name b.name ≤ 0)
  | 3 => some (records.mergeSort fun a b => 0 ≤ strcmp a.grade b.grade)
  | 4 => some (records.mergeSort fun a b => strcmp a.grade b.grade ≤ 0)
  | _ => none

/-- A page, with the newline of the record in front of it. -/
def pageRecords (numofEntries pageNumber : ℕ) (records : List Record) : Text :=
  (if pageNumber = 1 ∨ records.length < (pageNumber - 1) * numofEntries then [] else ['\n']) ++
    recordFile ((records.take (numofEntries * pageNumber)).drop ((pageNumber - 1) * numofEntries))

/-- The file that a child works on. -/
def GradeCall.filename : GradeCall → Option Text
  | .addStudentGrade filename _ _ | .searchStudent filename _ => filename
  | .createFile filename | .sortFile filename _ | .showAll filename | .listGrades filename
  | .listSome _ _ filename => some filename
  | .readCommand | .readMenu | .brk _ | .logFile _ => none

/-- A child and the file that it works on: what becomes of the file, and what is printed. -/
def bookAnswer (c : GradeCall) (book : Option (List Record)) : Option (Option (List Record) × Text) :=
  match c, book with
  | .createFile filename, book =>
      some (some (book.getD []), "\tFile '".toList ++ filename ++ "' opened successfully\n".toList)
  | .addStudentGrade _ name grade, some records =>
      (Record.of name grade).map fun r =>
        (some (records ++ [r]), "\tStudent grade added successfully.\n".toList)
  | .searchStudent _ name, some records =>
      some (some records, foundText
        ((records.find? fun r => r.name = name).map fun r => ⟨r.name, some (' ' :: r.grade)⟩))
  | .sortFile _ choice, some records =>
      if records.length ≤ 100 then
        (sortRecords choice records).map fun sorted =>
          (some records, studentLines (sorted.map Record.student))
      else none
  | .showAll _, some records => some (some records, recordFile records)
  | .listGrades _, some records => some (some records, recordFile (records.take 5))
  | .listSome numofEntries pageNumber _, some records =>
      if (1 ≤ numofEntries ∧ 1 ≤ pageNumber) ∧ numofEntries * pageNumber ≤ 2147483647 then
        some (some records, pageRecords numofEntries.toNat pageNumber.toNat records)
      else none
  | .addStudentGrade _ _ _, none | .searchStudent _ _, none | .sortFile _ _, none => some (none, [])
  | .showAll filename, none =>
      some (none, "Error: Unable to open file ".toList ++ filename ++ ['\n'])
  | .listGrades filename, none | .listSome _ _ filename, none =>
      some (none, "\tError: Unable to open file ".toList ++ filename ++ ['\n'])
  | .readCommand, _ | .readMenu, _ | .brk _, _ | .logFile _, _ => none

/-- The children on the books. Without a file name, no file is opened. -/
def gradebook : Service Books GradeCall Text where
  serve books c :=
    match c.filename with
    | none => (bookAnswer c none).map fun r => (books, r.2)
    | some filename =>
        if BookName filename then
          (bookAnswer c (books filename)).map fun r => (update books filename r.1, r.2)
        else none

/-! ## Files of records -/

section Files

variable {records : List Record}

theorem recordFile_append (records records' : List Record) :
    recordFile (records ++ records') = recordFile records ++ recordFile records' :=
  List.flatMap_append

theorem lines_recordFile (records : List Record) :
    lines (recordFile records) = records.map fun r => r.line ++ ['\n'] := by
  have hlines : IsLines (records.map fun r => r.line ++ ['\n']) := by
    induction records with
    | nil => exact .nil
    | cons r records ih => exact .cons r.line_newline ih
  have hflat : recordFile records = (records.map fun r => r.line ++ ['\n']).flatten := by
    rw [recordFile, List.flatMap_def]
    rfl
  rw [hflat, hlines.lines_flatten]

theorem count_recordFile (records : List Record) :
    (recordFile records).count '\n' = records.length := by
  induction records with
  | nil => rfl
  | cons r records ih =>
      rw [recordFile_cons, List.count_append, List.count_eq_zero_of_not_mem r.line_newline,
        List.count_cons_self, ih, Nat.zero_add, List.length_cons]

/-- Some of the lines of a file of records are those of as many records. -/
theorem flatten_take_drop_lines (records : List Record) (m k : ℕ) :
    (((lines (recordFile records)).take m).drop k).flatten
      = recordFile ((records.take m).drop k) := by
  rw [lines_recordFile, ← List.map_take, ← List.map_drop, recordFile, List.flatMap_def]
  rfl

theorem firstOutput_recordFile (reads : FileReads (recordFile records)) :
    firstOutput reads = recordFile (records.take 5) := by
  rw [firstOutput_eq, pageText, flatten_take_drop_lines]
  rfl

theorem pageOutput_recordFile {n p : ℕ} (hn : 1 ≤ n) (hp : 1 ≤ p)
    (reads : FileReads (recordFile records)) :
    pageOutput n p reads = pageRecords n p records := by
  rw [pageOutput_eq hn hp, count_recordFile, pageText, flatten_take_drop_lines]
  rfl

/-- The first record of the name is found, whatever the name is. -/
theorem searchStudent_recordFile (records : List Record) (name : Text) :
    searchStudent (recordFile records) name =
      (records.find? fun r => r.name = name).map fun r => ⟨r.name, some (' ' :: r.grade)⟩ := by
  induction records with
  | nil => rfl
  | cons r records ih =>
      have hne : r.name ≠ [] := List.ne_nil_of_length_pos r.name_pos
      have hline : searchLine name () r.line =
          if r.name = name then .error ⟨r.name, some (' ' :: r.grade)⟩ else .ok () :=
        searchLine_record hne r.name_comma (r.grade_not_mem rfl) name
      rw [searchStudent, recordFile_cons, lineLoop_append r.line_newline r.line_nul r.line_length,
        hline]
      by_cases hname : r.name = name
      · rw [if_pos hname, List.find?_cons_of_pos (by simpa using hname)]
        rfl
      · rw [if_neg hname, List.find?_cons_of_neg (by simpa using hname)]
        exact ih

theorem recordBytes_of {name grade : Text} {r : Record} (h : Record.of name grade = some r)
    (memory : Text) : recordBytes memory name grade = recordFile [r] := by
  unfold Record.of at h
  split at h
  · next hr =>
      cases h
      have htakes : TakesOnlyLine name grade := takesOnlyLine_iff.2 (by omega)
      rw [recordBytes_of_fits htakes]
      exact (List.flatMap_singleton _ _).symm
  · cases h

/-- The array of `sortAll` has room for the records. -/
theorem loadStudents_of_le (hroom : records.length ≤ 100) :
    loadStudents (recordFile records) = .ok (records.map Record.student) := by
  rw [loadStudents, lineLoop_recordFile records (Nat.zero_le _), List.length_nil, Nat.zero_add]
  exact if_pos hroom

/-! ## The sorts -/

/-- A sort of the students is the stable sort of their records. -/
theorem bubbleSort_students {swaps : Student → Student → Bool} (horder : Orders swaps)
    {le : Record → Record → Bool} (hle : ∀ a b, le a b = !swaps a.student b.student) :
    bubbleSort swaps (records.map Record.student) (records.map Record.student).length
      = (records.mergeSort le).map Record.student := by
  rw [bubbleSort_eq_mergeSort horder]
  exact (List.map_mergeSort fun a _ b _ => hle a b).symm

theorem not_decide_lt (n : ℤ) : decide (0 ≤ n) = !decide (n < 0) := by
  rw [← decide_not]
  exact decide_eq_decide.2 Int.not_lt.symm

theorem not_decide_gt (n : ℤ) : decide (n ≤ 0) = !decide (n > 0) := by
  rw [← decide_not]
  exact decide_eq_decide.2 Int.not_lt.symm

/-- The space in front of the grades does not matter. -/
theorem strcmp_grade (a b : Record) :
    strcmp a.student.grade b.student.grade = strcmp a.grade b.grade := by
  show strcmp (' ' :: a.grade) (' ' :: b.grade) = _
  rw [strcmp, if_neg (Nat.lt_irrefl _), if_neg (Nat.lt_irrefl _)]

theorem sortedFor_students {choice : ℤ} {sorted : List Record}
    (h : sortRecords choice records = some sorted) :
    sortedFor choice (records.map Record.student) = some (sorted.map Record.student) := by
  unfold sortRecords at h
  split at h
  · cases h
    exact congrArg some (bubbleSort_students (orders_ascending Student.name)
      fun a b => not_decide_lt _)
  · cases h
    exact congrArg some (bubbleSort_students (orders_descending Student.name)
      fun a b => not_decide_gt _)
  · cases h
    exact congrArg some (bubbleSort_students (orders_ascending Student.grade)
      fun a b => by rw [strcmp_grade]; exact not_decide_lt _)
  · cases h
    exact congrArg some (bubbleSort_students (orders_descending Student.grade)
      fun a b => by rw [strcmp_grade]; exact not_decide_gt _)
  · cases h

end Files

/-! ## What is printed once -/

section Flushes

theorem flushes_of_newline (text : Text) {rest : Text} (h : '\n' ∈ rest.getLast?) :
    terminalStream.Flushes (text ++ rest) :=
  .inr ⟨'\n', List.mem_getLast?_append_of_mem_getLast? h, rfl⟩

theorem flushes_newline (text : Text) : terminalStream.Flushes (text ++ ['\n']) :=
  flushes_of_newline text rfl

theorem flushes_append {text rest : Text} (htext : terminalStream.Flushes text)
    (hrest : terminalStream.Flushes rest) : terminalStream.Flushes (text ++ rest) := by
  rcases hrest with rfl | ⟨c, hc, hend⟩
  · rwa [List.append_nil]
  · exact .inr ⟨c, List.mem_getLast?_append_of_mem_getLast? hc, hend⟩

/-- Lines one after the other. -/
theorem flushes_flatMap {α : Type} {f : α → Text} (hf : ∀ a, terminalStream.Flushes (f a))
    (items : List α) : terminalStream.Flushes (items.flatMap f) := by
  induction items with
  | nil => exact .inl rfl
  | cons a items ih => exact flushes_append (hf a) ih

theorem flushes_recordFile (records : List Record) : terminalStream.Flushes (recordFile records) :=
  flushes_flatMap (fun _ => flushes_newline _) records

theorem flushes_foundText (found : Option Found) : terminalStream.Flushes (foundText found) := by
  cases found with
  | none => exact flushes_of_newline [] (by decide)
  | some found => exact flushes_newline _

theorem flushes_studentLines (students : List Student) :
    terminalStream.Flushes (studentLines students) :=
  flushes_flatMap (fun _ => flushes_newline _) _

/-- Every answer ends with its line, so that on a terminal nothing of it is printed twice. -/
theorem bookAnswer_flushes {c : GradeCall} {book : Option (List Record)}
    {r : Option (List Record) × Text} (h : bookAnswer c book = some r) :
    terminalStream.Flushes r.2 := by
  cases book with
  | none =>
      cases c with
      | createFile filename =>
          cases h
          exact flushes_of_newline _ (by decide)
      | addStudentGrade _ _ _ | searchStudent _ _ | sortFile _ _ =>
          cases h
          exact .inl rfl
      | showAll _ | listGrades _ | listSome _ _ _ =>
          cases h
          exact flushes_newline _
      | readCommand | readMenu | brk _ | logFile _ => cases h
  | some records =>
      cases c with
      | createFile _ =>
          cases h
          exact flushes_of_newline _ (by decide)
      | addStudentGrade _ name grade =>
          obtain ⟨_, -, rfl⟩ := Option.map_eq_some_iff.1 h
          exact flushes_of_newline [] (by decide)
      | searchStudent _ name =>
          cases h
          exact flushes_foundText _
      | sortFile _ choice =>
          obtain ⟨-, hsort⟩ := Option.ite_none_right_eq_some.1 h
          obtain ⟨sorted, -, rfl⟩ := Option.map_eq_some_iff.1 hsort
          exact flushes_studentLines _
      | showAll _ | listGrades _ =>
          cases h
          exact flushes_recordFile _
      | listSome n p _ =>
          obtain ⟨-, hpage⟩ := Option.ite_none_right_eq_some.1 h
          cases hpage
          refine flushes_append ?_ (flushes_recordFile _)
          split
          · exact .inl rfl
          · exact flushes_newline []
      | readCommand | readMenu | brk _ | logFile _ => cases h

end Flushes

/-! ## The children serve the books -/

/-- The files are the books. -/
def Keeps (w : Terminal) (books : Books) : Prop :=
  ∀ filename, BookName filename → w.files filename = (books filename).map recordFile

/-- A child has printed this, and left these books. -/
structure Shows (w : Terminal) (books : Books) (text : Text) (w' : Terminal) : Prop where
  keeps : Keeps w' books
  printed : w'.printed = w.printed ++ [text]
  input : w'.input = w.input

section Children

variable {w w' : Terminal} {books : Books} {filename : Text}

theorem Keeps.log (h : Keeps w books) (message : Text) : Keeps (w.log message) books :=
  fun f hf => (update_of_ne hf.2 _ _).trans (h f hf)

theorem Keeps.setFile (h : Keeps w books) (filename : Text) (records : List Record) :
    Keeps (w.setFile filename (recordFile records)) (update books filename (some records)) := by
  intro f hf
  show update w.files filename _ f = _
  by_cases heq : f = filename
  · rw [heq, update_self, update_self]
    rfl
  · rw [update_of_ne heq, update_of_ne heq]
    exact h f hf

theorem shows_wrote (h : Keeps w books) (text message : Text) :
    Shows w books text (w.wrote text message) :=
  ⟨Keeps.log (w := { w with printed := w.printed ++ [text] }) h _, rfl, rfl⟩

theorem shows_report (h : Keeps w books) {text : Text} (htext : terminalStream.Flushes text)
    (message : Text) : Shows w books text (w.report text message) := by
  rw [Terminal.report, childPrints_flushes rfl htext]
  exact shows_wrote h text message

theorem shows_setFile (h : Keeps w books) (records : List Record) {text : Text}
    (htext : terminalStream.Flushes text) (message : Text) :
    Shows w (update books filename (some records)) text
      ((w.setFile filename (recordFile records)).report text message) :=
  have hshows := shows_report (h.setFile filename records) htext message
  ⟨hshows.keeps, hshows.printed, hshows.input⟩

theorem Terminal.withFile_some {missing : Text} {work : Text → Text → Option Terminal}
    {content : Text} (h : w.files filename = some content) :
    w.withFile (some filename) missing work = work filename content := by
  rw [withFile, h]

theorem Terminal.withFile_none {missing : Text} {work : Text → Text → Option Terminal}
    (h : w.files filename = none) :
    w.withFile (some filename) missing work
      = some (w.report missing "Error opening file".toList) := by
  rw [withFile, h]

/-- A child serves what the service makes of its book. -/
theorem child_bookAnswer {c : GradeCall} (hkeeps : Keeps w books) (hfile : c.filename = some filename)
    (hname : BookName filename) {r : Option (List Record) × Text}
    (hserve : bookAnswer c (books filename) = some r) :
    ∃ w', w.child c = some w' ∧ Shows w (update books filename r.1) r.2 w' := by
  have hcontent := hkeeps filename hname
  have htext := bookAnswer_flushes hserve
  -- a child that leaves the book as it is
  have hsame : ∀ {w' text}, Shows w books text w' →
      Shows w (update books filename (books filename)) text w' := by
    intro w' text h
    rwa [update_eq_self]
  cases hbook : books filename with
  | none =>
      rw [hbook] at hserve hsame hcontent
      cases c with
      | createFile f =>
          cases hfile
          cases hserve
          refine ⟨_, rfl, ?_⟩
          rw [Terminal.createFile, hcontent]
          exact shows_setFile hkeeps [] htext _
      | addStudentGrade f name grade =>
          obtain rfl : f = some filename := hfile
          cases hserve
          have hchild : w.addStudentGrade (some filename) name grade = _ :=
            Terminal.withFile_none hcontent
          exact ⟨_, hchild, hsame (shows_report hkeeps htext _)⟩
      | searchStudent f name =>
          obtain rfl : f = some filename := hfile
          cases hserve
          have hchild : w.searchStudent (some filename) name = _ := Terminal.withFile_none hcontent
          exact ⟨_, hchild, hsame (shows_report hkeeps htext _)⟩
      | sortFile f choice =>
          cases hfile
          cases hserve
          have hchild : w.sortFile filename choice = _ := Terminal.withFile_none hcontent
          exact ⟨_, hchild, hsame (shows_report hkeeps htext _)⟩
      | showAll f =>
          cases hfile
          cases hserve
          have hchild : w.showAll filename = _ := Terminal.withFile_none hcontent
          exact ⟨_, hchild, hsame (shows_report hkeeps htext _)⟩
      | listGrades f =>
          cases hfile
          cases hserve
          have hchild : w.listGrades filename = _ := Terminal.withFile_none hcontent
          exact ⟨_, hchild, hsame (shows_report hkeeps htext _)⟩
      | listSome n p f =>
          cases hfile
          cases hserve
          have hchild : w.listSome n p filename = _ := Terminal.withFile_none hcontent
          exact ⟨_, hchild, hsame (shows_report hkeeps htext _)⟩
      | readCommand | readMenu | brk _ | logFile _ => cases hserve
  | some records =>
      rw [hbook] at hserve hsame hcontent
      cases c with
      | createFile f =>
          cases hfile
          cases hserve
          refine ⟨_, rfl, ?_⟩
          rw [Terminal.createFile, hcontent]
          exact shows_setFile hkeeps records htext _
      | addStudentGrade f name grade =>
          obtain rfl : f = some filename := hfile
          obtain ⟨r, hr, rfl⟩ := Option.map_eq_some_iff.1 hserve
          have hchild : w.addStudentGrade (some filename) name grade = _ :=
            Terminal.withFile_some hcontent
          refine ⟨_, hchild, ?_⟩
          rw [recordBytes_of hr, ← recordFile_append]
          exact shows_setFile hkeeps _ htext _
      | searchStudent f name =>
          obtain rfl : f = some filename := hfile
          cases hserve
          have hchild : w.searchStudent (some filename) name = _ := Terminal.withFile_some hcontent
          refine ⟨_, hchild, hsame ?_⟩
          rw [← searchStudent_recordFile] at htext ⊢
          exact shows_report hkeeps htext _
      | sortFile f choice =>
          cases hfile
          obtain ⟨hroom, hsort⟩ := Option.ite_none_right_eq_some.1 hserve
          obtain ⟨sorted, hsorted, rfl⟩ := Option.map_eq_some_iff.1 hsort
          have hload := loadStudents_of_le hroom
          refine ⟨w.wrote (studentLines (sorted.map Record.student)) (sortMessage choice), ?_,
            hsame (shows_wrote hkeeps _ _)⟩
          show w.sortFile filename choice = _
          rw [Terminal.sortFile, Terminal.withFile_some hcontent, hload]
          dsimp only
          rw [sortedFor_students hsorted]
      | showAll f =>
          cases hfile
          cases hserve
          have hchild : w.showAll filename = _ := Terminal.withFile_some hcontent
          refine ⟨_, hchild, hsame ?_⟩
          rw [Grades.showAll, (w.split _ _).content]
          exact shows_wrote hkeeps _ _
      | listGrades f =>
          cases hfile
          cases hserve
          have hchild : w.listGrades filename = _ := Terminal.withFile_some hcontent
          refine ⟨_, hchild, hsame ?_⟩
          rw [firstOutput_recordFile]
          exact shows_report hkeeps htext _
      | listSome n p f =>
          cases hfile
          obtain ⟨⟨⟨hn, hp⟩, hint⟩, hserve⟩ := Option.ite_none_right_eq_some.1 hserve
          cases hserve
          have hpage : PageInInt n p := by
            have hle : n * 1 ≤ n * p := Int.mul_le_mul_of_nonneg_left hp (by omega)
            unfold PageInInt InInt
            omega
          have hchild : w.listSome n p filename = _ := Terminal.withFile_some hcontent
          rw [if_pos hpage, listPage, if_pos ⟨by omega, by omega⟩,
            pageOutput_recordFile (by omega) (by omega)] at hchild
          exact ⟨_, hchild, hsame (shows_report hkeeps htext _)⟩
      | readCommand | readMenu | brk _ | logFile _ => cases hserve

/-- **The children are the grade book.** -/
theorem child_gradebook {c : GradeCall} (hkeeps : Keeps w books) {books' : Books} {text : Text}
    (hserve : gradebook.serve books c = some (books', text)) :
    ∃ w', w.child c = some w' ∧ Shows w books' text w' := by
  unfold gradebook at hserve
  dsimp only at hserve
  cases hfile : c.filename with
  | none =>
      rw [hfile] at hserve
      obtain ⟨r, hr, heq⟩ := Option.map_eq_some_iff.1 hserve
      cases heq
      cases c with
      | addStudentGrade f name grade =>
          obtain rfl : f = none := hfile
          cases hr
          exact ⟨_, rfl, shows_report hkeeps (.inl rfl) _⟩
      | searchStudent f name =>
          obtain rfl : f = none := hfile
          cases hr
          exact ⟨_, rfl, shows_report hkeeps (.inl rfl) _⟩
      | readCommand | readMenu | brk _ | logFile _ => cases hr
      | _ => cases hfile
  | some filename =>
      rw [hfile] at hserve
      obtain ⟨hname, hserve⟩ := Option.ite_none_right_eq_some.1 hserve
      obtain ⟨r, hr, heq⟩ := Option.map_eq_some_iff.1 hserve
      cases heq
      exact child_bookAnswer hkeeps hfile hname hr

end Children

end SystemProgramming.Grades
