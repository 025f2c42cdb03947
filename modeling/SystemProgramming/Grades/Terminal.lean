import SystemProgramming.Grades.Pages
import SystemProgramming.Grades.Sorting
import SystemProgramming.Lib.Environment

set_option autoImplicit false

/-! # The terminal of the grade program

The program alone with its terminal and the files of its directory. A function that forks a child is
here what its child does: what it does to the files, what it prints, and what it writes into the
log, which is a file like the others. All calls succeed, but for the opening of a file that is not
there. What is printed goes to a terminal; whenever a child is forked, the buffer of its parent is
empty. -/

namespace SystemProgramming.Grades

open Function

/-! ## What the children print -/

/-- What the child of `searchStudent` prints; `printf` prints a `NULL` too. -/
def foundText : Option Found → Text
  | none => "\tStudent not found\n".toList
  | some found =>
      "\tStudent: ".toList ++ found.student ++ "\n\tGrade: ".toList ++
        found.grade.getD "(null)".toList ++ ['\n']

/-- `"%d:  %s, %s\n"` for each student, numbered from 0. -/
def studentLines (students : List Student) : Text :=
  students.zipIdx.flatMap fun (student, i) =>
    (toString i).toList ++ ":  ".toList ++ student.name ++ ", ".toList ++ student.grade ++ ['\n']

/-- The log entry of `sortAll` for a choice of the menu. -/
def sortMessage : ℤ → Text
  | 1 => "Sorted by 'Name' 'Ascending'.".toList
  | 2 => "Sorted by 'Name' 'Descending'.".toList
  | 3 => "Sorted by 'Grade' 'Ascending'.".toList
  | _ => "Sorted by 'Grade' 'Descending'.".toList

/-- What the child of `showAll` writes of a file. -/
def showAll {file : Text} (reads : FileReads file) : Text := reads.chunks.flatten

/-- An `int` of the program. -/
def InInt (n : ℤ) : Prop := -2147483648 ≤ n ∧ n ≤ 2147483647

instance (n : ℤ) : Decidable (InInt n) := inferInstanceAs (Decidable (_ ∧ _))

/-- What `listSome` computes with its numbers. -/
def PageInInt (numofEntries pageNumber : ℤ) : Prop :=
  InInt (numofEntries * pageNumber) ∧ InInt (numofEntries * pageNumber - numofEntries) ∧
    InInt (numofEntries * pageNumber - numofEntries + 1)

instance (numofEntries pageNumber : ℤ) : Decidable (PageInInt numofEntries pageNumber) :=
  inferInstanceAs (Decidable (_ ∧ _ ∧ _))

/-- The loops of `listSome` for any two numbers: where one is negative, nothing is in the page. -/
def listPage (numofEntries pageNumber : ℤ) {file : Text} (reads : FileReads file) : Text :=
  if 0 < numofEntries ∧ 0 < pageNumber then pageOutput numofEntries.toNat pageNumber.toNat reads
  else []

/-! ## The children -/

/-- `events.log` -/
def logName : Text := "events.log".toList

/-- The terminal, the files, and what the kernel and the memory of the children are free to do. -/
structure Terminal where
  /-- the lines that are typed and not yet read -/
  input : List Text
  files : Text → Option Text
  /-- what the children have printed, one after the other -/
  printed : List Text
  /-- what lies in memory behind the buffer of the record, in the child with this number -/
  memory : ℕ → Text
  /-- how the child with this number reads a file -/
  split : ℕ → (file : Text) → FileReads file

namespace Terminal

variable (w : Terminal)

/-- A child has left this content in the file. -/
def setFile (filename content : Text) : Terminal :=
  { w with files := update w.files filename (some content) }

/-- `logFile` -/
def log (task : Text) : Terminal :=
  w.setFile logName ((w.files logName).getD [] ++ (snprintf 200 (task ++ ['\n'])).1)

/-- A child has written something to the terminal and logged a message. -/
def wrote (text task : Text) : Terminal :=
  { w with printed := w.printed ++ [text] }.log (snprintf 200 task).1

/-- A child that prints something and logs a message; what is left in its buffer is written by the
    child of `logFile` too. -/
def report (text task : Text) : Terminal := w.wrote (childPrints terminalStream text) task

/-- A child that works on a file; without it it prints `missing`. -/
def withFile (filename : Option Text) (missing : Text) (work : Text → Text → Option Terminal) :
    Option Terminal :=
  match filename with
  | none => some (w.report missing "Error opening file".toList)
  | some filename =>
      match w.files filename with
      | none => some (w.report missing "Error opening file".toList)
      | some content => work filename content

/-- The child of `createFile`. -/
def createFile (filename : Text) : Terminal :=
  (w.setFile filename ((w.files filename).getD [])).report
    ("\tFile '".toList ++ filename ++ "' opened successfully\n".toList)
    ("File '".toList ++ filename ++ "' opened successfully".toList)

/-- The child of `addStudentGrade`. -/
def addStudentGrade (filename : Option Text) (name grade : Text) : Option Terminal :=
  w.withFile filename [] fun filename content =>
    some ((w.setFile filename
        (content ++ recordBytes (w.memory w.printed.length) name grade)).report
      "\tStudent grade added successfully.\n".toList
      ("Student grade added succesfully: '".toList ++ name ++ "', '".toList ++ grade ++
        "'.".toList))

/-- The child of `searchStudent`. -/
def searchStudent (filename : Option Text) (name : Text) : Option Terminal :=
  w.withFile filename [] fun filename content =>
    let found := Grades.searchStudent content name
    some (w.report (foundText found)
      ("Student named '".toList ++ name ++
        (if found.isSome then "' is found inside file: " else "' is not found inside file: ").toList
        ++ filename ++ ".".toList))

/-- The child of `sortAll`, which logs before it prints; it comes to no end when it leaves its
    array. -/
def sortFile (filename : Text) (choice : ℤ) : Option Terminal :=
  w.withFile (some filename) [] fun _ content =>
    match loadStudents content with
    | .error _ => none
    | .ok students =>
        match sortedFor choice students with
        | none => some { w with printed := w.printed ++ [[]] }
        | some sorted => some (w.wrote (studentLines sorted) (sortMessage choice))

/-- The child of `showAll`. -/
def showAll (filename : Text) : Option Terminal :=
  w.withFile (some filename) ("Error: Unable to open file ".toList ++ filename ++ ['\n'])
    fun _ content =>
      some (w.wrote (Grades.showAll (w.split w.printed.length content))
        ("All students insde '".toList ++ filename ++ "' are listed succesfully.".toList))

/-- The child of `listGrades`. -/
def listGrades (filename : Text) : Option Terminal :=
  w.withFile (some filename) ("\tError: Unable to open file ".toList ++ filename ++ ['\n'])
    fun _ content =>
      some (w.report (firstOutput (w.split w.printed.length content))
        ("First 5 students in '".toList ++ filename ++ "' are listed succesfully.".toList))

/-- Behind the range of `int` its numbers are undefined. -/
def listSome (numofEntries pageNumber : ℤ) (filename : Text) : Option Terminal :=
  w.withFile (some filename) ("\tError: Unable to open file ".toList ++ filename ++ ['\n'])
    fun _ content =>
      if PageInInt numofEntries pageNumber then
        some (w.report (listPage numofEntries pageNumber (w.split w.printed.length content))
          ("In '".toList ++ filename ++ "' students from ".toList ++
            (toString (numofEntries * pageNumber - numofEntries + 1)).toList ++ "th to ".toList ++
            (toString (numofEntries * pageNumber)).toList ++ "th entries are listed.".toList))
      else none

/-- The child behind a call of a function that forks one. -/
def child : GradeCall → Option Terminal
  | .createFile filename => some (w.createFile filename)
  | .addStudentGrade filename name grade => w.addStudentGrade filename name grade
  | .searchStudent filename name => w.searchStudent filename name
  | .sortFile filename choice => w.sortFile filename choice
  | .showAll filename => w.showAll filename
  | .listGrades filename => w.listGrades filename
  | .listSome numofEntries pageNumber filename => w.listSome numofEntries pageNumber filename
  | .readCommand | .readMenu | .brk _ | .logFile _ => none

/-! ## The reads -/

/-- A `read` from the terminal: of one line at most, and the rest of it is left. -/
def nextRead (size : ℕ) : List Text → ReadAnswer size × List Text
  | [] => (readOf size [], [])
  | line :: input =>
      (readOf size line, if line.length ≤ size then input else line.drop size :: input)

/-- The reads of the menu, `n` at most. -/
def menuReads : ℕ → List Text → MenuReads × List Text
  | 0, input => (⟨[], .failed, List.forall_mem_nil _, MenuAnswer.noConfusion⟩, input)
  | n + 1, input =>
      let next := nextRead 5 input
      if h : menuAnswer next.1 = .refused then
        let reads := menuReads n next.2
        (⟨next.1 :: reads.1.before, reads.1.last,
          List.forall_mem_cons.2 ⟨h, reads.1.refused⟩, reads.1.decides⟩, reads.2)
      else (⟨[], next.1, List.forall_mem_nil _, h⟩, next.2)

/-- What is refused is not empty, so that there are no more reads than characters and lines. -/
def readMenu (input : List Text) : MenuReads × List Text :=
  menuReads (input.flatten.length + input.length + 1) input

/-- The calls of the program. -/
def answer (w : Terminal) : (c : GradeCall) → Option (GradeReply c × Terminal)
  | .readCommand =>
      let next := nextRead 90 w.input
      some (next.1, { w with input := next.2 })
  | .readMenu =>
      let reads := readMenu w.input
      some (reads.1, { w with input := reads.2 })
  | .brk _ => some (true, w)
  | .logFile message => some ((), w.log message)
  | .createFile filename => (w.child (.createFile filename)).map (Prod.mk true)
  | .addStudentGrade filename name grade =>
      (w.child (.addStudentGrade filename name grade)).map (Prod.mk true)
  | .searchStudent filename name => (w.child (.searchStudent filename name)).map (Prod.mk true)
  | .sortFile filename choice => (w.child (.sortFile filename choice)).map (Prod.mk true)
  | .showAll filename => (w.child (.showAll filename)).map (Prod.mk true)
  | .listGrades filename => (w.child (.listGrades filename)).map (Prod.mk true)
  | .listSome numofEntries pageNumber filename =>
      (w.child (.listSome numofEntries pageNumber filename)).map (Prod.mk true)

end Terminal

end SystemProgramming.Grades
