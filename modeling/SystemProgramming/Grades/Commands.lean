import SystemProgramming.Lib.Monitor
import SystemProgramming.Lib.CText

set_option autoImplicit false

/-! # The command loop of the grade program

`main` splits the line that it reads at the quotes, and compares the first token with the names of
the commands; each command pulls its further tokens out of the line with `strtok`. `parseCommand` is
this dispatch, and `none` is the `NULL` that reaches `strcmp` or `atoi`. `pass` is one pass of the
loop: the read, the dispatch and the calls of the functions that do the work, each of which forks a
child and waits for it. What is printed is left out, but for the log. -/

namespace SystemProgramming.Grades

/-! ## The commands -/

/-- What `main` takes a line for. -/
inductive Command
  | gtuStudentGrades (filename : Text)
  | quit
  | manual
  | defaultTest
  | addStudentGrade (name grade : Text)
  | searchStudent (name : Text)
  | sortAll (filename : Text)
  | showAll (filename : Text)
  | listGrades (filename : Text)
  | listSome (numofEntries pageNumber : ℤ) (filename : Text)
  /-- `Invalid command format.` -/
  | invalidFormat
  /-- `Grade is not valid.` -/
  | invalidGrade
  /-- one of the numbers of `listSome` is 0; nothing is said about it -/
  | zeroNumber
  /-- `Invalid command.` -/
  | invalid
deriving DecidableEq

/-- The grades that `addStudentGrade` accepts. -/
def validGrades : List Text :=
  ["AA", "BA", "BB", "CB", "CC", "DC", "DD", "FF", "NA", "VF"].map String.toList

/-- The delimiters of every `strtok` of `main`. -/
def quote : Text := ['"']

/-- A command with one argument. -/
def parseArgument (command : Text → Command) (rest : Text) : Command :=
  match (strtok quote rest).1 with
  | none => .invalidFormat
  | some token => command token

/-- The branch of `addStudentGrade`. -/
def parseAddStudentGrade (rest : Text) : Command :=
  let (name, rest) := strtok quote rest
  let (_, rest) := strtok quote rest
  let (grade, _) := strtok quote rest
  match name, grade with
  | some name, some grade =>
      if validGrades.contains (grade.map Char.toUpper) then
        .addStudentGrade (name.map Char.toLower) (grade.map Char.toUpper)
      else .invalidGrade
  | _, _ => .invalidFormat

/-- The branch of `listSome`: its numbers go to `atoi` as they come. -/
def parseListSome (rest : Text) : Option Command :=
  let (token1, rest) := strtok quote rest
  let (_, rest) := strtok quote rest
  let (token2, rest) := strtok quote rest
  match token1, token2 with
  | some token1, some token2 =>
      if atoi token1 = 0 ∨ atoi token2 = 0 then some .zeroNumber
      else
        let (_, rest) := strtok quote rest
        some (parseArgument (.listSome (atoi token1) (atoi token2)) rest)
  | _, _ => none

/-- The comparisons of `main` with the first token of the line. -/
def parseCommand (command : Text) : Option Command :=
  match strtok quote command with
  | (none, _) => none
  | (some token, rest) =>
      if token = "gtuStudentGrades ".toList then some (parseArgument .gtuStudentGrades rest)
      else if token = "quit".toList then some .quit
      else if token = "gtuStudentGrades".toList then some .manual
      else if token = "defaultTest".toList then some .defaultTest
      else if token = "addStudentGrade ".toList then some (parseAddStudentGrade rest)
      else if token = "searchStudent ".toList then
        some (parseArgument (fun name => .searchStudent (name.map Char.toLower)) rest)
      else if token = "sortAll ".toList then some (parseArgument .sortAll rest)
      else if token = "showAll ".toList then some (parseArgument .showAll rest)
      else if token = "listGrades ".toList then some (parseArgument .listGrades rest)
      else if token = "listSome ".toList then parseListSome rest
      else some .invalid

/-- The tokens that `main` needs are there: a first one, and for `listSome` the two numbers, with
    whatever stands between their quotes. -/
def Tokenized (command : Text) : Prop :=
  tokens '"' command ≠ [] ∧
    ((tokens '"' command).head? = some "listSome ".toList → 4 ≤ (tokens '"' command).length)

theorem parseListSome_eq_none {rest : Text} :
    parseListSome rest = none ↔ (tokens '"' rest).length < 3 := by
  unfold parseListSome quote
  simp only [strtok_fst, tokens_strtok]
  match tokens '"' rest with
  | [] | [_] | [_, _] => simp
  | token1 :: _ :: token2 :: _ =>
      simp only [List.head?_cons, List.tail_cons, List.length_cons]
      split <;> simp

/-- A command that adds no student. -/
def AddsNobody (answer : Option Command) : Prop :=
  ∃ c, answer = some c ∧ ∀ name grade, c ≠ .addStudentGrade name grade

namespace AddsNobody

theorem ite {p : Prop} [Decidable p] {answer answer' : Option Command} (h : AddsNobody answer)
    (h' : AddsNobody answer') : AddsNobody (if p then answer else answer') := by
  split
  · exact h
  · exact h'

theorem command {c : Command} (h : ∀ name grade, c ≠ .addStudentGrade name grade) :
    AddsNobody (some c) := ⟨c, rfl, h⟩

theorem argument {f : Text → Command} (h : ∀ text name grade, f text ≠ .addStudentGrade name grade)
    (rest : Text) : AddsNobody (some (parseArgument f rest)) := by
  refine command ?_
  unfold parseArgument
  split
  · exact nofun
  · exact h _

theorem ne {answer : Option Command} (h : AddsNobody answer) (name grade : Text) :
    answer ≠ some (.addStudentGrade name grade) := by
  obtain ⟨c, rfl, hc⟩ := h
  exact fun heq => hc name grade (Option.some.inj heq)

end AddsNobody

/-- What `main` does with a first token: two of the branches look further. -/
theorem parseCommand_of_token {command token rest : Text}
    (h : strtok quote command = (some token, rest)) :
    (token = "listSome ".toList ∧ parseCommand command = parseListSome rest) ∨
      (token = "addStudentGrade ".toList ∧
        parseCommand command = some (parseAddStudentGrade rest)) ∨
      (token ≠ "listSome ".toList ∧ AddsNobody (parseCommand command)) := by
  unfold parseCommand
  rw [h]
  dsimp only
  by_cases hlist : token = "listSome ".toList
  · subst hlist
    exact Or.inl ⟨rfl, rfl⟩
  by_cases hadd : token = "addStudentGrade ".toList
  · subst hadd
    exact Or.inr (Or.inl ⟨rfl, rfl⟩)
  refine Or.inr (Or.inr ⟨hlist, ?_⟩)
  rw [if_neg hlist, if_neg hadd]
  refine .ite (.argument ?_ rest) (.ite (.command ?_) (.ite (.command ?_) (.ite (.command ?_)
    (.ite (.argument ?_ rest) (.ite (.argument ?_ rest) (.ite (.argument ?_ rest)
      (.ite (.argument ?_ rest) (.command ?_))))))))
  all_goals exact nofun

theorem parseCommand_eq_none {command : Text} :
    parseCommand command = none ↔ ¬ Tokenized command := by
  have htail := tokens_strtok '"' command
  have hhead := strtok_fst '"' command
  unfold Tokenized
  cases hstrtok : strtok ['"'] command with
  | mk token rest =>
      rw [hstrtok] at htail hhead
      cases htokens : tokens '"' command with
      | nil =>
          rw [htokens] at hhead
          obtain rfl : token = none := hhead
          refine iff_of_true ?_ fun h => h.1 rfl
          unfold parseCommand quote
          rw [hstrtok]
      | cons t ts =>
          rw [htokens] at htail hhead
          obtain rfl : token = some t := hhead
          obtain rfl : tokens '"' rest = ts := htail
          rcases parseCommand_of_token hstrtok with
            ⟨hlist, hparse⟩ | ⟨hadd, hparse⟩ | ⟨hlist, hother⟩
          · rw [hparse, parseListSome_eq_none, hlist]
            simp only [ne_eq, reduceCtorEq, not_false_eq_true, true_and, List.head?_cons,
              true_implies, List.length_cons]
            omega
          · rw [hparse, hadd]
            refine iff_of_false nofun fun h => h ⟨nofun, fun hhead => ?_⟩
            exact absurd (Option.some.inj hhead) (by decide)
          · obtain ⟨c, hparse, -⟩ := hother
            rw [hparse]
            exact iff_of_false nofun fun h =>
              h ⟨nofun, fun hhead => absurd (Option.some.inj hhead) hlist⟩

/-! ## The calls of the program -/

/-- What `read(STDIN_FILENO, …, size)` answers; no bytes at all are the end of the input. -/
inductive ReadAnswer (size : ℕ)
  /-- −1 -/
  | failed
  | bytes (text : Text) (h : text.length ≤ size)

/-- A `read` of a text that delivers as much of it as it can. -/
def readOf (size : ℕ) (text : Text) : ReadAnswer size :=
  .bytes (text.take size) (List.length_take_le size text)

/-- The string that is left of a line when its last byte is overwritten with a NUL. -/
def lineString (text : Text) : Text := cString text.dropLast

/-- How a read of the menu of `sortAll` goes on. -/
inductive MenuAnswer
  | ended
  | refused
  | chosen (choice : ℤ)
deriving DecidableEq

/-- What `sortMenu` makes of an answer. -/
def menuAnswer : ReadAnswer 5 → MenuAnswer
  | .failed | .bytes [] _ => .ended
  | .bytes (c :: text) _ =>
      let choice := atoi (lineString (c :: text))
      if choice < 1 ∨ 4 < choice then .refused else .chosen choice

/-- The reads of the menu of `sortAll`, up to the first that is not refused; each is announced in
    the log, and so is each refusal. -/
structure MenuReads where
  before : List (ReadAnswer 5)
  last : ReadAnswer 5
  refused : ∀ a ∈ before, menuAnswer a = .refused
  decides : menuAnswer last ≠ .refused

/-- The system calls of `main` and of the menu of `sortAll`, and the functions that fork a child and
    wait for it. -/
inductive GradeCall
  /-- `read(STDIN_FILENO, command, sizeof(command))` -/
  | readCommand
  | readMenu
  /-- `brk(old_brk + length)` -/
  | brk (length : ℕ)
  | logFile (message : Text)
  | createFile (filename : Text)
  | addStudentGrade (filename : Option Text) (name grade : Text)
  | searchStudent (filename : Option Text) (name : Text)
  /-- `sortAll` behind its menu -/
  | sortFile (filename : Text) (choice : ℤ)
  | showAll (filename : Text)
  | listGrades (filename : Text)
  | listSome (numofEntries pageNumber : ℤ) (filename : Text)
deriving DecidableEq

/-- The replies; of a function that forks, whether the process goes on behind it. `logFile` calls
    itself again when it cannot fork, and the child that it waits for is its own: it comes back. -/
def GradeReply : GradeCall → Type
  | .readCommand => ReadAnswer 90
  | .readMenu => MenuReads
  | .logFile _ => Unit
  | _ => Bool

/-- A piece of `main` of HW1. -/
abbrev Grader := Prog GradeCall GradeReply

namespace Grader

/-- The `read` of a command. -/
def readCommand : Grader (ReadAnswer 90) := Prog.perform GradeCall.readCommand
/-- The `read` calls of `sortMenu`. -/
def readMenu : Grader MenuReads := Prog.perform GradeCall.readMenu
/-- `brk(old_brk + length)`: whether it succeeds. -/
def brk (length : ℕ) : Grader Bool := Prog.perform (GradeCall.brk length)

/-- `logFile`, in the process of `main`. -/
def logFile (message : Text) : Grader Unit := Prog.perform (GradeCall.logFile message)

/-- A function that ends the process when it cannot fork. -/
def orExit (p : Grader Bool) : Grader Unit := do
  if ← p then pure () else Prog.exit

/-- `createFile`, and `main` behind its child. -/
def createFile (filename : Text) : Grader Unit :=
  orExit (Prog.perform (GradeCall.createFile filename))
/-- `addStudentGrade`, and `main` behind its child. -/
def addStudentGrade (filename : Option Text) (name grade : Text) : Grader Unit :=
  orExit (Prog.perform (GradeCall.addStudentGrade filename name grade))
/-- `searchStudent`, and `main` behind its child. -/
def searchStudent (filename : Option Text) (name : Text) : Grader Unit :=
  orExit (Prog.perform (GradeCall.searchStudent filename name))
/-- `showAll`, and `main` behind its child. -/
def showAll (filename : Text) : Grader Unit := orExit (Prog.perform (GradeCall.showAll filename))
/-- `listGrades`, and `main` behind its child. -/
def listGrades (filename : Text) : Grader Unit :=
  orExit (Prog.perform (GradeCall.listGrades filename))
/-- `listSome`, and `main` behind its child. -/
def listSome (numofEntries pageNumber : ℤ) (filename : Text) : Grader Unit :=
  orExit (Prog.perform (GradeCall.listSome numofEntries pageNumber filename))

/-- `sortAll`: the menu, then the child that sorts. -/
def sortAll (filename : Text) : Grader Unit := do
  match menuAnswer (← readMenu).last with
  | .chosen choice => orExit (Prog.perform (GradeCall.sortFile filename choice))
  | _ =>
      logFile "Error reading input".toList
      Prog.exit

/-! ## The loop -/

/-- The students of `defaultTest`. -/
def defaultStudents : List (String × String) :=
  [("student a", "CC"), ("student b", "CB"), ("student c", "BA"), ("student d", "BB"),
    ("student e", "FF"), ("student f", "NA"), ("student g", "VF"), ("student h", "BA"),
    ("student i", "AA"), ("student j", "CC"), ("student k", "CA"), ("student l", "FF"),
    ("student m", "BA"), ("student n", "BB"), ("student o", "AA"), ("student p", "DD")]

/-- `defaultTest`. -/
def defaultTest : Grader Unit := do
  let filename := "default.txt".toList
  createFile filename
  defaultStudents.forM fun student =>
    addStudentGrade (some filename) student.1.toList student.2.toList
  ["student a", "student h", "student p"].forM fun name => searchStudent (some filename) name.toList
  (List.replicate 4 filename).forM sortAll
  showAll filename
  listGrades filename
  [(5, 1), (8, 2), (4, 3)].forM fun page : ℤ × ℤ => listSome page.1 page.2 filename
  logFile "DEMO FINISHED".toList

/-- The branches that take a file name move the break, so that there is room for it behind
    `old_brk`. -/
def keepFilename (filename : Text) : Grader Unit := do
  if ← brk (filename.length + 1) then pure ()
  else
    logFile "memory allocation using brk failed.".toList
    Prog.exit

/-- What `main` does behind a pass: another one with this file name, or it returns. -/
inductive Next
  | again (filename : Option Text)
  | returned

/-- The branches of `main`. -/
def execute (filename : Option Text) : Command → Grader Next
  | .gtuStudentGrades token => do
      keepFilename token
      createFile token
      pure (.again (some token))
  | .quit => pure .returned
  | .manual => do
      logFile "USER MANUAL IS PRINTED".toList
      pure (.again filename)
  | .defaultTest => do
      defaultTest
      pure (.again filename)
  | .addStudentGrade name grade => do
      addStudentGrade filename name grade
      pure (.again filename)
  | .searchStudent name => do
      searchStudent filename name
      pure (.again filename)
  | .sortAll token => do
      keepFilename token
      sortAll token
      pure (.again (some token))
  | .showAll token => do
      keepFilename token
      showAll token
      pure (.again (some token))
  | .listGrades token => do
      keepFilename token
      listGrades token
      pure (.again (some token))
  | .listSome numofEntries pageNumber token => do
      keepFilename token
      listSome numofEntries pageNumber token
      pure (.again (some token))
  | .invalidFormat => do
      logFile "Invalid command format is entered.".toList
      pure (.again filename)
  | .invalidGrade => do
      logFile "Grade is not valid.".toList
      pure (.again filename)
  | .zeroNumber | .invalid => pure (.again filename)

/-- A pass of the loop of `main`. -/
def pass (filename : Option Text) : Grader Next := do
  match ← readCommand with
  | .failed => pure (.again filename)
  | .bytes [] _ => Prog.undefined  -- the NUL goes to `command[-1]`
  | .bytes (c :: text) _ =>
      let command := lineString (c :: text)
      logFile (("INPUT: ".toList ++ command).take 199)
      match parseCommand command with
      | none => Prog.undefined
      | some command => execute filename command

/-- The first `n` passes of the loop of `main`. -/
def mainLoop : ℕ → Option Text → Grader Unit
  | 0, _ => pure ()
  | n + 1, filename => do
      match ← pass filename with
      | .again filename => mainLoop n filename
      | .returned => pure ()

/-! ## What the dispatch needs -/

/-- A line that `main` can dispatch; a failed read is none, and the loop goes on. -/
def Dispatchable : ReadAnswer 90 → Prop
  | .failed => True
  | .bytes text _ => text ≠ [] ∧ Tokenized (lineString text)

/-- The read of something that is not dispatchable. -/
def Undispatchable : Event GradeCall GradeReply → Prop
  | ⟨.readCommand, answer⟩ => ¬ Dispatchable answer
  | _ => False

/-- The read of a command at the end of the input. -/
def EndOfInput : Event GradeCall GradeReply → Prop
  | ⟨.readCommand, .bytes [] _⟩ => True
  | _ => False

/-- The program never passes `NULL` to `strcmp` or `atoi` nor writes in front of `command`, and it
    does nothing any more behind the end of the input. -/
def Dispatched (path : List (Event GradeCall GradeReply)) (o : Outcome Unit) : Prop :=
  o ≠ .undefined ∧
    ∀ before e after, path = before ++ e :: after → EndOfInput e → after = []

theorem EndOfInput.undispatchable {e : Event GradeCall GradeReply} (h : EndOfInput e) :
    Undispatchable e := by
  obtain ⟨c, r⟩ := e
  cases c with
  | readCommand =>
      match r, h with
      | .bytes [] _, _ => exact fun hr => hr.1 rfl
  | _ => exact h.elim

/-- The monitor that notes whether something was read that is not dispatchable. -/
def readMonitor : Monitor GradeCall GradeReply (Unit × Prop) :=
  Monitor.blank.watch Undispatchable

section Harmless

variable {α β : Type}

/-- A program that reads no command and does nothing undefined. -/
def Harmless (p : Grader α) : Prop :=
  ∀ b, readMonitor.wp (fun s o => s.2 = b ∧ o ≠ .undefined) p ((), b)

theorem harmless_pure (a : α) : Harmless (pure a) := fun _ => ⟨rfl, nofun⟩

theorem harmless_exit : Harmless (Prog.exit : Grader α) := fun _ => ⟨rfl, nofun⟩

theorem Harmless.bind {p : Grader α} (hp : Harmless p) {f : α → Grader β}
    (hf : ∀ a, Harmless (f a)) : Harmless (p >>= f) := by
  intro b
  refine Monitor.wp_bind_of (hp b) ?_ ?_ ?_
  · rintro ⟨⟨⟩, b'⟩ a ⟨hb, -⟩
    obtain rfl : b' = b := hb
    exact hf a b'
  · rintro s' ⟨hb, -⟩
    exact ⟨hb, nofun⟩
  · rintro s' ⟨-, hundefined⟩
    exact absurd rfl hundefined

theorem harmless_perform {c : GradeCall} (hc : c ≠ .readCommand) : Harmless (Prog.perform c) := by
  intro b r _
  have hnot : ¬ Undispatchable ⟨c, r⟩ := by
    cases c with
    | readCommand => exact absurd rfl hc
    | _ => exact id
  exact ⟨propext (or_iff_left hnot), nofun⟩

theorem harmless_forM {items : List α} {f : α → Grader Unit} (hf : ∀ a, Harmless (f a)) :
    Harmless (items.forM f) := by
  induction items with
  | nil => exact harmless_pure ()
  | cons a items ih => exact (hf a).bind fun _ => ih

theorem harmless_orExit {p : Grader Bool} (hp : Harmless p) : Harmless (orExit p) := by
  refine hp.bind fun goesOn => ?_
  cases goesOn with
  | true => exact harmless_pure ()
  | false => exact harmless_exit

end Harmless

theorem harmless_logFile (message : Text) : Harmless (logFile message) :=
  harmless_perform (c := .logFile message) nofun

theorem harmless_createFile (filename : Text) : Harmless (createFile filename) :=
  harmless_orExit (harmless_perform (c := .createFile filename) nofun)

theorem harmless_addStudentGrade (filename : Option Text) (name grade : Text) :
    Harmless (addStudentGrade filename name grade) :=
  harmless_orExit (harmless_perform (c := .addStudentGrade filename name grade) nofun)

theorem harmless_searchStudent (filename : Option Text) (name : Text) :
    Harmless (searchStudent filename name) :=
  harmless_orExit (harmless_perform (c := .searchStudent filename name) nofun)

theorem harmless_showAll (filename : Text) : Harmless (showAll filename) :=
  harmless_orExit (harmless_perform (c := .showAll filename) nofun)

theorem harmless_listGrades (filename : Text) : Harmless (listGrades filename) :=
  harmless_orExit (harmless_perform (c := .listGrades filename) nofun)

theorem harmless_listSome (numofEntries pageNumber : ℤ) (filename : Text) :
    Harmless (listSome numofEntries pageNumber filename) :=
  harmless_orExit (harmless_perform (c := .listSome numofEntries pageNumber filename) nofun)

theorem harmless_sortAll (filename : Text) : Harmless (sortAll filename) := by
  refine (harmless_perform (c := .readMenu) nofun).bind fun reads => ?_
  cases menuAnswer reads.last with
  | chosen choice =>
      exact harmless_orExit (harmless_perform (c := .sortFile filename choice) nofun)
  | ended | refused => exact (harmless_logFile _).bind fun _ => harmless_exit

theorem harmless_keepFilename (filename : Text) : Harmless (keepFilename filename) := by
  refine (harmless_perform (c := .brk (filename.length + 1)) nofun).bind fun moved => ?_
  cases moved with
  | true => exact harmless_pure ()
  | false => exact (harmless_logFile _).bind fun _ => harmless_exit

theorem harmless_defaultTest : Harmless defaultTest := by
  refine (harmless_createFile _).bind fun _ => ?_
  refine (harmless_forM fun student => harmless_addStudentGrade _ _ _).bind fun _ => ?_
  refine (harmless_forM fun name => harmless_searchStudent _ _).bind fun _ => ?_
  refine (harmless_forM harmless_sortAll).bind fun _ => ?_
  refine (harmless_showAll _).bind fun _ => (harmless_listGrades _).bind fun _ => ?_
  exact (harmless_forM fun page => harmless_listSome _ _ _).bind fun _ => harmless_logFile _

/-- A command with a file name. -/
theorem harmless_onFile {work : Text → Grader Unit} (hwork : ∀ token, Harmless (work token))
    (token : Text) :
    Harmless (keepFilename token >>= fun _ => work token >>= fun _ =>
      pure (Next.again (some token))) :=
  (harmless_keepFilename token).bind fun _ => (hwork token).bind fun _ => harmless_pure _

theorem harmless_execute (filename : Option Text) (command : Command) :
    Harmless (execute filename command) := by
  cases command with
  | quit | zeroNumber | invalid => exact harmless_pure _
  | manual | invalidFormat | invalidGrade =>
      exact (harmless_logFile _).bind fun _ => harmless_pure _
  | defaultTest => exact harmless_defaultTest.bind fun _ => harmless_pure _
  | addStudentGrade name grade =>
      exact (harmless_addStudentGrade filename name grade).bind fun _ => harmless_pure _
  | searchStudent name => exact (harmless_searchStudent filename name).bind fun _ => harmless_pure _
  | gtuStudentGrades token => exact harmless_onFile harmless_createFile token
  | sortAll token => exact harmless_onFile harmless_sortAll token
  | showAll token => exact harmless_onFile harmless_showAll token
  | listGrades token => exact harmless_onFile harmless_listGrades token
  | listSome numofEntries pageNumber token =>
      exact harmless_onFile (harmless_listSome numofEntries pageNumber) token

/-- A pass does something undefined exactly when it reads something that is not dispatchable. -/
theorem pass_undefined_iff (filename : Option Text) :
    readMonitor.wp (fun s o => o = .undefined ↔ s.2) (pass filename) ((), False) := by
  refine Monitor.wp_perform_bind.2 ?_
  intro answer _
  have hread : readMonitor.step ((), False) ⟨.readCommand, answer⟩ = ((), ¬ Dispatchable answer) :=
    Prod.ext rfl (propext (or_iff_right id))
  rw [hread]
  match answer with
  | .failed => exact ⟨nofun, fun h => absurd trivial h⟩
  | .bytes [] _ => exact ⟨fun _ h => h.1 rfl, fun _ => rfl⟩
  | .bytes (c :: text) htext =>
      have hdispatchable :
          Dispatchable (.bytes (c :: text) htext) ↔ Tokenized (lineString (c :: text)) :=
        and_iff_right (List.cons_ne_nil c text)
      have hparse : parseCommand (lineString (c :: text)) = none ↔ _ := parseCommand_eq_none
      refine Monitor.watch_wp_bind (fun _ => id) ?_
      intro _ _
      rw [hdispatchable, ← hparse]
      cases parseCommand (lineString (c :: text)) with
      | none => exact ⟨fun _ => rfl, fun _ => rfl⟩
      | some command =>
          refine Monitor.wp_mono (harmless_execute filename command _) ?_
          rintro ⟨⟨⟩, b⟩ o ⟨hb, ho⟩
          obtain rfl := hb
          exact ⟨fun h => absurd h ho, fun h => nomatch h⟩

theorem mainLoop_undefined_iff (n : ℕ) (filename : Option Text) :
    readMonitor.wp (fun s o => o ≠ .undefined ↔ ¬ s.2) (mainLoop n filename) ((), False) := by
  induction n generalizing filename with
  | zero => exact ⟨fun _ => id, nofun⟩
  | succ n ih =>
      refine Monitor.wp_bind_of (pass_undefined_iff filename) ?_ ?_ ?_
      · rintro ⟨⟨⟩, b⟩ next hb
        obtain rfl : b = False := propext (iff_false_intro fun h => nomatch hb.2 h)
        cases next with
        | again filename => exact ih filename
        | returned => exact ⟨fun _ => id, nofun⟩
      · intro s h
        exact ⟨fun _ hs => (nomatch h.2 hs : False), fun _ => nofun⟩
      · intro s h
        exact ⟨fun hne => absurd rfl hne, fun hs => absurd (h.1 rfl) hs⟩

/-- **What the dispatch of `main` needs.** A run of `main` is safe exactly when everything that it
    reads as a command is dispatchable: not the end of the input, not a line without a token, and no
    `listSome` without its two numbers. -/
theorem mainLoop_dispatched_iff {n : ℕ} {path : List (Event GradeCall GradeReply)}
    {o : Outcome Unit} (hrun : Prog.Runs (mainLoop n none) path o) :
    Dispatched path o ↔ ∀ e ∈ path, ¬ Undispatchable e := by
  have hundefined := Monitor.iff_of_watch (Q := fun _ o => o ≠ .undefined)
    (mainLoop_undefined_iff n none) hrun (Monitor.blank_accepts () path)
  simp only [not_false_eq_true, true_and] at hundefined
  refine ⟨fun h => hundefined.1 h.1, fun h => ⟨hundefined.2 h, ?_⟩⟩
  rintro before e after rfl he
  exact absurd he.undispatchable (h e (by simp))

/-- A run that reads `quit`. -/
theorem mainLoop_dispatched_iff_quit :
    let path := [⟨.readCommand, readOf 90 "quit\n".toList⟩, ⟨.logFile "INPUT: quit".toList, ()⟩]
    Dispatched path (.returned ()) ↔ ∀ e ∈ path, ¬ Undispatchable e :=
  mainLoop_dispatched_iff (n := 1) (.call _ _ _ (.call _ _ _ (.ret ())))

/-- An empty line: its `NULL` goes to `strcmp`. -/
theorem mainLoop_not_always_dispatched :
    ¬ ∀ n path o, Prog.Runs (mainLoop n none) path o → Dispatched path o := by
  intro hall
  have hrun : Prog.Runs (mainLoop 1 none)
      [⟨.readCommand, readOf 90 ['\n']⟩, ⟨.logFile "INPUT: ".toList, ()⟩] .undefined :=
    .call _ _ _ (.call _ _ _ .undefined)
  exact (hall _ _ _ hrun).1 rfl

end Grader

end SystemProgramming.Grades
