import SystemProgramming.Grades.Gradebook
import SystemProgramming.Lib.Bytes

set_option autoImplicit false

/-! # A session with the grade program

What is typed is a list of commands, each with the answers to the menus that it opens, and a `quit`
at the end. `main` makes of it the calls of its functions (`callsOf`), and what they print and leave
is what the grade book answers to these calls (`mainLoop_gradebook`). -/

namespace SystemProgramming.Grades

open Grader Prog

/-! ## What is typed -/

/-- An answer to the menu of `sortAll`, behind some that are refused. -/
structure Pick where
  refused : List Text
  line : Text
  choice : ℤ
  refused_menu : ∀ t ∈ refused, t.length ≤ 5 ∧ menuAnswer (readOf 5 t) = .refused
  chosen : line.length ≤ 5 ∧ menuAnswer (readOf 5 line) = .chosen choice

/-- The lines that are typed at the menu. -/
def Pick.lines (pick : Pick) : List Text := pick.refused ++ [pick.line]

/-- How often a command opens the menu. -/
def Command.menus : Command → ℕ
  | .sortAll _ => 1
  | .defaultTest => 4
  | _ => 0

/-- A command as it is typed. -/
structure Entry where
  line : Text
  command : Command
  picks : List Pick
  ne : line ≠ []
  size : line.length ≤ 90
  parsed : parseCommand (lineString line) = some command
  goes_on : command ≠ .quit
  answered : picks.length = command.menus

/-- The lines that are typed for the command. -/
def Entry.lines (e : Entry) : List Text := e.line :: e.picks.flatMap Pick.lines

/-! ## What main calls -/

/-- The calls of `defaultTest`. -/
def defaultCalls (choices : List ℤ) : List GradeCall :=
  let filename := "default.txt".toList
  .createFile filename ::
    (defaultStudents.map (fun student =>
        .addStudentGrade (some filename) student.1.toList student.2.toList) ++
      (["student a", "student h", "student p"].map
          (fun name => .searchStudent (some filename) name.toList) ++
        (choices.map (.sortFile filename) ++ (.showAll filename :: .listGrades filename ::
          [(5, 1), (8, 2), (4, 3)].map fun page : ℤ × ℤ => .listSome page.1 page.2 filename))))

/-- The calls of a command, behind the file name that is kept. -/
def Command.calls (filename : Option Text) (choices : List ℤ) : Command → List GradeCall
  | .gtuStudentGrades token => [.createFile token]
  | .defaultTest => defaultCalls choices
  | .addStudentGrade name grade => [.addStudentGrade filename name grade]
  | .searchStudent name => [.searchStudent filename name]
  | .sortAll token => choices.map (.sortFile token)
  | .showAll token => [.showAll token]
  | .listGrades token => [.listGrades token]
  | .listSome numofEntries pageNumber token => [.listSome numofEntries pageNumber token]
  | .quit | .manual | .invalidFormat | .invalidGrade | .zeroNumber | .invalid => []

/-- The file name that is kept behind a command. -/
def Command.filename (filename : Option Text) : Command → Option Text
  | .gtuStudentGrades token | .sortAll token | .showAll token | .listGrades token
  | .listSome _ _ token => some token
  | _ => filename

/-- The calls that the commands come to, with the file name that the ones before have left. -/
def callsOf : Option Text → List Entry → List GradeCall
  | _, [] => []
  | filename, e :: entries =>
      e.command.calls filename (e.picks.map Pick.choice) ++
        callsOf (e.command.filename filename) entries

/-! ## The reads -/

theorem readOf_eq {size : ℕ} {text : Text} (h : text.length ≤ size) :
    readOf size text = .bytes text h := by
  unfold readOf
  congr
  exact List.take_of_length_le h

theorem Terminal.nextRead_cons {size : ℕ} {line : Text} (h : line.length ≤ size)
    (input : List Text) : nextRead size (line :: input) = (readOf size line, input) := by
  rw [nextRead, if_pos h]

theorem Terminal.menuReads_pick (pick : Pick) (input : List Text) {n : ℕ}
    (hn : pick.refused.length < n) :
    menuAnswer (menuReads n (pick.lines ++ input)).1.last = .chosen pick.choice ∧
      (menuReads n (pick.lines ++ input)).2 = input := by
  obtain ⟨refused, line, choice, hrefused, hsize, hchosen⟩ := pick
  unfold Pick.lines
  dsimp only at hn ⊢
  induction refused generalizing n with
  | nil =>
      obtain ⟨n, rfl⟩ := Nat.exists_eq_add_of_lt hn
      rw [List.nil_append, List.singleton_append, menuReads]
      simp only [nextRead_cons hsize]
      rw [dif_neg (by rw [hchosen]; exact MenuAnswer.noConfusion)]
      exact ⟨hchosen, rfl⟩
  | cons t refused ih =>
      obtain ⟨ht, hrest⟩ := List.forall_mem_cons.1 hrefused
      rw [List.length_cons] at hn
      obtain ⟨n, rfl⟩ := Nat.exists_eq_add_of_lt (Nat.zero_lt_of_lt hn)
      rw [List.cons_append, List.cons_append, menuReads]
      simp only [nextRead_cons ht.1]
      rw [dif_pos ht.2]
      exact ih hrest (by omega)

/-- The menu reads up to the answer that it takes. -/
theorem Terminal.readMenu_pick (pick : Pick) (input : List Text) :
    menuAnswer (readMenu (pick.lines ++ input)).1.last = .chosen pick.choice ∧
      (readMenu (pick.lines ++ input)).2 = input := by
  refine menuReads_pick pick input ?_
  rw [Pick.lines, List.length_append, List.length_append]
  omega

/-! ## What the functions do -/

/-- The program calls these functions with these answers to its menus, and returns `a`. -/
def Performs {α : Type} (p : Grader α) (a : α) (picks : List Pick) (calls : List GradeCall) : Prop :=
  ∀ (w : Terminal) (books books' : Books) (texts : List Text) (input : List Text), Keeps w books →
    w.input = picks.flatMap Pick.lines ++ input →
    gradebook.session books calls = some (books', texts) →
    ∃ w', runIn Terminal.answer p w = (some (.returned a), w') ∧ Keeps w' books' ∧
      w'.printed = w.printed ++ texts ∧ w'.input = input

section Performs

variable {α β : Type} {picks picks' : List Pick} {calls calls' : List GradeCall}

theorem performs_pure (a : α) : Performs (pure a) a [] [] := by
  intro w books books' texts input hkeeps hinput hsession
  cases hsession
  exact ⟨w, rfl, hkeeps, (List.append_nil _).symm, hinput⟩

theorem Performs.bind {p : Grader α} {a : α} (hp : Performs p a picks calls) {f : α → Grader β}
    {b : β} (hf : Performs (f a) b picks' calls') :
    Performs (p >>= f) b (picks ++ picks') (calls ++ calls') := by
  intro w books books' texts input hkeeps hinput hsession
  obtain ⟨books₁, texts₁, texts₂, hfirst, hsecond, rfl⟩ := Service.session_append_eq_some.1 hsession
  rw [List.flatMap_append, List.append_assoc] at hinput
  obtain ⟨w₁, hrun₁, hkeeps₁, hprinted₁, hinput₁⟩ := hp w _ _ _ _ hkeeps hinput hfirst
  obtain ⟨w₂, hrun₂, hkeeps₂, hprinted₂, hinput₂⟩ := hf w₁ _ _ _ _ hkeeps₁ hinput₁ hsecond
  refine ⟨w₂, (runIn_bind_returned hrun₁).trans hrun₂, hkeeps₂, ?_, hinput₂⟩
  rw [hprinted₂, hprinted₁, List.append_assoc]

theorem Performs.seq {p : Grader Unit} (hp : Performs p () picks calls) {q : Grader β} {b : β}
    (hq : Performs q b picks' calls') :
    Performs (p >>= fun _ => q) b (picks ++ picks') (calls ++ calls') := hp.bind hq

/-- A call that only changes the log. -/
theorem performs_logFile (message : Text) : Performs (logFile message) () [] [] := by
  intro w books books' texts input hkeeps hinput hsession
  cases hsession
  exact ⟨w.log message, rfl, hkeeps.log message, (List.append_nil _).symm, hinput⟩

theorem performs_keepFilename (filename : Text) : Performs (keepFilename filename) () [] [] := by
  intro w books books' texts input hkeeps hinput hsession
  cases hsession
  exact ⟨w, rfl, hkeeps, (List.append_nil _).symm, hinput⟩

/-- A function that forks a child. -/
theorem performs_child {c : GradeCall} {p : Grader Bool}
    (hcall : ∀ {w w' : Terminal}, w.child c = some w' →
      runIn Terminal.answer p w = (some (.returned true), w')) : Performs (orExit p) () [] [c] := by
  intro w books books' texts input hkeeps hinput hsession
  obtain ⟨books₁, text, rest, hserve, hnil, rfl⟩ := Service.session_cons_eq_some.1 hsession
  cases hnil
  obtain ⟨w', hchild, hshows⟩ := child_gradebook hkeeps hserve
  exact ⟨w', runIn_bind_returned (hcall hchild), hshows.keeps, hshows.printed,
    hshows.input.trans hinput⟩

theorem performs_createFile (filename : Text) :
    Performs (Grader.createFile filename) () [] [.createFile filename] :=
  performs_child fun h => runIn_perform (congrArg (Option.map (Prod.mk true)) h)

theorem performs_addStudentGrade (filename : Option Text) (name grade : Text) :
    Performs (Grader.addStudentGrade filename name grade) () [] [.addStudentGrade filename name grade] :=
  performs_child fun h => runIn_perform (congrArg (Option.map (Prod.mk true)) h)

theorem performs_searchStudent (filename : Option Text) (name : Text) :
    Performs (Grader.searchStudent filename name) () [] [.searchStudent filename name] :=
  performs_child fun h => runIn_perform (congrArg (Option.map (Prod.mk true)) h)

theorem performs_showAll (filename : Text) :
    Performs (Grader.showAll filename) () [] [.showAll filename] :=
  performs_child fun h => runIn_perform (congrArg (Option.map (Prod.mk true)) h)

theorem performs_listGrades (filename : Text) :
    Performs (Grader.listGrades filename) () [] [.listGrades filename] :=
  performs_child fun h => runIn_perform (congrArg (Option.map (Prod.mk true)) h)

theorem performs_listSome (numofEntries pageNumber : ℤ) (filename : Text) :
    Performs (Grader.listSome numofEntries pageNumber filename) () []
      [.listSome numofEntries pageNumber filename] :=
  performs_child fun h => runIn_perform (congrArg (Option.map (Prod.mk true)) h)

/-- `sortAll` asks, and sorts by the answer. -/
theorem performs_sortAll (filename : Text) (pick : Pick) :
    Performs (sortAll filename) () [pick] [.sortFile filename pick.choice] := by
  intro w books books' texts input hkeeps hinput hsession
  rw [List.flatMap_singleton] at hinput
  obtain ⟨hmenu, hrest⟩ := Terminal.readMenu_pick pick input
  rw [← hinput] at hmenu hrest
  have hsort : Performs (orExit (perform (GradeCall.sortFile filename pick.choice))) () []
      [.sortFile filename pick.choice] :=
    performs_child fun h => runIn_perform (congrArg (Option.map (Prod.mk true)) h)
  obtain ⟨w', hrun, hkeeps', hprinted, hinput'⟩ :=
    hsort { w with input := (Terminal.readMenu w.input).2 } _ _ _ _ hkeeps hrest hsession
  refine ⟨w', ?_, hkeeps', hprinted, hinput'⟩
  rw [← hrun]
  refine (runIn_perform_bind (r := (Terminal.readMenu w.input).1) rfl).trans ?_
  rw [hmenu]

/-- A loop whose items ask nothing, and make one call each. -/
theorem performs_forM_call {f : α → Grader Unit} {call : α → GradeCall}
    (h : ∀ a, Performs (f a) () [] [call a]) (items : List α) :
    Performs (items.forM f) () [] (items.map call) := by
  induction items with
  | nil => exact performs_pure ()
  | cons a items ih => exact (h a).seq ih

theorem performs_sorts (filename : Text) (picks : List Pick) :
    Performs ((List.replicate picks.length filename).forM sortAll) () picks
      ((picks.map Pick.choice).map (.sortFile filename)) := by
  induction picks with
  | nil => exact performs_pure ()
  | cons pick picks ih => exact (performs_sortAll filename pick).seq ih

theorem performs_defaultTest (hpicks : picks.length = 4) :
    Performs defaultTest () picks (defaultCalls (picks.map Pick.choice)) := by
  have hsorts := performs_sorts "default.txt".toList picks
  rw [hpicks] at hsorts
  have hpages := performs_forM_call (fun page : ℤ × ℤ =>
    performs_listSome page.1 page.2 "default.txt".toList) [(5, 1), (8, 2), (4, 3)]
  have hlists := (performs_showAll "default.txt".toList).seq
    ((performs_listGrades "default.txt".toList).seq
      (hpages.seq (performs_logFile "DEMO FINISHED".toList)))
  have hsearches := performs_forM_call (fun name : String =>
    performs_searchStudent (some "default.txt".toList) name.toList)
    ["student a", "student h", "student p"]
  have hadds := performs_forM_call (fun student : String × String =>
    performs_addStudentGrade (some "default.txt".toList) student.1.toList student.2.toList)
    defaultStudents
  have hall : Performs defaultTest () (picks ++ []) (defaultCalls (picks.map Pick.choice)) :=
    (performs_createFile "default.txt".toList).seq
      (hadds.seq (hsearches.seq (hsorts.seq hlists)))
  rwa [List.append_nil] at hall

/-- A command does its calls, and keeps its file name. -/
theorem performs_execute (filename : Option Text) {command : Command} (hquit : command ≠ .quit)
    (hpicks : picks.length = command.menus) :
    Performs (execute filename command) (.again (command.filename filename)) picks
      (command.calls filename (picks.map Pick.choice)) := by
  have hnone : ∀ {n : ℕ}, n = 0 → picks.length = n → picks = [] := by
    rintro n rfl h
    exact List.eq_nil_of_length_eq_zero h
  cases command with
  | quit => exact absurd rfl hquit
  | gtuStudentGrades token =>
      rw [hnone rfl hpicks]
      exact (performs_keepFilename token).seq ((performs_createFile token).seq (performs_pure _))
  | manual =>
      rw [hnone rfl hpicks]
      exact (performs_logFile _).seq (performs_pure _)
  | defaultTest =>
      have htest := (performs_defaultTest hpicks).seq (performs_pure (Next.again filename))
      rwa [List.append_nil, List.append_nil] at htest
  | addStudentGrade name grade =>
      rw [hnone rfl hpicks]
      exact (performs_addStudentGrade filename name grade).seq (performs_pure _)
  | searchStudent name =>
      rw [hnone rfl hpicks]
      exact (performs_searchStudent filename name).seq (performs_pure _)
  | sortAll token =>
      obtain ⟨pick, rfl⟩ := List.length_eq_one_iff.1 hpicks
      exact (performs_keepFilename token).seq ((performs_sortAll token pick).seq (performs_pure _))
  | showAll token =>
      rw [hnone rfl hpicks]
      exact (performs_keepFilename token).seq ((performs_showAll token).seq (performs_pure _))
  | listGrades token =>
      rw [hnone rfl hpicks]
      exact (performs_keepFilename token).seq ((performs_listGrades token).seq (performs_pure _))
  | listSome numofEntries pageNumber token =>
      rw [hnone rfl hpicks]
      exact (performs_keepFilename token).seq
        ((performs_listSome numofEntries pageNumber token).seq (performs_pure _))
  | invalidFormat | invalidGrade =>
      rw [hnone rfl hpicks]
      exact (performs_logFile _).seq (performs_pure _)
  | zeroNumber | invalid =>
      rw [hnone rfl hpicks]
      exact performs_pure _

end Performs

/-! ## The loop of main -/

section Session

variable {w : Terminal} {books books' : Books} {texts : List Text} {input : List Text}

/-- A pass over a command that is typed. -/
theorem pass_entry (e : Entry) (filename : Option Text) (hkeeps : Keeps w books)
    (hinput : w.input = e.lines ++ input)
    (hsession : gradebook.session books
      (e.command.calls filename (e.picks.map Pick.choice)) = some (books', texts)) :
    ∃ w', runIn Terminal.answer (pass filename) w
        = (some (.returned (.again (e.command.filename filename))), w') ∧
      Keeps w' books' ∧ w'.printed = w.printed ++ texts ∧ w'.input = input := by
  obtain ⟨line, command, picks, hne, hsize, hparsed, hquit, hanswered⟩ := e
  obtain ⟨c, text, rfl⟩ := List.exists_cons_of_ne_nil hne
  rw [Entry.lines, List.cons_append] at hinput
  have hread : Terminal.answer w .readCommand = some (.bytes (c :: text) hsize,
      { w with input := picks.flatMap Pick.lines ++ input }) := by
    rw [Terminal.answer, hinput, Terminal.nextRead_cons hsize, readOf_eq hsize]
  have hrest := ((performs_logFile
    (("INPUT: ".toList ++ lineString (c :: text)).take 199)).seq
      (performs_execute filename hquit hanswered)) { w with
        input := picks.flatMap Pick.lines ++ input } _ _ _ _ hkeeps rfl hsession
  obtain ⟨w', hrun, hkeeps', hprinted, hinput'⟩ := hrest
  refine ⟨w', ?_, hkeeps', hprinted, hinput'⟩
  rw [← hrun]
  refine (runIn_perform_bind hread).trans ?_
  dsimp only
  rw [hparsed]

/-- `quit` ends the loop, and prints and leaves nothing. -/
theorem pass_quit (filename : Option Text) (hkeeps : Keeps w books)
    (hinput : w.input = "quit\n".toList :: input) :
    ∃ w', runIn Terminal.answer (pass filename) w = (some (.returned .returned), w') ∧
      Keeps w' books ∧ w'.printed = w.printed := by
  have hsize : "quit\n".toList.length ≤ 90 := by decide
  have hread : Terminal.answer w .readCommand = some (.bytes "quit\n".toList hsize,
      { w with input := input }) := by
    rw [Terminal.answer, hinput, Terminal.nextRead_cons hsize, readOf_eq hsize]
  refine ⟨({ w with input := input } : Terminal).log "INPUT: quit".toList, ?_,
    Keeps.log (w := { w with input := input }) hkeeps _, rfl⟩
  exact (runIn_perform_bind hread).trans rfl

/-- **A session with the program.** Whatever is typed before a `quit`, if the grade book serves the
    calls that it comes to, `main` returns, its children have printed what the book answers, and
    they leave the books as files. -/
theorem mainLoop_gradebook {entries : List Entry} (hkeeps : Keeps w books)
    (hinput : w.input = entries.flatMap Entry.lines ++ ["quit\n".toList])
    (hsession : gradebook.session books (callsOf none entries) = some (books', texts)) {n : ℕ}
    (hn : entries.length < n) :
    ∃ w', runIn Terminal.answer (mainLoop n none) w = (some (.returned ()), w') ∧
      w'.printed = w.printed ++ texts ∧ Keeps w' books' := by
  generalize none = filename at hsession ⊢
  induction entries generalizing w books filename texts n with
  | nil =>
      obtain ⟨n, rfl⟩ := Nat.exists_eq_add_of_lt hn
      cases hsession
      obtain ⟨w', hrun, hkeeps', hprinted⟩ := pass_quit filename hkeeps hinput
      refine ⟨w', (runIn_bind_returned hrun).trans rfl, ?_, hkeeps'⟩
      rw [hprinted, List.append_nil]
  | cons e entries ih =>
      rw [List.length_cons] at hn
      obtain ⟨n, rfl⟩ := Nat.exists_eq_add_of_lt (Nat.zero_lt_of_lt hn)
      rw [List.flatMap_cons, List.append_assoc] at hinput
      obtain ⟨books₁, texts₁, texts₂, hfirst, hrest, rfl⟩ :=
        Service.session_append_eq_some.1 hsession
      obtain ⟨w₁, hrun₁, hkeeps₁, hprinted₁, hinput₁⟩ := pass_entry e filename hkeeps hinput hfirst
      obtain ⟨w', hrun, hprinted, hkeeps'⟩ := ih hkeeps₁ hinput₁ (n := n) (by omega) _ hrest
      refine ⟨w', (runIn_bind_returned hrun₁).trans ?_, ?_, hkeeps'⟩
      · rw [← hrun, Nat.zero_add]
      · rw [hprinted, hprinted₁, List.append_assoc]

end Session

/-- A terminal in front of an empty directory. -/
def Terminal.started (input : List Text) : Terminal where
  input := input
  files := fun _ => none
  printed := []
  memory := fun _ => []
  split := fun _ file => ⟨chunksFrom 35 [] file, chunksFrom_size (by decide) file,
    chunksFrom_flatten 35 [] file⟩

/-- A command that does not open the menu. -/
def Entry.plain (line : Text) (command : Command) (ne : line ≠ []) (size : line.length ≤ 90)
    (parsed : parseCommand (lineString line) = some command) (goes_on : command ≠ .quit)
    (menus : command.menus = 0) : Entry :=
  ⟨line, command, [], ne, size, parsed, goes_on, menus.symm⟩

/-- Two students are added; one is looked up, and the second page of one entry is shown. -/
def twoStudents : List Entry :=
  [.plain "gtuStudentGrades \"g\"\n".toList (.gtuStudentGrades ['g']) nofun (by decide)
    (by decide) nofun rfl,
  .plain "addStudentGrade \"Bob\" \"aa\"\n".toList
    (.addStudentGrade "bob".toList "AA".toList) nofun (by decide) (by decide) nofun rfl,
  .plain "addStudentGrade \"Ann\" \"bb\"\n".toList
    (.addStudentGrade "ann".toList "BB".toList) nofun (by decide) (by decide) nofun rfl,
  .plain "searchStudent \"ann\"\n".toList (.searchStudent "ann".toList) nofun (by decide)
    (by decide) nofun rfl,
  .plain "listSome \"1\" \"2\" \"g\"\n".toList (.listSome 1 2 ['g']) nofun (by decide)
    (by decide) nofun rfl]

theorem mainLoop_gradebook_two :
    ∃ w', runIn Terminal.answer (mainLoop 6 none)
        (.started (twoStudents.flatMap Entry.lines ++ ["quit\n".toList]))
          = (some (.returned ()), w') ∧
      w'.printed = ["\tFile 'g' opened successfully\n".toList,
        "\tStudent grade added successfully.\n".toList,
        "\tStudent grade added successfully.\n".toList,
        "\tStudent: ann\n\tGrade:  BB\n".toList, "\nann, BB\n".toList] ∧
      w'.files ['g'] = some "bob, AA\nann, BB\n".toList := by
  have hkeeps : Keeps (.started (twoStudents.flatMap Entry.lines ++ ["quit\n".toList]))
      fun _ => none := fun _ _ => rfl
  have hlength : twoStudents.length < 6 := by decide
  obtain ⟨w', hmain, hprinted, hkeeps'⟩ := mainLoop_gradebook hkeeps rfl rfl hlength
  exact ⟨w', hmain, hprinted, hkeeps' ['g'] (by decide)⟩

end SystemProgramming.Grades
