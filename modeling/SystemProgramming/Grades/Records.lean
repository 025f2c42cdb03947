import SystemProgramming.Grades.Commands

set_option autoImplicit false

/-! # The records of the grade file

`addStudentGrade` appends a line `name, grade` to the file. `searchStudent` and `sortAll` read the
file back one character at a time, into a buffer that ends a line at its newline or when it is full;
`lineLoop` is that loop, and `lineLoop_append` is all that the readers of well-formed records need
of it.

A name is found again as long as its record fits the buffer and is one line with one comma
(`searchStudent_added_iff`). -/

namespace SystemProgramming.Grades

/-- `MAX_LINE_LENGTH` -/
def maxLineLength : ℕ := 35

/-! ## Reading lines -/

section Reader

variable {σ ρ : Type*}

/-- The loop of `searchStudent` and `sortAll` over the characters of the file: `onLine` gets the
    string in the buffer at the end of each line, and goes on or leaves the loop with a result. The
    character that finds the buffer full is dropped. -/
def lineLoop (onLine : σ → Text → Except ρ σ) : σ → Text → Text → Except ρ σ
  | s, _, [] => .ok s
  | s, buffer, ch :: file =>
      if ch = '\n' ∨ buffer.length ≥ maxLineLength - 1 then
        match onLine s (cString buffer) with
        | .ok s => lineLoop onLine s [] file
        | .error result => .error result
      else lineLoop onLine s (buffer ++ [ch]) file

variable {onLine : σ → Text → Except ρ σ}

theorem lineLoop_newline (s : σ) (buffer file : Text) :
    lineLoop onLine s buffer ('\n' :: file) =
      onLine s (cString buffer) >>= fun s => lineLoop onLine s [] file := by
  rw [lineLoop, if_pos (.inl rfl)]
  cases onLine s (cString buffer) <;> rfl

/-- A line that fits the buffer gets into it. -/
theorem lineLoop_fill {buffer line : Text} (hline : '\n' ∉ line)
    (hfits : buffer.length + line.length ≤ maxLineLength - 1) (s : σ) (file : Text) :
    lineLoop onLine s buffer (line ++ file) = lineLoop onLine s (buffer ++ line) file := by
  induction line generalizing buffer with
  | nil => rw [List.nil_append, List.append_nil]
  | cons ch line ih =>
      have hch : ch ≠ '\n' := fun h => hline (h ▸ List.mem_cons_self)
      rw [List.length_cons] at hfits
      have hroom : ¬ (ch = '\n' ∨ buffer.length ≥ maxLineLength - 1) := by
        rintro (h | h)
        · exact hch h
        · omega
      rw [List.cons_append, lineLoop, if_neg hroom, ih (fun h => hline (List.mem_cons_of_mem ch h))
        (by simp only [List.length_append, List.length_singleton]; omega), List.append_assoc,
        List.singleton_append]

/-- A line that fits the buffer is handed to `onLine` as it is. -/
theorem lineLoop_append {line : Text} (hline : '\n' ∉ line) (hnul : nul ∉ line)
    (hfits : line.length ≤ maxLineLength - 1) (s : σ) (file : Text) :
    lineLoop onLine s [] (line ++ '\n' :: file) =
      onLine s line >>= fun s => lineLoop onLine s [] file := by
  rw [lineLoop_fill hline (by simpa using hfits), List.nil_append, lineLoop_newline,
    cString_of_not_mem hnul]

/-- A loop that no line makes leave gets to the end of the file. -/
theorem lineLoop_eq_ok {s : σ} (hok : ∀ line, '\n' ∉ line → onLine s line = .ok s) {buffer : Text}
    (hbuffer : '\n' ∉ buffer) (file : Text) : lineLoop onLine s buffer file = .ok s := by
  induction file generalizing buffer with
  | nil => rfl
  | cons ch file ih =>
      have hstring : '\n' ∉ cString buffer := fun h => hbuffer (List.takeWhile_subset _ h)
      rw [lineLoop, hok _ hstring]
      by_cases hend : ch = '\n' ∨ buffer.length ≥ maxLineLength - 1
      · rw [if_pos hend]
        exact ih List.not_mem_nil
      · rw [if_neg hend]
        refine ih ?_
        intro h
        rcases List.mem_append.1 h with h | h
        · exact hbuffer h
        · exact hend (.inl (List.mem_singleton.1 h).symm)

end Reader

/-! ## Writing records -/

/-- What `snprintf(buffer, size, …)` leaves in the buffer in front of its NUL, and its result, for a
    text that the format gives. -/
def snprintf (size : ℕ) (text : Text) : Text × ℕ := (text.take (size - 1), text.length)

/-- `"%s, %s\n"` -/
def recordLine (name grade : Text) : Text := name ++ ", ".toList ++ grade ++ ['\n']

/-- The bytes that the `write` of `addStudentGrade` takes, with what lies in memory behind the NUL
    of the buffer. -/
def recordBytes (memory name grade : Text) : Text :=
  let (buffer, len) := snprintf maxLineLength (recordLine name grade)
  (buffer ++ nul :: memory).take len

/-- The `write` of the record takes no byte but those of the line in the buffer. -/
def TakesOnlyLine (name grade : Text) : Prop :=
  let (buffer, len) := snprintf maxLineLength (recordLine name grade)
  len ≤ buffer.length

theorem takesOnlyLine_iff {name grade : Text} :
    TakesOnlyLine name grade ↔ name.length + grade.length ≤ 31 := by
  show (recordLine name grade).length ≤ ((recordLine name grade).take 34).length ↔ _
  have hlength : (recordLine name grade).length = name.length + grade.length + 3 := by
    simp [recordLine]
    omega
  rw [List.length_take, hlength]
  omega

/-- A record that fits is written as it is. -/
theorem recordBytes_of_fits {name grade : Text} (hfits : TakesOnlyLine name grade) (memory : Text) :
    recordBytes memory name grade = recordLine name grade := by
  have hlength : (recordLine name grade).length ≤ 34 := by
    rw [takesOnlyLine_iff] at hfits
    simp [recordLine]
    omega
  show ((recordLine name grade).take 34 ++ nul :: memory).take (recordLine name grade).length = _
  rw [List.take_of_length_le hlength, List.take_left']
  rfl

/-! ## The commands that add a student -/

theorem toLower_ne_nul {c : Char} (h : c ≠ nul) : c.toLower ≠ nul := by
  unfold Char.toLower
  split
  · next hupper =>
      intro heq
      -- an upper case letter plus 32 is not 0
      have hle := UInt32.le_iff_toNat_le.1 hupper.2
      have hval := congrArg (fun c : Char => c.val.toNat) heq
      simp only [UInt32.toNat_add] at hval
      have hZ : 'Z'.val.toNat = 90 := rfl
      have hnul : nul.val.toNat = 0 := rfl
      have hshift : ('a'.val - 'A'.val).toNat = 32 := rfl
      omega
  · exact h

theorem parseListSome_ne (rest name grade : Text) :
    parseListSome rest ≠ some (.addStudentGrade name grade) := by
  unfold parseListSome
  dsimp only
  split
  · split
    · exact nofun
    · refine (AddsNobody.argument ?_ _).ne name grade
      exact nofun
  · exact nofun

/-- The name of an `addStudentGrade` is a token of the line in lower case, and its grade is allowed.
    -/
theorem parseAddStudentGrade_spec {rest name grade : Text}
    (h : parseAddStudentGrade rest = .addStudentGrade name grade) :
    ∃ token, token ≠ [] ∧ token.Sublist rest ∧ name = token.map Char.toLower ∧
      grade ∈ validGrades := by
  unfold parseAddStudentGrade at h
  cases hname : strtok quote rest with
  | mk token rest' =>
      rw [hname] at h
      dsimp only at h
      split at h
      · split at h
        · next hgrade =>
            obtain ⟨rfl, rfl⟩ := Command.addStudentGrade.inj h
            exact ⟨_, ne_nil_of_strtok hname, (strtok_sublist hname).1, rfl,
              List.contains_iff_mem.1 hgrade⟩
        · cases h
      · cases h

theorem parseCommand_addStudentGrade {command name grade : Text}
    (h : parseCommand command = some (.addStudentGrade name grade)) :
    ∃ token, token ≠ [] ∧ token.Sublist command ∧ name = token.map Char.toLower ∧
      grade ∈ validGrades := by
  cases hstrtok : strtok quote command with
  | mk first rest =>
      cases first with
      | none =>
          unfold parseCommand at h
          rw [hstrtok] at h
          cases h
      | some first =>
          rcases parseCommand_of_token hstrtok with ⟨-, hparse⟩ | ⟨-, hparse⟩ | ⟨-, hother⟩
          · exact absurd (hparse.symm.trans h) (parseListSome_ne rest name grade)
          · obtain ⟨token, hne, hsub, hname, hgrade⟩ :=
              parseAddStudentGrade_spec (Option.some.inj (hparse.symm.trans h))
            exact ⟨token, hne, hsub.trans (strtok_sublist hstrtok).2, hname, hgrade⟩
          · exact absurd h (hother.ne name grade)

/-- A line of input that `main` accepts as an `addStudentGrade`, with the name and the grade that it
    makes of it, and what is in memory behind the buffer when the record is written. -/
structure Addition where
  input : Text
  name : Text
  grade : Text
  memory : Text
  size : input.length ≤ 90
  accepted : parseCommand (lineString input) = some (.addStudentGrade name grade)

namespace Addition

theorem name_ne_nil (a : Addition) : a.name ≠ [] := by
  obtain ⟨token, hne, -, hname, -⟩ := parseCommand_addStudentGrade a.accepted
  rw [hname]
  simpa using hne

theorem nul_not_mem_name (a : Addition) : nul ∉ a.name := by
  obtain ⟨token, -, hsub, hname, -⟩ := parseCommand_addStudentGrade a.accepted
  rw [hname]
  intro h
  obtain ⟨c, hc, hlower⟩ := List.mem_map.1 h
  have hcommand : c ∈ lineString a.input := hsub.subset hc
  refine toLower_ne_nul ?_ hlower
  rintro rfl
  exact nul_not_mem_cString _ hcommand

theorem grade_mem (a : Addition) : a.grade ∈ validGrades := by
  obtain ⟨-, -, -, -, hgrade⟩ := parseCommand_addStudentGrade a.accepted
  exact hgrade

theorem grade_length (a : Addition) : a.grade.length = 2 :=
  (by decide : ∀ grade ∈ validGrades, grade.length = 2) _ a.grade_mem

/-- What is written of the addition. -/
def bytes (a : Addition) : Text := recordBytes a.memory a.name a.grade

end Addition

/-- The file, empty at first, behind some additions. -/
def fileOf (additions : List Addition) : Text := additions.flatMap Addition.bytes

/-! ## searchStudent -/

/-- What `searchStudent` prints of a student: the token that is the name, and the rest of the line,
    `none` for the `NULL` of `strtok`. -/
structure Found where
  student : Text
  grade : Option Text
deriving DecidableEq

/-- A line of the file in `searchStudent`. -/
def searchLine (name : Text) (_ : Unit) (line : Text) : Except Found Unit :=
  match strtok [','] line with
  | (some token, rest) =>
      if token = name then .error ⟨token, (strtok ['\n'] rest).1⟩ else .ok ()
  | (none, _) => .ok ()

/-- `searchStudent`; `none` is `Student not found`. -/
def searchStudent (file name : Text) : Option Found :=
  match lineLoop (searchLine name) () [] file with
  | .error found => some found
  | .ok () => none

theorem searchLine_record {name grade : Text} (hne : name ≠ []) (hcomma : ',' ∉ name)
    (hgrade : '\n' ∉ grade) (query : Text) :
    searchLine query () (name ++ ", ".toList ++ grade) =
      if name = query then .error ⟨name, some (' ' :: grade)⟩ else .ok () := by
  have hline : name ++ ", ".toList ++ grade = name ++ ',' :: (' ' :: grade) := by simp
  have hrest : '\n' ∉ ' ' :: grade := by simpa using hgrade
  rw [hline, searchLine, strtok_append hne (forall_not_mem_singleton hcomma) List.mem_cons_self]
  dsimp only
  rw [strtok_whole (List.cons_ne_nil _ _) (forall_not_mem_singleton hrest)]

/-- Nothing with a comma or a newline is ever found. -/
theorem searchLine_eq_ok {query : Text} (hquery : ',' ∈ query ∨ '\n' ∈ query) {line : Text}
    (hline : '\n' ∉ line) : searchLine query () line = .ok () := by
  unfold searchLine
  split
  · next token rest htoken =>
      refine if_neg ?_
      rintro rfl
      rcases hquery with hcomma | hnewline
      · exact not_mem_of_strtok htoken _ hcomma List.mem_cons_self
      · exact hline ((strtok_sublist htoken).1.subset hnewline)
  · rfl

/-- The search over records that fit is the search over the additions. -/
theorem searchStudent_fileOf {additions : List Addition}
    (hfits : ∀ a ∈ additions, a.name.length ≤ 29 ∧ ',' ∉ a.name ∧ '\n' ∉ a.name) (query : Text) :
    searchStudent (fileOf additions) query =
      (additions.find? fun a => a.name = query).map fun a => ⟨a.name, some (' ' :: a.grade)⟩ := by
  induction additions with
  | nil => rfl
  | cons a additions ih =>
      obtain ⟨hlength, hcomma, hnewline⟩ := hfits a List.mem_cons_self
      obtain ⟨hgradeNewline, hgradeNul⟩ : '\n' ∉ a.grade ∧ nul ∉ a.grade :=
        (by decide : ∀ grade ∈ validGrades, '\n' ∉ grade ∧ nul ∉ grade) _ a.grade_mem
      have htakes : TakesOnlyLine a.name a.grade := by
        rw [takesOnlyLine_iff, a.grade_length]
        omega
      have hfile : fileOf (a :: additions) =
          (a.name ++ ", ".toList ++ a.grade) ++ '\n' :: fileOf additions := by
        rw [fileOf, List.flatMap_cons, Addition.bytes, recordBytes_of_fits htakes]
        simp [recordLine, fileOf]
      have hline : '\n' ∉ a.name ++ ", ".toList ++ a.grade := by
        simp [hnewline, hgradeNewline]
      have hnul : nul ∉ a.name ++ ", ".toList ++ a.grade := by
        simp only [List.mem_append, not_or]
        exact ⟨⟨a.nul_not_mem_name, by decide⟩, hgradeNul⟩
      have hroom : (a.name ++ ", ".toList ++ a.grade).length ≤ maxLineLength - 1 := by
        simp only [List.length_append, a.grade_length]
        show a.name.length + 2 + 2 ≤ 34
        omega
      rw [searchStudent, hfile, lineLoop_append hline hnul hroom,
        searchLine_record a.name_ne_nil hcomma hgradeNewline]
      by_cases hname : a.name = query
      · rw [if_pos hname, List.find?_cons_of_pos (by simpa using hname)]
        rfl
      · rw [if_neg hname, List.find?_cons_of_neg (by simpa using hname)]
        exact ih fun a' ha' => hfits a' (List.mem_cons_of_mem a ha')

/-- **What the additions leave behind to be found.** Every write of a record takes only the line,
    and every search reports the first addition of its name, exactly when every name has at most 29
    characters and neither a comma nor a newline. -/
theorem searchStudent_added_iff (additions : List Addition) :
    ((∀ a ∈ additions, TakesOnlyLine a.name a.grade) ∧ ∀ query,
      searchStudent (fileOf additions) query =
        (additions.find? fun a => a.name = query).map fun a => ⟨a.name, some (' ' :: a.grade)⟩) ↔
      ∀ a ∈ additions, a.name.length ≤ 29 ∧ ',' ∉ a.name ∧ '\n' ∉ a.name := by
  constructor
  · rintro ⟨htakes, hfound⟩ a ha
    have hlength := takesOnlyLine_iff.1 (htakes a ha)
    rw [a.grade_length] at hlength
    have hname : ¬ (',' ∈ a.name ∨ '\n' ∈ a.name) := by
      intro hbad
      -- the search for the name of `a` finds nothing, though `a` was added
      have hsearch := hfound a.name
      rw [searchStudent, lineLoop_eq_ok (fun _ => searchLine_eq_ok hbad) List.not_mem_nil]
        at hsearch
      have hnone : additions.find? (fun a' => a'.name = a.name) = none :=
        Option.map_eq_none_iff.1 hsearch.symm
      exact List.find?_eq_none.1 hnone a ha (decide_eq_true rfl)
    exact ⟨by omega, fun h => hname (.inl h), fun h => hname (.inr h)⟩
  · intro hfits
    refine ⟨fun a ha => takesOnlyLine_iff.2 ?_, searchStudent_fileOf hfits⟩
    have := (hfits a ha).1
    rw [a.grade_length]
    omega

/-- A student with a comma in the name. -/
def commaAddition : Addition where
  input := "addStudentGrade \"a,b\" \"AA\"\n".toList
  name := "a,b".toList
  grade := "AA".toList
  memory := []
  size := Nat.le_of_ble_eq_true rfl
  accepted := rfl

theorem searchStudent_added_not_always :
    ¬ ∀ additions : List Addition, (∀ a ∈ additions, TakesOnlyLine a.name a.grade) ∧ ∀ query,
      searchStudent (fileOf additions) query =
        (additions.find? fun a => a.name = query).map fun a => ⟨a.name, some (' ' :: a.grade)⟩ := by
  intro hall
  exact absurd ((hall [commaAddition]).2 "a,b".toList) (by decide)

end SystemProgramming.Grades
