import SystemProgramming.Midterm.Session

set_option autoImplicit false

/-! # Text files as lists of lines

What the commands are for, when the files are texts: a file is a list of lines, `writeT` appends a
line or replaces one, `readF` shows one or all of them, and a transfer copies the list. `notebook`
is this service; `fileStore` implements it, and so does a handler (`session_notebook`). -/

namespace SystemProgramming.Server

open Function

/-! ## Lines -/

/-- A line of a text, without its newline. -/
structure Line where
  text : Text
  no_newline : '\n' ∉ text
  no_nul : nul ∉ text

/-- The file with these lines. -/
def unlines (ls : List Line) : Text := ls.flatMap fun l => l.text ++ ['\n']

section Lines

variable {ls : List Line}

theorem unlines_append (ls : List Line) (l : Line) :
    unlines (ls ++ [l]) = unlines ls ++ l.text ++ ['\n'] := by
  simp [unlines]

theorem lines_unlines (ls : List Line) :
    lines (unlines ls) = ls.map fun l => l.text ++ ['\n'] := by
  have hlines : ∀ ls : List Line, IsLines (ls.map fun l => l.text ++ ['\n']) := by
    intro ls
    induction ls with
    | nil => exact .nil
    | cons l rest ih => exact .cons l.no_newline ih
  rw [unlines, List.flatMap_def]
  exact (hlines ls).lines_flatten

theorem count_unlines (ls : List Line) : (unlines ls).count '\n' = ls.length := by
  induction ls with
  | nil => rfl
  | cons l rest ih =>
      rw [unlines, List.flatMap_cons, ← unlines, List.count_append, ih, List.count_append,
        List.count_eq_zero.2 l.no_newline, List.length_cons]
      simp [Nat.add_comm]

theorem nul_not_mem_unlines (ls : List Line) : nul ∉ unlines ls := by
  intro h
  obtain ⟨l, -, hl⟩ := List.mem_flatMap.1 h
  rcases List.mem_append.1 hl with hl | hl
  · exact l.no_nul hl
  · exact absurd (List.mem_singleton.1 hl) (by decide)

theorem setLine_unlines (ls : List Line) (k : ℕ) (l : Line) :
    setLine k l.text (unlines ls) = unlines (ls.set k l) := by
  rw [setLine, lines_unlines, unlines, List.flatMap_def, List.map_set]

/-- The lines up to line `k` fit in every buffer, with their newlines. -/
def Short (k : ℕ) (ls : List Line) : Prop := ∀ l ∈ ls.take k, l.text.length ≤ 4094

instance (k : ℕ) (ls : List Line) : Decidable (Short k ls) :=
  inferInstanceAs (Decidable (∀ l ∈ ls.take k, l.text.length ≤ 4094))

theorem Short.editable {k : ℕ} (h : Short k ls) : Editable k (unlines ls) := by
  refine ⟨nul_not_mem_unlines ls, fun l hl => ?_⟩
  rw [lines_unlines, ← List.map_take] at hl
  obtain ⟨x, hx, rfl⟩ := List.mem_map.1 hl
  have := h x hx
  rw [List.length_append, List.length_singleton]
  omega

theorem Short.linesFit {k : ℕ} (hk : 1 ≤ k) (h : Short k ls) :
    LinesFit (k - 1) (lines (unlines ls)) := by
  rw [lines_unlines]
  induction ls generalizing k with
  | nil => trivial
  | cons l rest ih =>
      obtain ⟨n, rfl⟩ := Nat.exists_eq_add_of_le' hk
      have hl := h l (by simp)
      rw [List.map_cons, LinesFit, lineLength_line l.no_newline]
      split
      · omega
      · next hne =>
          have hn : n ≠ 0 := fun h0 => hne ⟨by simp [h0], by simp⟩
          have hrest : Short n rest := fun x hx => h x (by simp [hx])
          refine ⟨by omega, ?_⟩
          have := ih (Nat.one_le_iff_ne_zero.2 hn) hrest
          rwa [show ((n + 1 : ℕ) : ℤ) - 1 - 1 = (n : ℤ) - 1 by omega]

end Lines

/-! ## The service -/

/-- The text of the command as a line. -/
def TextCommand.newLine (c : TextCommand) (hline : '\n' ∉ c.text) : Line :=
  ⟨c.text, hline, c.text_nul⟩

/-- The line that `writeT` appends. -/
def TextCommand.lastLine (c : TextCommand) (hline : '\n' ∉ c.text) : Line where
  text := appendedLine c.text
  no_newline := by
    unfold appendedLine
    split
    · exact hline
    · simp [hline]
  no_nul := by
    unfold appendedLine
    split
    · exact c.text_nul
    · simpa using ⟨c.text_nul, by decide⟩

/-- `readF` of line `k`; for the line behind the last one it sends nothing. -/
def showLine (k : ℕ) (ls : List Line) : Text :=
  match ls[k - 1]? with
  | some l => l.text ++ ['\n']
  | none =>
      if k = ls.length + 1 then []
      else reply "Line number exceeds the number of lines in the file.\n"

/-- `readF` on the lines of the file, if there is one. -/
def showLines (number : Option LineNumber) : Option (List Line) → Option Text
  | none => some (reply "Error opening file to read\n")
  | some ls =>
      match number with
      | none => some (unlines ls)
      | some k => if Short k.value ls then some (showLine k.value ls) else none

/-- `writeT`: the lines that it leaves, if it changes the file, and the answer. -/
def editNotes (c : TextCommand) (hline : '\n' ∉ c.text) (ls : Option (List Line)) :
    Option (Option (List Line) × Text) :=
  match c.number, ls with
  | none, ls =>
      some (some (ls.getD [] ++ [c.lastLine hline]), reply "Succesfully written into the file.\n")
  | some _, none => some (none, reply "Error opening file to write.\n")
  | some k, some ls =>
      if Short (digitsValue k) ls then
        if digitsValue k ≤ ls.length then
          some (some (ls.set (digitsValue k - 1) (c.newLine hline)),
            reply "Succesfully written into the file.\n")
        else some (none, reply "Line number exceeds the number of lines in the file.\n")
      else none

/-- `transferAnswer` on lines. -/
def transferNotes (t : Transfer) (source dest : Option (List Line)) (missing taken : String) :
    Option (List Line) × Text :=
  match source, dest with
  | none, _ => (none, reply missing)
  | some _, some _ => (none, reply taken)
  | some ls, none => (some ls, reply (t.success (unlines ls).length))

/-- `putFile` on lines. -/
def putNotes (notes : Path → Option (List Line)) (path : Path) :
    Option (List Line) → Path → Option (List Line)
  | none => notes
  | some ls => update notes path (some ls)

/-- The commands on text files. -/
def notebook : Service (Path → Option (List Line)) FileCommand Text where
  serve notes c :=
    match c with
    | .write c hline _ =>
        (editNotes c hline (notes (.file c.fileName))).map fun r =>
          (putNotes notes (.file c.fileName) r.1, r.2)
    | .read file number => (showLines number (notes (.file file.text))).map fun r => (notes, r)
    | .upload file =>
        let r := transferNotes .upload (notes (.file file.text)) (notes (.serverFile file.text))
          "Error opening file for upload\n" "File already exists in the server's directory\n"
        some (putNotes notes (.serverFile file.text) r.1, r.2)
    | .download file =>
        let r := transferNotes .download (notes (.serverFile file.text)) (notes (.file file.text))
          "File does not exist in the server's directory\n"
          "File already exists in the client's directory\n"
        some (putNotes notes (.file file.text) r.1, r.2)

/-! ## The store implements it -/

/-- The contents of the text files. -/
def contents (notes : Path → Option (List Line)) (path : Path) : Option Text :=
  (notes path).map unlines

theorem contents_putNotes (notes : Path → Option (List Line)) (path : Path)
    (ls : Option (List Line)) :
    contents (putNotes notes path ls) = putFile (contents notes) path (ls.map unlines) := by
  cases ls with
  | none => rfl
  | some ls =>
      funext p
      by_cases hp : p = path
      · rw [hp]
        simp [contents, putNotes, putFile]
      · simp [contents, putNotes, putFile, update_of_ne hp]

theorem readAnswer_showLines {number : Option LineNumber} {ls : Option (List Line)} {answer : Text}
    (h : showLines number ls = some answer) : readAnswer number (ls.map unlines) = some answer := by
  cases ls with
  | none => exact h
  | some ls =>
      cases number with
      | none => exact h
      | some k =>
          obtain ⟨hshort, hanswer⟩ := Option.ite_none_right_eq_some.1 h
          have hpos : 1 ≤ k.value := k.pos
          have hlength := congrArg List.length (lines_unlines ls)
          rw [List.length_map] at hlength
          show (if LinesFit _ _ then some _ else none) = _
          rw [if_pos (hshort.linesFit hpos), ← hanswer, lineAnswer, count_unlines, showLine]
          cases hl : ls[k.value - 1]? with
          | some l =>
              have hlt := (List.getElem?_eq_some_iff.1 hl).1
              rw [if_neg (by omega), lineResponse, lines_unlines, List.getElem?_map, hl]
              rfl
          | none =>
              have hle := List.getElem?_eq_none_iff.1 hl
              dsimp only
              split
              · rfl
              · rw [lineResponse, List.getElem?_eq_none (by omega)]
                rfl

theorem writeAnswer_editNotes {c : TextCommand} {hline : '\n' ∉ c.text} {ls : Option (List Line)}
    {r : Option (List Line) × Text} (h : editNotes c hline ls = some r) :
    writeAnswer c (ls.map unlines) = some (r.1.map unlines, r.2) := by
  unfold editNotes at h
  unfold writeAnswer
  cases hnumber : c.number with
  | none =>
      simp only [hnumber] at h ⊢
      cases h
      have happend : (Option.map unlines ls).getD [] = unlines (ls.getD []) := by
        cases ls <;> rfl
      rw [happend, Option.map_some, unlines_append]
      rfl
  | some k =>
      cases ls with
      | none =>
          simp only [hnumber] at h ⊢
          cases h
          rfl
      | some ls =>
          simp only [hnumber, Option.map_some] at h ⊢
          obtain ⟨hshort, h⟩ := Option.ite_none_right_eq_some.1 h
          rw [if_pos hshort.editable, lines_unlines, List.length_map]
          split at h
          · next hle =>
              cases h
              rw [if_pos hle]
              have hset := setLine_unlines ls (digitsValue k - 1) (c.newLine hline)
              rw [show c.text = (c.newLine hline).text from rfl, hset]
              rfl
          · next hlt =>
              cases h
              rw [if_neg hlt]
              rfl

theorem transferAnswer_transferNotes (t : Transfer) (source dest : Option (List Line))
    (missing taken : String) :
    transferAnswer t (source.map unlines) (dest.map unlines) missing taken
      = ((transferNotes t source dest missing taken).1.map unlines,
        (transferNotes t source dest missing taken).2) := by
  cases source with
  | none => rfl
  | some ls => cases dest <;> rfl

theorem fileStore_implements :
    fileStore.Implements notebook (fun files notes => files = contents notes) Eq := by
  rintro files notes c _ notes' answer rfl rfl hserve
  refine ⟨contents notes', ?_, rfl⟩
  cases c with
  | write c hline hfile =>
      obtain ⟨r, hedit, heq⟩ := Option.map_eq_some_iff.1 hserve
      cases heq
      show (writeAnswer c (contents notes _)).map _ = _
      rw [contents_putNotes, contents, writeAnswer_editNotes hedit]
      rfl
  | read file number =>
      obtain ⟨text, hread, heq⟩ := Option.map_eq_some_iff.1 hserve
      cases heq
      show (readAnswer number (contents notes _)).map _ = _
      rw [contents, readAnswer_showLines hread]
      rfl
  | upload file =>
      cases hserve
      rw [contents_putNotes]
      show some (putFile _ _ (transferAnswer _ (contents notes _) (contents notes _) _ _).1, _) = _
      rw [contents, contents, transferAnswer_transferNotes]
  | download file =>
      cases hserve
      rw [contents_putNotes]
      show some (putFile _ _ (transferAnswer _ (contents notes _) (contents notes _) _ _).1, _) = _
      rw [contents, contents, transferAnswer_transferNotes]

/-- **Sessions on texts.** While the files are texts, a client that is alone with them sees lists
    of lines: every answer of a session, and the files behind it, are those of the notebook. -/
theorem session_notebook {names : List Text} {w : Host} (hw : w.Attends names)
    {notes : Path → Option (List Line)} (hfiles : w.files = contents notes) {ms : List Memory}
    {cs : List FileCommand} (hcommands : List.Forall₂ (Carries names) ms cs)
    {notes' : Path → Option (List Line)} {answers : List Text}
    (hnotes : notebook.session notes cs = some (notes', answers)) :
    ∃ w', handler.session w ms = some (w', answers) ∧ w'.files = contents notes' ∧
      w'.Attends names := by
  have himp := (handler_implements names).trans fileStore_implements
  rw [Relation.comp_eq] at himp
  obtain ⟨w', hsession, files, ⟨hattends, hkept⟩, hend⟩ :=
    himp.session hcommands ⟨_, ⟨hw, rfl⟩, hfiles⟩ hnotes
  exact ⟨w', hsession, hkept.trans hend, hattends⟩

/-- `north`, `south` and `east` -/
def directions : List Line :=
  [⟨"north".toList, by decide, by decide⟩, ⟨"south".toList, by decide, by decide⟩,
    ⟨"east".toList, by decide, by decide⟩]

/-- `writeT dirs 3 west` -/
def editDirections : TextCommand where
  fileName := "dirs".toList
  number := some ['3']
  text := "west".toList
  fileName_ne := by decide
  fileName_space := by decide
  number_ne := by decide
  number_range := by decide
  text_ne := by decide
  text_start := by decide
  text_nul := by decide
  text_word := nofun

/-- The third line is replaced, read, and uploaded with the others. -/
theorem session_notebook_directions :
    ∃ w', handler.session
        (Host.fresh (contents (update (fun _ => none) (.file "dirs".toList) directions)))
        [⟨"writeT dirs 3 west".toList, [], []⟩, ⟨"readF dirs 3".toList, [], []⟩,
          ⟨"upload dirs".toList, [], []⟩]
          = some (w', [reply "Succesfully written into the file.\n", "west\n".toList,
              reply (Transfer.upload.success 17)]) ∧
      w'.files (.serverFile "dirs".toList) = some "north\nsouth\nwest\n".toList := by
  have hcommands : List.Forall₂ (Carries ["dirs".toList])
      [⟨"writeT dirs 3 west".toList, [], []⟩, ⟨"readF dirs 3".toList, [], []⟩,
        ⟨"upload dirs".toList, [], []⟩]
      [.write editDirections (by decide) (by decide),
        .read ⟨"dirs".toList, by decide, by decide⟩
          (some ⟨['3'], by decide, by decide, by decide, by decide⟩),
        .upload ⟨"dirs".toList, by decide, by decide⟩] :=
    .cons ⟨by decide, by decide⟩ (.cons ⟨by decide, by decide⟩
      (.cons ⟨by decide, by decide⟩ .nil))
  have hw := Host.attends_fresh
    (contents (update (fun _ => none) (.file "dirs".toList) directions)) "dirs".toList
  obtain ⟨w', hrun, hfiles, -⟩ := session_notebook hw rfl hcommands rfl
  exact ⟨w', hrun, by rw [hfiles]; rfl⟩

end SystemProgramming.Server
