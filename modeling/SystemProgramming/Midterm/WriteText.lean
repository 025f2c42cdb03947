import SystemProgramming.Midterm.ReplaceLine

set_option autoImplicit false

/-! # The text of writeT

What `writeT` takes for its string, for a text that the client has typed behind the file name, or
behind the number of a line. -/

namespace SystemProgramming.Server

open Function Prog Sync Handler

/-! ## The arguments -/

section Args

variable {rest fileName rest' token rest'' : Text} {locals : Locals}

/-- A text that does not start with a number is glued together again. -/
theorem writeTArgs_word (hfile : strtok [' '] rest = (some fileName, rest'))
    (htoken : strtok [' '] rest' = (some token, rest'')) (hword : token.all Char.isDigit = false) :
    writeTArgs rest locals
      = some ⟨fileName, -1, some (token ++ ' ' :: (strtok [] rest'').1.getD [])⟩ := by
  unfold writeTArgs
  simp only [hfile, htoken, hword, Bool.false_eq_true, if_false]
  rw [wholeString, if_pos (by simp), List.append_assoc, List.singleton_append]

/-- The text behind the number of a line. -/
theorem writeTArgs_number (hfile : strtok [' '] rest = (some fileName, rest'))
    (htoken : strtok [' '] rest' = (some token, rest'')) (hdigits : token.all Char.isDigit = true)
    (hnumber : 0 < atoi token) :
    writeTArgs rest locals = some ⟨fileName, atoi token, (strtok [] rest'').1⟩ := by
  have hne : atoi token ≠ 0 := by omega
  have hnonneg : 0 ≤ atoi token := by omega
  unfold writeTArgs
  simp only [hfile, htoken, hdigits, hne, hnonneg, if_true, if_false]

/-- A string without the number of a line is appended. -/
theorem returns_writeT_append {string : Text} {w : Host}
    (hargs : writeTArgs rest locals = some ⟨fileName, -1, some string⟩)
    (hready : w.Ready .writer fileName) :
    Returns Host.answer (writeT rest locals) w fun _ w' =>
      w'.files = update w.files (.file fileName)
        (some ((w.files (.file fileName)).getD [] ++ string ++ ['\n'])) := by
  obtain ⟨g, hlock⟩ := hready.enter
  unfold writeT
  rw [hargs]
  refine returns_bind ⟨_, _, hready.runIn_fileEntry, ?_⟩
  refine (returns_appendString (hready.calm.located _) hlock _ _).mono ?_
  rintro - w' ⟨hfiles, -⟩
  rwa [Host.located_files] at hfiles

end Args

/-! ## The commands -/

/-- `writeT f s` or `writeT f k s`, with the decimal number `k` of a line that fits an `int`;
    without a number the first word of `s` is none. -/
structure TextCommand where
  fileName : Text
  number : Option Text
  text : Text
  fileName_ne : fileName ≠ []
  fileName_space : ' ' ∉ fileName
  number_ne : ∀ k ∈ number, k ≠ [] ∧ k.all Char.isDigit = true
  number_range : ∀ k ∈ number, 1 ≤ digitsValue k ∧ digitsValue k ≤ 2147483647
  text_ne : text ≠ []
  text_start : text.head? ≠ some ' '
  text_nul : nul ∉ text
  text_word : number = none → (text.takeWhile (· ≠ ' ')).all Char.isDigit = false

namespace TextCommand

/-- What follows the file name. -/
def tail (c : TextCommand) : Text :=
  match c.number with
  | none => c.text
  | some k => k ++ ' ' :: c.text

/-- The command as it is typed. -/
def command (c : TextCommand) : Text := "writeT".toList ++ ' ' :: (c.fileName ++ ' ' :: c.tail)

/-- `writeT` appends exactly the text and a newline, or uses exactly the text as the new line. -/
def Stores (c : TextCommand) (locals : Locals) : Prop :=
  match c.number with
  | none => ∀ w : Host, w.Ready .writer c.fileName →
      Returns Host.answerRequest (dispatch c.command locals) w fun _ w' =>
        w'.files = update w.files (.file c.fileName)
          (some ((w.files (.file c.fileName)).getD [] ++ c.text ++ ['\n']))
  | some k => ∀ (w : Host) (content : Text), (∀ role, w.Ready role c.fileName) →
      w.files (.file c.fileName) = some content →
      Returns Host.answerRequest (dispatch c.command locals) w fun _ w' =>
        Edited w c.fileName (editLines (digitsValue k) c.text content) w'

theorem splitCommand_command (c : TextCommand) :
    splitCommand c.command = ("writeT".toList, c.fileName ++ ' ' :: c.tail) := by
  unfold splitCommand command
  rw [strtok_token (by decide) (by decide)]

theorem fileCommand_command (c : TextCommand) :
    fileCommand (splitCommand c.command).1 = some .writeT := by
  rw [splitCommand_command]
  rfl

/-- The string that `writeT` appends: a single word gets a space. -/
theorem args_append (c : TextCommand) (hnumber : c.number = none) (locals : Locals) :
    writeTArgs (splitCommand c.command).2 locals
      = some ⟨c.fileName, -1, some (if ' ' ∈ c.text then c.text else c.text ++ [' '])⟩ := by
  have hword := c.text_word hnumber
  have hfile : strtok [' '] (splitCommand c.command).2 = (some c.fileName, c.text) := by
    rw [splitCommand_command, tail, hnumber]
    exact strtok_token c.fileName_ne c.fileName_space
  by_cases hspace : ' ' ∈ c.text
  · obtain ⟨word, more, htext, hno⟩ := List.eq_append_cons_of_mem hspace
    have hne : word ≠ [] := by
      rintro rfl
      exact c.text_start (by rw [htext]; rfl)
    have hfirst : c.text.takeWhile (· ≠ ' ') = word := by
      rw [htext, List.takeWhile_append_of_pos fun d hd => by
        simpa using fun h : d = ' ' => hno (h ▸ hd)]
      simp
    rw [hfirst] at hword
    have htoken : strtok [' '] c.text = (some word, more) := by
      rw [htext]
      exact strtok_token hne hno
    have hmore : (strtok [] more).1.getD [] = more := by
      by_cases hnil : more = []
      · rw [hnil]
        rfl
      · rw [strtok_rest hnil]
        rfl
    rw [writeTArgs_word hfile htoken hword, hmore, if_pos hspace, ← htext]
  · have hfirst : c.text.takeWhile (· ≠ ' ') = c.text :=
      List.takeWhile_eq_self_iff.2 fun d hd => by simpa using fun h : d = ' ' => hspace (h ▸ hd)
    rw [hfirst] at hword
    rw [writeTArgs_word hfile (strtok_last c.text_ne hspace) hword, if_neg hspace]
    rfl

/-- The string that `writeT` takes for the new line. -/
theorem args_line (c : TextCommand) {k : Text} (hnumber : c.number = some k) (locals : Locals) :
    writeTArgs (splitCommand c.command).2 locals
      = some ⟨c.fileName, digitsValue k, some c.text⟩ := by
  obtain ⟨hne, hdigits⟩ := c.number_ne k hnumber
  obtain ⟨hpos, hmax⟩ := c.number_range k hnumber
  have hvalue := atoi_digits hdigits hmax
  have hspace : ' ' ∉ k := fun h => by
    have hdigit := List.all_eq_true.1 hdigits ' ' h
    revert hdigit
    decide
  have hfile : strtok [' '] (splitCommand c.command).2 = (some c.fileName, k ++ ' ' :: c.text) := by
    rw [splitCommand_command, tail, hnumber]
    exact strtok_token c.fileName_ne c.fileName_space
  rw [writeTArgs_number hfile (strtok_token hne hspace) hdigits (by omega), hvalue,
    strtok_rest c.text_ne]

/-- A number leads to the edit of a line with the text. -/
theorem stores_line (c : TextCommand) {k : Text} (hnumber : c.number = some k) (locals : Locals)
    {w : Host} {content : Text} (hready : ∀ role, w.Ready role c.fileName)
    (hcontent : w.files (.file c.fileName) = some content) :
    Returns Host.answerRequest (dispatch c.command locals) w fun _ w' =>
      Edited w c.fileName (editLines (digitsValue k) c.text content) w' := by
  have hne : ((digitsValue k : ℕ) : ℤ) ≠ -1 := by omega
  exact returns_dispatch c.fileCommand_command
    (returns_writeT_line hne (c.args_line hnumber locals) hready hcontent)

theorem returns_append (c : TextCommand) (hnumber : c.number = none) (locals : Locals) {w : Host}
    (hready : w.Ready .writer c.fileName) :
    Returns Host.answerRequest (dispatch c.command locals) w fun _ w' =>
      w'.files = update w.files (.file c.fileName)
        (some ((w.files (.file c.fileName)).getD []
          ++ (if ' ' ∈ c.text then c.text else c.text ++ [' ']) ++ ['\n'])) :=
  returns_dispatch c.fileCommand_command
    (returns_writeT_append (c.args_append hnumber locals) hready)

/-- A single word gets a space. -/
theorem not_stores_word (c : TextCommand) (hnumber : c.number = none) (hspace : ' ' ∉ c.text)
    (locals : Locals) : ¬ c.Stores locals := by
  intro h
  unfold Stores at h
  rw [hnumber] at h
  have hready := Host.ready_fresh (fun _ => none) .writer c.fileName
  obtain ⟨_, w', -, hstored, hfiles⟩ := (h _ hready).and (c.returns_append hnumber locals hready)
  rw [hstored, if_neg hspace] at hfiles
  have hlength := congrArg (fun file => (file.getD []).length)
    (congrFun hfiles (.file c.fileName))
  simp at hlength

end TextCommand

/-- **The text of writeT.** `writeT` stores the text that it is given, whatever the uninitialised
    buffers hold, unless the text is a single word to be appended. -/
theorem writeT_text_iff (c : TextCommand) (locals : Locals) :
    c.Stores locals ↔ (c.number = none → ' ' ∈ c.text) := by
  constructor
  · intro h hnumber
    by_contra hspace
    exact c.not_stores_word hnumber hspace locals h
  · intro hspace
    unfold TextCommand.Stores
    cases hnumber : c.number with
    | some k =>
        intro w content hready hcontent
        exact c.stores_line hnumber locals hready hcontent
    | none =>
        intro w hready
        have hreturns := c.returns_append hnumber locals hready
        rwa [if_pos (hspace hnumber)] at hreturns

/-- `writeT f ab` -/
def singleWord : TextCommand where
  fileName := ['f']
  number := none
  text := ['a', 'b']
  fileName_ne := by decide
  fileName_space := by decide
  number_ne := nofun
  number_range := nofun
  text_ne := by decide
  text_start := by decide
  text_nul := by decide
  text_word := fun _ => by decide

/-- `ab` is stored with a space behind it. -/
theorem writeT_text_not_always : ¬ ∀ (c : TextCommand) (locals : Locals), c.Stores locals :=
  fun h => singleWord.not_stores_word rfl (by decide) ⟨[], []⟩ (h singleWord ⟨[], []⟩)

end SystemProgramming.Server
