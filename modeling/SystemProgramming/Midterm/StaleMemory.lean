import SystemProgramming.Midterm.WriteText

set_option autoImplicit false

/-! # Stale memory

The buffers of a pass of the command loop hold what earlier passes have left there. The bytes behind
a command are never looked at, but `readF` without a file name takes its name from there, and
`writeT` without a text, or with the line number 0, its text. -/

namespace SystemProgramming.Server

open Function Prog Sync Handler

/-- What the buffers of a pass hold: `command` once the client's command is in it, and `file_name`
    and `str` at the start. -/
structure Memory where
  command : Text
  fileName : Text
  str : Text

/-- The strings at the start of the two arrays. -/
def Memory.locals (m : Memory) : Locals := ⟨cString m.fileName, cString m.str⟩

namespace Host

/-- The client has sent a command. -/
def withCommand (w : Host) (command : Text) : Host := { w with command := command }

/-- A pass of the command loop with this memory. -/
def pass (w : Host) (m : Memory) : Option (SystemProgramming.Outcome Next) × Host :=
  runIn answerRequest (request m.locals) (w.withCommand m.command)

/-- What a pass can change for others: the responses, the files and the entries of the table. -/
def effect (w : Host) : List Text × (Path → Option Text) × List File :=
  (w.responses, w.files, (List.range w.sd.size).map w.sd.files)

section WithCommand

variable (w : Host) (command : Text)

theorem openRead_withCommand (path : Path) : (w.withCommand command).openRead path
    = ((w.openRead path).1, (w.openRead path).2.withCommand command) := by
  have hsucceeds : (w.withCommand command).succeeds = w.succeeds := rfl
  have hfiles : (w.withCommand command).files = w.files := rfl
  unfold openRead
  rw [hsucceeds]
  cases w.succeeds with
  | false => rfl
  | true =>
      cases path with
      | clientFifo => rfl
      | file name => cases hfile : w.files (.file name) <;> simp [hfiles, hfile] <;> rfl
      | serverFile name => cases hfile : w.files (.serverFile name) <;> simp [hfiles, hfile] <;> rfl

theorem openWrite_withCommand (path : Path) (mode : WriteMode) :
    (w.withCommand command).openWrite path mode
      = ((w.openWrite path mode).1, (w.openWrite path mode).2.withCommand command) := by
  have hsucceeds : (w.withCommand command).succeeds = w.succeeds := rfl
  have hfiles : (w.withCommand command).files = w.files := rfl
  unfold openWrite
  rw [hsucceeds]
  cases w.succeeds with
  | false => rfl
  | true =>
      cases path with
      | clientFifo => rfl
      | file name =>
          cases hopen : mode.onOpen (w.files (.file name)) <;> simp [hfiles, hopen] <;> rfl
      | serverFile name =>
          cases hopen : mode.onOpen (w.files (.serverFile name)) <;> simp [hfiles, hopen] <;> rfl

theorem put_withCommand (fd : ℕ) (bytes : Text) :
    (w.withCommand command).put fd bytes = (w.put fd bytes).withCommand command := by
  have hopened : (w.withCommand command).opened = w.opened := rfl
  unfold put
  rw [hopened]
  cases w.opened fd with
  | none => rfl
  | some file => cases file <;> rfl

theorem write_withCommand (fd : ℕ) (bytes : Text) : (w.withCommand command).write fd bytes
    = ((w.write fd bytes).1, (w.write fd bytes).2.withCommand command) := by
  have hmoved : (w.withCommand command).moved bytes = w.moved bytes := rfl
  unfold write
  rw [hmoved]
  dsimp only
  split
  · rfl
  · exact congrArg (Prod.mk _) (put_withCommand w.tick command fd _)

theorem answer_withCommand (c : Call) : (w.withCommand command).answer c
    = (w.answer c).map fun r => (r.1, r.2.withCommand command) := by
  cases c with
  | lock op entry =>
      show ((op.apply (w.sd.files entry)).map _) = ((op.apply (w.sd.files entry)).map _).map _
      rw [Option.map_map]
      rfl
  | openRead path => exact congrArg some (openRead_withCommand w command path)
  | openWrite path mode => exact congrArg some (openWrite_withCommand w command path mode)
  | tmpfile =>
      show some (if w.succeeds = true then _ else _) = _
      rw [answer]
      cases w.succeeds <;> rfl
  | write fd bytes => exact congrArg some (write_withCommand w command fd bytes)
  | fputs fd bytes => exact congrArg (fun w' => some ((), w')) (put_withCommand w.tick command fd _)
  | _ => rfl

theorem answerRequest_withCommand (h : cString w.command = cString command) (c : RequestCall) :
    (w.withCommand command).answerRequest c
      = (w.answerRequest c).map fun r => (r.1, r.2.withCommand command) := by
  cases c with
  | file c => exact answer_withCommand w command c
  | readCommand fd =>
      show some (if w.succeeds = true then some (cString command) else none, _) = _
      rw [answerRequest, ← h]
      rfl
  | _ => rfl

/-- No call changes the command. -/
theorem answerRequest_command {c : RequestCall} {r : RequestReply c × Host}
    (h : w.answerRequest c = some r) : r.2.command = w.command := by
  have hsame := answerRequest_withCommand w w.command rfl c
  rw [show w.withCommand w.command = w from rfl, h] at hsame
  exact congrArg (fun r => r.2.command) (Option.some.inj hsame)

end WithCommand

/-- The bytes behind the terminator of the command change nothing. -/
theorem effect_pass (w : Host) {m : Memory} {command : Text}
    (hcommand : cString m.command = command) :
    (w.pass m).2.effect
      = (runIn answerRequest (request m.locals) (w.withCommand command)).2.effect := by
  have hterminated : cString (w.withCommand command).command = command := by
    show cString command = command
    rw [← hcommand]
    exact cString_of_not_mem (nul_not_mem_cString _)
  have hanswer : ∀ w : Host, cString w.command = command → ∀ c,
      answerRequest (w.withCommand m.command) c
        = (answerRequest w c).map fun r => (r.1, r.2.withCommand m.command) :=
    fun w h c => answerRequest_withCommand w m.command (h.trans hcommand.symm) c
  have hkeep : ∀ w : Host, cString w.command = command → ∀ c r, answerRequest w c = some r →
      cString r.2.command = command :=
    fun w h c r hr => (congrArg cString (answerRequest_command w hr)).trans h
  have hmap := runIn_map hanswer hkeep (p := request m.locals) hterminated
  exact congrArg (fun r => r.2.effect) hmap

end Host

/-! ## The commands that use what is left -/

/-- `writeT` without a text, or with a number that it takes for none. -/
def UsesStr (rest : Text) : Prop :=
  match strtok [' '] rest with
  | (none, _) => False
  | (some _, rest) =>
      match strtok [' '] rest with
      | (none, _) => True
      | (some token, _) => token.all Char.isDigit = true ∧ (atoi token = 0 ∨ atoi token = -1)

/-- The command makes its handler use what is left in `file_name` or in `str`. -/
def UsesStale (command : Text) : Prop :=
  match fileCommand (splitCommand command).1 with
  | some .readF => (strtok [' '] (splitCommand command).2).1 = none
  | some .writeT => UsesStr (splitCommand command).2
  | _ => False

theorem readF_locals {rest : Text} (h : (strtok [' '] rest).1 ≠ none) (locals locals' : Locals) :
    readF rest locals = readF rest locals' := by
  have hargs : readFArgs rest locals = readFArgs rest locals' := by
    unfold readFArgs
    rcases hfile : strtok [' '] rest with ⟨_ | fileName, rest'⟩
    · exact absurd (by rw [hfile]) h
    · rfl
  unfold readF
  rw [hargs]

/-- A line number below the first leads to no line, and the string is not used. -/
theorem replaceString_past (fileName : Text) (sfile : ℕ) {lineNumber : ℤ} (h : lineNumber ≤ 0)
    (string string' : Text) :
    replaceString fileName sfile lineNumber (some string)
      = replaceString fileName sfile lineNumber (some string') := by
  have hedit (string content : Text) : editLines lineNumber string content
      = ((fgetsAll 4096 content).flatMap cString, false) := editLoop_past h string _
  unfold replaceString
  simp only [Option.getD_some, hedit]
  rfl

theorem writeT_locals {rest : Text} (h : ¬ UsesStr rest) (locals locals' : Locals) :
    writeT rest locals = writeT rest locals' := by
  unfold UsesStr at h
  unfold writeT writeTArgs
  rcases hfile : strtok [' '] rest with ⟨_ | fileName, rest'⟩
  · rfl
  · rcases htoken : strtok [' '] rest' with ⟨_ | token, rest''⟩
    · simp only [hfile, htoken] at h
      exact absurd trivial h
    · simp only [hfile, htoken] at h
      simp only [htoken]
      by_cases hdigits : token.all Char.isDigit = true
      · have hzero : atoi token ≠ 0 := fun hatoi => h ⟨hdigits, .inl hatoi⟩
        have hne : atoi token ≠ -1 := fun hatoi => h ⟨hdigits, .inr hatoi⟩
        by_cases hnonneg : 0 ≤ atoi token
        · simp only [hdigits, hzero, hnonneg, if_true, if_false]
        · simp only [hdigits, hzero, hne, hnonneg, if_true, if_false]
          exact congrArg (fileEntry fileName >>= ·) (funext fun sfile =>
            replaceString_past fileName sfile (by omega) _ _)
      · simp only [hdigits, Bool.false_eq_true, if_false]

theorem dispatch_locals {command : Text} (h : ¬ UsesStale command) (locals locals' : Locals) :
    dispatch command locals = dispatch command locals' := by
  unfold UsesStale at h
  cases hname : fileCommand (splitCommand command).1 with
  | none =>
      unfold dispatch runNamed
      rw [hname]
  | some name =>
      rw [hname] at h
      rw [dispatch_file locals hname, dispatch_file locals' hname]
      cases name with
      | readF => exact congrArg (files · >>= _) (readF_locals h locals locals')
      | writeT => exact congrArg (files · >>= _) (writeT_locals h locals locals')
      | upload => rfl
      | download => rfl

theorem openRead_command (w : Host) (path : Path) : (w.openRead path).2.command = w.command := by
  have hsame := Host.openRead_withCommand w w.command path
  exact congrArg (fun r => r.2.command) hsame

/-- A pass reads its command and does what `dispatch` says, or does not get that far. -/
theorem runIn_request_congr {w : Host} {locals locals' : Locals}
    (h : dispatch (cString w.command) locals = dispatch (cString w.command) locals') :
    runIn Host.answerRequest (request locals) w = runIn Host.answerRequest (request locals') w := by
  have hcommand := openRead_command w .clientFifo
  have hopen : runIn Host.answerRequest (files (openRead .clientFifo)) w
      = (some (.returned (w.openRead .clientFifo).1), (w.openRead .clientFifo).2) := runIn_files _ w
  generalize w.openRead .clientFifo = r at hcommand hopen
  obtain ⟨clientFd, w₁⟩ := r
  unfold request
  rw [runIn_bind_returned hopen, runIn_bind_returned hopen]
  cases clientFd with
  | none => rfl
  | some clientFd =>
      have hread : w₁.answerRequest (.readCommand clientFd)
          = some (if w₁.succeeds then some (cString w₁.command) else none, w₁.tick) := rfl
      have hdispatch : dispatch (cString w₁.command) locals
          = dispatch (cString w₁.command) locals' := by
        rw [show w₁.command = w.command from hcommand]
        exact h
      refine (runIn_perform_bind hread).trans (Eq.trans ?_ (runIn_perform_bind hread).symm)
      cases w₁.succeeds with
      | false => rfl
      | true =>
          show runIn _ (files (close clientFd) >>= fun _ => dispatch (cString w₁.command) locals) _ = _
          rw [hdispatch]
          rfl

/-! ## What is left shows -/

namespace Host

/-- The host once the handler has its command. -/
def listening (w : Host) : Host := (w.opening .fifo).tick.closed w.nextFd

/-- The effect of a pass is that of its command. -/
theorem effect_of_returns {w : Host} (h : w.Calm) {m : Memory} {P : Host → Prop} {command : Text}
    (hcommand : cString m.command = command)
    (hrun : Returns answerRequest (dispatch command m.locals) (w.withCommand command).listening
      fun _ w' => P w') :
    ∃ w', (w.pass m).2.effect = w'.effect ∧ P w' := by
  have hcalm : (w.withCommand command).Calm := h
  have hterminated : cString (w.withCommand command).command = command := by
    show cString command = command
    rw [← hcommand]
    exact cString_of_not_mem (nul_not_mem_cString _)
  have hopen : runIn answerRequest (Server.files (Handler.openRead .clientFifo)) (w.withCommand command)
      = (some (.returned (some w.nextFd)), (w.withCommand command).opening .fifo) := by
    refine (runIn_files _ _).trans (runIn_perform ?_)
    show some ((w.withCommand command).openRead .clientFifo) = _
    rw [Host.openRead, hcalm.succeeds]
    rfl
  have hread : ((w.withCommand command).opening .fifo).answerRequest (.readCommand w.nextFd)
      = some (some command, ((w.withCommand command).opening .fifo).tick) := by
    have hsucceeds : ((w.withCommand command).opening .fifo).succeeds = true :=
      Calm.succeeds (by exact h)
    rw [answerRequest, hsucceeds]
    exact congrArg (fun text => some (some text, _)) hterminated
  have hpass : Returns answerRequest (request m.locals) (w.withCommand command) fun _ w' => P w' := by
    refine returns_bind ⟨_, _, hopen, returns_perform_bind hread ?_⟩
    exact returns_bind ⟨_, _, (runIn_files _ _).trans (runIn_perform answer_close), hrun⟩
  obtain ⟨_, w', hend, hP⟩ := hpass
  refine ⟨w', ?_, hP⟩
  rw [effect_pass w hcommand, hend]

end Host

/-- `readF` of a file that is not there enters it. -/
theorem returns_readF_missing {w : Host} {rest fileName : Text} {locals : Locals} {valid : Bool}
    {lineNumber : ℤ} (hargs : readFArgs rest locals = (valid, fileName, lineNumber))
    (hready : w.Ready .reader fileName) (hmissing : w.files (.file fileName) = none) :
    Returns Host.answer (readF rest locals) w fun _ w' => w'.sd = (w.located fileName).sd := by
  obtain ⟨g, hlock⟩ := hready.enter
  have hcalm : ((w.located fileName).locked (w.index fileName) g).Calm :=
    hready.calm.located fileName
  have hopen : ((w.located fileName).locked (w.index fileName) g).answer (.openRead (.file fileName))
      = some (none, ((w.located fileName).locked (w.index fileName) g).tick) := by
    refine congrArg some ?_
    unfold Host.openRead
    rw [hcalm.succeeds]
    show (if (((w.located fileName).locked _ g).files (.file fileName)).isSome then _ else _) = _
    rw [Host.locked_files, Host.located_files, hmissing]
    rfl
  unfold readF
  rw [hargs]
  refine returns_bind ⟨_, _, hready.runIn_fileEntry, ?_⟩
  refine returns_perform_bind (Host.answer_lock hlock) (returns_perform_bind hopen ?_)
  refine returns_bind ⟨_, _, Host.runIn_respond (by exact hcalm), ?_⟩
  exact returns_perform (Host.answer_exit hlock rfl) rfl

/-- Without a file name `readF` enters the name that is left. -/
theorem readF_shows {m : Memory} {command : Text} (hcommand : cString m.command = command)
    (hname : fileCommand (splitCommand command).1 = some .readF)
    (hstale : (strtok [' '] (splitCommand command).2).1 = none) :
    ((Host.fresh fun _ => none).pass m).2.effect.2.2.map File.name = [cString m.fileName] := by
  have hargs : readFArgs (splitCommand command).2 m.locals = (false, cString m.fileName, -1) := by
    unfold readFArgs
    rcases hfile : strtok [' '] (splitCommand command).2 with ⟨_ | name, rest⟩
    · rfl
    · rw [hfile] at hstale
      cases hstale
  have hready := Host.ready_fresh (fun _ => none) .reader (cString m.fileName)
  obtain ⟨w', heffect, hsd⟩ := Host.effect_of_returns hready.calm hcommand
    (returns_dispatch hname (returns_readF_missing hargs
      ⟨hready.calm, hready.room, hready.free⟩ rfl))
  rw [heffect, Host.effect, hsd]
  rfl

/-- Without a text `writeT` appends the text that is left. -/
theorem writeT_shows {m : Memory} {command : Text} (hcommand : cString m.command = command)
    (hname : fileCommand (splitCommand command).1 = some .writeT)
    (hstale : UsesStr (splitCommand command).2) (hstr : cString m.str ≠ []) :
    ∃ fileName, (strtok [' '] (splitCommand command).2).1 = some fileName ∧
      ((Host.fresh fun _ => none).pass m).2.effect.2.1 (.file fileName)
        = some (cString m.str ++ ['\n']) := by
  have hargs : ∃ fileName, (strtok [' '] (splitCommand command).2).1 = some fileName ∧
      writeTArgs (splitCommand command).2 m.locals
        = some ⟨fileName, -1, some (cString m.str)⟩ := by
    have hwhole (rest : Text) : wholeString m.locals.str rest = cString m.str := if_pos hstr
    unfold UsesStr at hstale
    unfold writeTArgs
    rcases hfile : strtok [' '] (splitCommand command).2 with ⟨_ | fileName, rest'⟩
    · rw [hfile] at hstale
      exact hstale.elim
    · refine ⟨fileName, rfl, ?_⟩
      rcases htoken : strtok [' '] rest' with ⟨_ | token, rest''⟩
      · simp only [htoken, hwhole]
      · simp only [hfile, htoken] at hstale
        obtain ⟨hdigits, hzero | hminus⟩ := hstale
        · simp only [htoken, hdigits, hzero, hwhole, if_true]
          rfl
        · simp only [htoken, hdigits, hminus, hwhole, if_true]
          rfl
  obtain ⟨fileName, hfile, hargs⟩ := hargs
  refine ⟨fileName, hfile, ?_⟩
  have hready := Host.ready_fresh (fun _ => none) .writer fileName
  obtain ⟨w', heffect, hfiles⟩ := Host.effect_of_returns hready.calm hcommand
    (returns_dispatch hname (returns_writeT_append hargs
      ⟨hready.calm, hready.room, hready.free⟩))
  rw [heffect, Host.effect, hfiles]
  exact update_self _ _ _

/-- Two passes with different leftovers differ for a command that uses them. -/
theorem exists_passes {command : Text} (hnul : nul ∉ command) (hstale : UsesStale command) :
    ∃ m m' : Memory, cString m.command = command ∧ cString m'.command = command ∧
      ((Host.fresh fun _ => none).pass m).2.effect
        ≠ ((Host.fresh fun _ => none).pass m').2.effect := by
  have hcommand := cString_of_not_mem hnul
  unfold UsesStale at hstale
  cases hname : fileCommand (splitCommand command).1 with
  | none =>
      rw [hname] at hstale
      exact hstale.elim
  | some name =>
      rw [hname] at hstale
      cases name with
      | readF =>
          refine ⟨⟨command, [], []⟩, ⟨command, ['a'], []⟩, hcommand, hcommand, fun heq => ?_⟩
          have hfirst := readF_shows (m := ⟨command, [], []⟩) hcommand hname hstale
          have hsecond := readF_shows (m := ⟨command, ['a'], []⟩) hcommand hname hstale
          rw [heq, hsecond] at hfirst
          cases hfirst
      | writeT =>
          refine ⟨⟨command, [], ['a']⟩, ⟨command, [], ['b']⟩, hcommand, hcommand, fun heq => ?_⟩
          have ha : cString ['a'] = ['a'] := by decide
          have hb : cString ['b'] = ['b'] := by decide
          obtain ⟨fileName, hfile, hfirst⟩ :=
            writeT_shows (m := ⟨command, [], ['a']⟩) hcommand hname hstale (ha ▸ nofun)
          obtain ⟨fileName', hfile', hsecond⟩ :=
            writeT_shows (m := ⟨command, [], ['b']⟩) hcommand hname hstale (hb ▸ nofun)
          obtain rfl : fileName = fileName' := Option.some.inj (hfile.symm.trans hfile')
          rw [heq, hsecond, ha, hb] at hfirst
          cases hfirst
      | upload => exact hstale.elim
      | download => exact hstale.elim

/-- **Stale memory.** The effect of a command does not depend on what the buffers hold, exactly if
    the command is not one of those that use what is left in them. -/
theorem stale_memory_iff {command : Text} (hnul : nul ∉ command) :
    (∀ (w : Host) (m m' : Memory), cString m.command = command → cString m'.command = command →
      (w.pass m).2.effect = (w.pass m').2.effect) ↔ ¬ UsesStale command := by
  constructor
  · intro h hstale
    obtain ⟨m, m', hm, hm', hne⟩ := exists_passes hnul hstale
    exact hne (h _ m m' hm hm')
  · intro hstale w m m' hm hm'
    have hterminated : cString (w.withCommand command).command = command := cString_of_not_mem hnul
    have hdispatch : dispatch (cString (w.withCommand command).command) m.locals
        = dispatch (cString (w.withCommand command).command) m'.locals := by
      rw [hterminated]
      exact dispatch_locals hstale m.locals m'.locals
    rw [Host.effect_pass w hm, Host.effect_pass w hm', runIn_request_congr hdispatch]

/-- `readF f` after two different commands. -/
theorem stale_memory_readF :
    ((Host.fresh (Host.oneFile ['f'] ['a'])).pass ⟨"readF f".toList, ['g'], []⟩).2.effect
      = ((Host.fresh (Host.oneFile ['f'] ['a'])).pass
          ⟨"readF f".toList ++ [nul, 'x'], [], ['y']⟩).2.effect := by
  have hnul : nul ∉ "readF f".toList := by decide
  exact (stale_memory_iff hnul).2 nofun _ _ _ (by decide) (by decide)

/-- `writeT f` appends what is left in `str`. -/
theorem stale_memory_matters :
    ¬ ∀ command : Text, nul ∉ command → ∀ (w : Host) (m m' : Memory),
      cString m.command = command → cString m'.command = command →
      (w.pass m).2.effect = (w.pass m').2.effect := by
  intro h
  have hnul : nul ∉ "writeT f".toList := by decide
  have hstale : UsesStale "writeT f".toList := trivial
  obtain ⟨m, m', hm, hm', hne⟩ := exists_passes hnul hstale
  exact hne (h _ hnul _ m m' hm hm')

end SystemProgramming.Server
