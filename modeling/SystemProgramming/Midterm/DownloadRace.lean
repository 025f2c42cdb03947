import SystemProgramming.Lib.Bytes
import SystemProgramming.Lib.Object
import SystemProgramming.Midterm.LineEdit

set_option autoImplicit false

/-! # Downloads and writers of one local file

`download` first tests whether the local file exists. Only then does it take the writer lock, create
the file if it is missing, and write from its start; what a longer file holds behind that stays.
`writeT` appends in one section, or copies the file in one section and overwrites it in another.
`localMachine` interleaves these steps for any number of handlers on one file. A download that goes
on although the file has come into being since its test writes over it. -/

namespace SystemProgramming.Server

open Function Prog Handler

/-! ## The commands -/

/-- A command on the local file. Nothing changes the file of the server directory that a download
    copies: `upload` only creates files there. -/
inductive LocalCommand
  | download (data : Text)
  | append (string : Text)
  | edit (e : EditCommand)

/-- The command is a `download`. -/
def LocalCommand.isDownload : LocalCommand → Bool
  | .download _ => true
  | _ => false

/-- How the calls of a section turn out. -/
inductive Written
  /-- a file of the section does not open -/
  | unopened
  /-- so many bytes of the text are written, and the last of the `write` calls succeeds or not -/
  | bytes (count : ℕ) (complete : Bool)
deriving DecidableEq

/-- The answers of the commands. -/
inductive Report
  | succeeded
  | failed
  | alreadyExists
deriving DecidableEq

/-- What the handler reports. -/
def reported (complete : Bool) : Report := if complete then .succeeded else .failed

/-- The section of `download`. The file is opened without `O_TRUNC`. -/
def downloadSection (data : Text) : Written → Option Text → Report × Option Text
  | .unopened, content => (.failed, content)
  | .bytes count complete, content =>
      (reported complete, some (overwrite (content.getD []) (data.take count)))

/-- The section of `writeT` without a line number. -/
def appendSection (string : Text) : Written → Option Text → Report × Option Text
  | .unopened, content => (.failed, content)
  | .bytes count complete, content =>
      (reported complete,
        some (content.getD [] ++ string.take count ++ if complete then ['\n'] else []))

/-- The section of `writeT` that overwrites the file with its copy. The results of `fputs` are
    ignored. -/
def overwriteSection (temp : Text) : Written → Option Text → Report × Option Text
  | .unopened, content => (.failed, content)
  | .bytes count _, _ => (.succeeded, some ((copyLines temp).take count))

/-- What a command answers and makes of the file when it runs alone. -/
def LocalCommand.run : LocalCommand → Written → Option Text → Report × Option Text
  | .download _, .unopened, content => (.failed, content)
  | .download data, .bytes count complete, content =>
      if content.isSome then (.alreadyExists, content)
      else downloadSection data (.bytes count complete) content
  | .append string, written, content => appendSection string written content
  | .edit e, written, content =>
      match content.map (readSection e) with
      | some (.copied temp) => overwriteSection temp written content
      | _ => (.failed, content)

/-! ## The steps of several handlers -/

/-- Where a handler is between its sections. -/
inductive LocalPC
  | start
  /-- `download` has found no local file -/
  | tested
  /-- `writeT` with a line number is between its sections -/
  | copied (temp : Text)
  | ended
deriving DecidableEq

/-- The local file, the handlers, and the commands that have run their last section, in the order of
    these sections: who, how its calls turned out, and what it answers. -/
structure LocalState (ι : Type*) where
  content : Option Text
  pc : ι → LocalPC
  answers : List ((ι × Written) × Report)

section Handlers

variable {ι : Type*} [DecidableEq ι]

namespace LocalState

/-- A handler runs its last section, with this answer and this content. -/
def finish (s : LocalState ι) (a : ι × Written) (end_ : Report × Option Text) : LocalState ι :=
  ⟨end_.2, update s.pc a.1 .ended, s.answers ++ [(a, end_.1)]⟩

/-- A handler goes on without an effect on the file. -/
def goTo (s : LocalState ι) (i : ι) (pc : LocalPC) : LocalState ι :=
  { s with pc := update s.pc i pc }

end LocalState

/-- The handlers of the commands `c` on one local file. A label names the handler that takes its
    next step, and how the calls of the step turn out. -/
def localMachine (c : ι → LocalCommand) (original : Option Text) :
    Machine (LocalState ι) (ι × Written) where
  init s := s.content = original ∧ (∀ i, s.pc i = .start) ∧ s.answers = []
  next s a :=
    match s.pc a.1, c a.1, a.2 with
    | .start, .download _, .unopened => some (s.finish a (.failed, s.content))
    | .start, .download _, .bytes _ _ =>
        if s.content.isSome then some (s.finish a (.alreadyExists, s.content))
        else some (s.goTo a.1 .tested)
    | .tested, .download data, written => some (s.finish a (downloadSection data written s.content))
    | .start, .append string, written => some (s.finish a (appendSection string written s.content))
    | .start, .edit _, .unopened => some (s.finish a (.failed, s.content))
    | .start, .edit e, .bytes _ _ =>
        match s.content.map (readSection e) with
        | some (.copied temp) => some (s.goTo a.1 (.copied temp))
        | _ => some (s.finish a (.failed, s.content))
    | .copied temp, .edit _, written => some (s.finish a (overwriteSection temp written s.content))
    | _, _, _ => none

/-- What a handler has found out before its last section still holds there: a download that opens
    the local file has found none, and there is none; the copy that `writeT` has made is a copy of
    the content. -/
def StillTrue (c : ι → LocalCommand) (s : LocalState ι) (a : ι × Written) : Prop :=
  a.2 ≠ .unopened →
    (s.pc a.1 = .tested → s.content = none) ∧
    ∀ temp e, s.pc a.1 = .copied temp → c a.1 = .edit e →
      s.content.map (readSection e) = some (.copied temp)

/-- What a command does when it runs alone on a content. -/
def runAlone (c : ι → LocalCommand) (content : Option Text) (a : ι × Written) :
    Report × Option Text :=
  (c a.1).run a.2 content

variable {c : ι → LocalCommand} {original : Option Text} {s s' : LocalState ι} {a : ι × Written}

theorem run_unopened (command : LocalCommand) (content : Option Text) :
    command.run .unopened content = (.failed, content) := by
  cases command with
  | download data => rfl
  | append string => rfl
  | edit e =>
      rw [LocalCommand.run]
      split <;> rfl

/-- Where a file does not open the handler is at its end, and has changed nothing. -/
theorem localNext_unopened {i : ι} (h : (localMachine c original).next s (i, .unopened) = some s') :
    s.pc i ≠ .ended ∧ s' = s.finish (i, .unopened) (.failed, s.content) := by
  cases hpc : s.pc i <;> cases hc : c i <;> simp only [localMachine, hpc, hc] at h <;>
    first
    | exact ⟨by simp, (Option.some.inj h).symm⟩
    | cases h

/-- A step either moves a handler on, or is its last one and does what the command does alone. -/
theorem localNext_cases (h : (localMachine c original).next s a = some s') (hok : StillTrue c s a) :
    s.pc a.1 ≠ .ended ∧
      ((∃ pc, pc ≠ .ended ∧ s' = s.goTo a.1 pc) ∨ s' = s.finish a (runAlone c s.content a)) := by
  obtain ⟨i, written⟩ := a
  cases written with
  | unopened =>
      obtain ⟨hpc, hs'⟩ := localNext_unopened h
      rw [runAlone, run_unopened]
      exact ⟨hpc, .inr hs'⟩
  | bytes count complete =>
      cases hpc : s.pc i with
      | start =>
          refine ⟨by simp, ?_⟩
          cases hc : c i with
          | download data =>
              simp only [localMachine, hpc, hc] at h
              cases hcontent : s.content with
              | none =>
                  simp only [hcontent, Option.isSome_none, Bool.false_eq_true, if_false] at h
                  exact .inl ⟨.tested, by simp, (Option.some.inj h).symm⟩
              | some text =>
                  simp only [hcontent, Option.isSome_some, if_true] at h
                  simp only [runAlone, hc, LocalCommand.run, Option.isSome_some, if_true]
                  exact .inr (Option.some.inj h).symm
          | append string =>
              simp only [localMachine, hpc, hc] at h
              simp only [runAlone, hc, LocalCommand.run]
              exact .inr (Option.some.inj h).symm
          | edit e =>
              simp only [localMachine, hpc, hc] at h
              simp only [runAlone, hc, LocalCommand.run]
              split at h
              · exact .inl ⟨_, by simp, (Option.some.inj h).symm⟩
              · exact .inr (Option.some.inj h).symm
      | tested =>
          refine ⟨by simp, .inr ?_⟩
          cases hc : c i with
          | download data =>
              -- what `access` said of the file is still true
              have hnone : s.content = none := (hok (by simp)).1 hpc
              simp only [localMachine, hpc, hc] at h
              rw [← Option.some.inj h, runAlone, hc, hnone]
              rfl
          | append string => simp [localMachine, hpc, hc] at h
          | edit e => simp [localMachine, hpc, hc] at h
      | copied temp =>
          refine ⟨by simp, .inr ?_⟩
          cases hc : c i with
          | download data => simp [localMachine, hpc, hc] at h
          | append string => simp [localMachine, hpc, hc] at h
          | edit e =>
              -- the file is still the one that was copied
              have hcopied := (hok (by simp)).2 temp e hpc hc
              simp only [localMachine, hpc, hc] at h
              rw [← Option.some.inj h, runAlone, hc, LocalCommand.run, hcopied]
      | ended => simp [localMachine, hpc] at h

/-- A download that succeeds has found no file. -/
theorem run_download {command : LocalCommand} {written : Written} {content : Option Text}
    (hcommand : command.isDownload = true) (h : (command.run written content).1 = .succeeded) :
    content = none := by
  cases command with
  | download data =>
      cases written with
      | unopened => cases h
      | bytes count complete =>
          cases content with
          | none => rfl
          | some text => cases h
  | append string => cases hcommand
  | edit e => cases hcommand

/-- A command that leaves no file has found none, and has not succeeded. -/
theorem run_none {command : LocalCommand} {written : Written} {content : Option Text}
    (h : (command.run written content).2 = none) :
    content = none ∧ (command.run written content).1 ≠ .succeeded := by
  cases written with
  | unopened =>
      rw [run_unopened] at h ⊢
      exact ⟨h, by simp⟩
  | bytes count complete =>
      cases command with
      | download data =>
          cases content with
          | none => cases h
          | some text => cases h
      | append string => cases h
      | edit e =>
          rw [LocalCommand.run] at h ⊢
          split at h
          · cases h
          · exact ⟨h, by simp⟩

/-- The answers and the content are those of the commands run one after the other, in the order of
    their last sections; before a download that succeeds no other command has succeeded. -/
structure LocalInv (c : ι → LocalCommand) (original : Option Text) (s : LocalState ι) : Prop where
  serial : runCalls (runAlone c) original (s.answers.map Prod.fst)
    = (s.answers.map Prod.snd, s.content)
  nodup : (s.answers.map fun answer => answer.1.1).Nodup
  ended : ∀ i, i ∈ s.answers.map (fun answer => answer.1.1) ↔ s.pc i = .ended
  first : s.answers.Pairwise fun before after =>
    (c after.1.1).isDownload = true → after.2 = .succeeded → before.2 ≠ .succeeded
  none : s.content = none → ∀ answer ∈ s.answers, answer.2 ≠ .succeeded

theorem localInv_init (h : (localMachine c original).init s) : LocalInv c original s := by
  obtain ⟨hcontent, hpc, hanswers⟩ := h
  refine ⟨?_, ?_, ?_, ?_, ?_⟩ <;> simp [hcontent, hpc, hanswers, runCalls]

theorem LocalInv.goTo (h : LocalInv c original s) {i : ι} {pc : LocalPC} (hpc : s.pc i ≠ .ended)
    (hend : pc ≠ .ended) : LocalInv c original (s.goTo i pc) := by
  refine ⟨h.serial, h.nodup, ?_, h.first, h.none⟩
  intro j
  refine (h.ended j).trans ?_
  by_cases hj : j = i
  · subst hj
    simp [LocalState.goTo, hpc, hend]
  · simp [LocalState.goTo, hj]

theorem LocalInv.finish (h : LocalInv c original s) (hpc : s.pc a.1 ≠ .ended) :
    LocalInv c original (s.finish a (runAlone c s.content a)) := by
  constructor
  · simp only [LocalState.finish, List.map_append, List.map_cons, List.map_nil]
    rw [runCalls_append, h.serial]
    rfl
  · simp only [LocalState.finish, List.map_append, List.map_cons, List.map_nil]
    refine h.nodup.append (List.nodup_singleton _) ?_
    rw [List.disjoint_singleton, h.ended]
    exact hpc
  · intro j
    simp only [LocalState.finish, List.map_append, List.map_cons, List.map_nil, List.mem_append,
      h.ended, List.mem_singleton]
    by_cases hj : j = a.1
    · subst hj
      simp
    · simp [hj]
  · refine List.pairwise_append.2 ⟨h.first, List.pairwise_singleton _ _, ?_⟩
    intro before hbefore after hafter hdownload hsucceeded
    rw [List.mem_singleton.1 hafter] at hdownload hsucceeded
    exact h.none (run_download hdownload hsucceeded) before hbefore
  · intro hnone answer hanswer
    obtain ⟨hcontent, hreport⟩ := run_none hnone
    rcases List.mem_append.1 hanswer with hold | hnew
    · exact h.none hcontent answer hold
    · rw [List.mem_singleton.1 hnew]
      exact hreport

theorem localInv (hs : (localMachine c original).ReachableUnder (StillTrue c) s) :
    LocalInv c original s := by
  refine hs.invariant (fun _ => localInv_init) ?_
  intro s a s' _ hinv hok hnext
  obtain ⟨hpc, ⟨pc, hend, rfl⟩ | rfl⟩ := localNext_cases hnext hok
  · exact hinv.goTo hpc hend
  · exact hinv.finish hpc

/-- The excluded order: a download goes on after a `writeT` has made the file. Both report success,
    but the start of the text is overwritten; the download first gives another content, `writeT`
    first another answer. -/
theorem download_overwrites {i j : ι} (hij : i ≠ j) {data string : Text}
    (hi : c i = .download data) (hj : c j = .append string)
    (hs : (localMachine c none).exec ⟨none, fun _ => .start, []⟩
      [(i, .bytes data.length true), (j, .bytes string.length true), (i, .bytes data.length true)]
        = some s) :
    s.content = some (overwrite (string ++ ['\n']) data) ∧
      s.answers.map Prod.snd = [.succeeded, .succeeded] ∧
      (data ≠ [] → s.content ≠ (runCalls (runAlone c) none
        [(i, .bytes data.length true), (j, .bytes string.length true)]).2) ∧
      (runCalls (runAlone c) none
        [(j, .bytes string.length true), (i, .bytes data.length true)]).1
          = [.succeeded, .alreadyExists] := by
  simp [Machine.exec, localMachine, LocalState.goTo, LocalState.finish, hi, hj, hij, hij.symm,
    downloadSection, appendSection, reported] at hs
  rw [← hs]
  refine ⟨rfl, rfl, ?_, ?_⟩
  · intro hdata hcontent
    have hserial : (runCalls (runAlone c) none
        [(i, .bytes data.length true), (j, .bytes string.length true)]).2
          = some (data ++ string ++ ['\n']) := by
      simp [runCalls, runAlone, hi, hj, LocalCommand.run, downloadSection, appendSection, overwrite]
    have hlength := congrArg List.length (Option.some.inj (hcontent.trans hserial))
    simp [overwrite] at hlength
    have hpos := List.length_pos_of_ne_nil hdata
    omega
  · simp [runCalls, runAlone, hi, hj, LocalCommand.run, appendSection, reported]

end Handlers

/-! ## A download and a writer -/

/-- If what the handlers have found out still holds at their last sections, the content and all
    answers are those of the commands run one after the other; in this order no command comes before
    a download that succeeds and has succeeded itself. -/
theorem downloads_serial {ι : Type*} [DecidableEq ι] {c : ι → LocalCommand}
    {original : Option Text} {s : LocalState ι}
    (hs : (localMachine c original).ReachableUnder (StillTrue c) s) :
    runCalls (runAlone c) original (s.answers.map Prod.fst)
        = (s.answers.map Prod.snd, s.content) ∧
      (s.answers.map fun answer => answer.1.1).Nodup ∧
      (∀ i, i ∈ s.answers.map (fun answer => answer.1.1) ↔ s.pc i = .ended) ∧
      s.answers.Pairwise fun before after =>
        (c after.1.1).isDownload = true → after.2 = .succeeded → before.2 ≠ .succeeded :=
  ⟨(localInv hs).serial, (localInv hs).nodup, (localInv hs).ended, (localInv hs).first⟩

/-- The commands `download f`, with `ab` in the file of the server, and `writeT f text`. -/
def downloadAndAppend : Fin 2 → LocalCommand
  | 0 => .download "ab".toList
  | 1 => .append "text".toList

/-- The download runs, then `writeT`. -/
theorem downloads_serial_first :
    ∃ s, (localMachine downloadAndAppend none).exec ⟨none, fun _ => .start, []⟩
        [(0, .bytes 2 true), (0, .bytes 2 true), (1, .bytes 4 true)] = some s ∧
      s.content = some "abtext\n".toList ∧
      (runCalls (runAlone downloadAndAppend) none (s.answers.map Prod.fst)).2 = s.content := by
  have hstart : (localMachine downloadAndAppend none).ReachableUnder (StillTrue downloadAndAppend)
      ⟨none, fun _ => .start, []⟩ := .init ⟨rfl, fun _ => rfl, rfl⟩
  have htested := hstart.step (a := (0, .bytes 2 true))
    (fun _ => ⟨fun _ => rfl, fun temp e hpc => by cases hpc⟩) rfl
  have hdone := htested.step (a := (0, .bytes 2 true))
    (fun _ => ⟨fun _ => rfl, fun temp e hpc => by cases hpc⟩) rfl
  have happended := hdone.step (a := (1, .bytes 4 true))
    (fun _ => ⟨fun hpc => (by cases hpc), fun temp e hpc => (by cases hpc)⟩) rfl
  exact ⟨_, rfl, rfl, congrArg Prod.snd (downloads_serial happended).1⟩

/-- `writeT` makes the file between the test of the download and its section. -/
theorem downloads_not_always_serial :
    ∃ s, (localMachine downloadAndAppend none).exec ⟨none, fun _ => .start, []⟩
        [(0, .bytes 2 true), (1, .bytes 4 true), (0, .bytes 2 true)] = some s ∧
      (localMachine downloadAndAppend none).Reachable s ∧ (∀ i, s.pc i = .ended) ∧
      s.answers.map Prod.snd = [.succeeded, .succeeded] ∧ s.content = some "abxt\n".toList ∧
      (runCalls (runAlone downloadAndAppend) none [(0, .bytes 2 true), (1, .bytes 4 true)]).2
        = some "abtext\n".toList ∧
      (runCalls (runAlone downloadAndAppend) none [(1, .bytes 4 true), (0, .bytes 2 true)]).2
        = some "text\n".toList := by
  obtain ⟨s, hexec, hended, hreports, hcontent⟩ :
      ∃ s, (localMachine downloadAndAppend none).exec ⟨none, fun _ => .start, []⟩
        [(0, .bytes 2 true), (1, .bytes 4 true), (0, .bytes 2 true)] = some s ∧
        (∀ i, s.pc i = .ended) ∧ s.answers.map Prod.snd = [.succeeded, .succeeded] ∧
        s.content = some "abxt\n".toList :=
    ⟨_, rfl, by decide, rfl, rfl⟩
  exact ⟨s, hexec, Machine.Reachable.exec _ (.init ⟨rfl, fun _ => rfl, rfl⟩) hexec, hended, hreports,
    hcontent, rfl, rfl⟩

end SystemProgramming.Server
