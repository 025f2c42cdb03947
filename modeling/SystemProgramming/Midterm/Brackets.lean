import SystemProgramming.Midterm.Paths
import SystemProgramming.Midterm.Sync

set_option autoImplicit false

/-! # The brackets of the handlers

Every command that comes back to the top of the command loop should have called each exit function
of the lock as often as its enter function. Two paths do not: `readF` leaves a line it has found
with two calls of `reader_exit`, and `writeT` leaves without one when `tmpfile` fails. All others
enter and leave one or two sections, and a sequence of these leaves an entry that nobody else uses
as it was. -/

namespace SystemProgramming.Server

open Prog Sync

/-! ## Bracketed calls -/

/-- The function that enters the section of this role. -/
def enter : Role → LockOp
  | .reader => .readerEnter
  | .writer => .writerEnter

/-- The function that leaves the section of this role. -/
def exit : Role → LockOp
  | .reader => .readerExit
  | .writer => .writerExit

/-- The exits of an entry are as many as its enters, and none comes before its enter. -/
structure Bracketed (calls : List (LockOp × ℕ)) : Prop where
  released : ∀ role entry, calls.count (exit role, entry) = calls.count (enter role, entry)
  after : ∀ role entry first, first <+: calls →
    first.count (exit role, entry) ≤ first.count (enter role, entry)

/-- Sections of the entries one after the other. -/
inductive Sections : List (LockOp × ℕ) → Prop
  | nil : Sections []
  | cons (role : Role) (entry : ℕ) {calls : List (LockOp × ℕ)} (h : Sections calls) :
      Sections ((enter role, entry) :: (exit role, entry) :: calls)

theorem Sections.single (role : Role) (entry : ℕ) :
    Sections [(enter role, entry), (exit role, entry)] :=
  .cons role entry .nil

theorem Sections.append {calls calls' : List (LockOp × ℕ)} (h : Sections calls)
    (h' : Sections calls') : Sections (calls ++ calls') := by
  induction h with
  | nil => exact h'
  | cons role entry _ ih => exact .cons role entry ih

/-- A section adds as many enters as exits. -/
theorem count_section (role role' : Role) (entry entry' : ℕ) (calls : List (LockOp × ℕ)) :
    ∃ n, ((enter role, entry) :: (exit role, entry) :: calls).count (enter role', entry')
        = calls.count (enter role', entry') + n ∧
      ((enter role, entry) :: (exit role, entry) :: calls).count (exit role', entry')
        = calls.count (exit role', entry') + n := by
  refine ⟨if role = role' ∧ entry = entry' then 1 else 0, ?_⟩
  cases role <;> cases role' <;> simp [enter, exit, List.count_cons]

theorem Sections.bracketed {calls : List (LockOp × ℕ)} (h : Sections calls) : Bracketed calls := by
  induction h with
  | nil =>
      refine ⟨fun _ _ => rfl, fun role entry first hfirst => ?_⟩
      rw [List.prefix_nil.1 hfirst]
      exact Nat.le_refl _
  | @cons role entry calls _ ih =>
      refine ⟨fun role' entry' => ?_, fun role' entry' first hfirst => ?_⟩
      · obtain ⟨n, henter, hexit⟩ := count_section role role' entry entry' calls
        rw [henter, hexit, ih.released]
      · rcases List.prefix_cons_iff.1 hfirst with rfl | ⟨rest, rfl, hrest⟩
        · exact Nat.le_refl _
        · rcases List.prefix_cons_iff.1 hrest with rfl | ⟨rest, rfl, hcalls⟩
          · rw [List.count_singleton, if_neg (by cases role <;> cases role' <;> simp [enter, exit])]
            exact Nat.zero_le _
          · obtain ⟨n, henter, hexit⟩ := count_section role role' entry entry' rest
            rw [henter, hexit]
            exact Nat.add_le_add_right (ih.after role' entry' rest hcalls) n

/-! ## The table when nobody else uses it -/

/-- A lock function as a whole, on an entry that nobody else uses. -/
def LockOp.apply : LockOp → File → Option File
  | .readerEnter => Sync.readerEnter
  | .readerExit => Sync.readerExit
  | .writerEnter => Sync.writerEnter
  | .writerExit => Sync.writerExit

/-- The statement with which a function starts, and where its caller goes on. -/
def LockOp.points : LockOp → PC × PC
  | .readerEnter => (.readerEnterLock, .reading)
  | .readerExit => (.readerExitLock, .outside)
  | .writerEnter => (.writerEnterLock, .writing)
  | .writerExit => (.writerExitAdmit, .outside)

/-- A call as a whole is a run of its statements. -/
theorem LockOp.apply_alone {op : LockOp} {f g : File} (h : op.apply f = some g) :
    Alone f op.points.1 g op.points.2 := by
  cases op with
  | readerEnter => exact readerEnter_alone h
  | readerExit => exact readerExit_alone h
  | writerEnter => exact writerEnter_alone h
  | writerExit => exact writerExit_alone h

/-- The calls of one process on a table that no other process uses; `none` is a call that blocks. -/
def runCalls : List (LockOp × ℕ) → (ℕ → File) → Option (ℕ → File)
  | [], files => some files
  | (op, entry) :: calls, files =>
      (op.apply (files entry)).bind fun file => runCalls calls (Function.update files entry file)

theorem exit_of_enter {role : Role} {f g : File} (h : (enter role).apply f = some g) :
    (exit role).apply g = some f := by
  cases role with
  | reader => exact readerExit_of_readerEnter h
  | writer => exact writerExit_of_writerEnter h

theorem enter_of_idle (role : Role) {f : File} (h : Idle f) :
    ∃ g, (enter role).apply f = some g := by
  cases role with
  | reader => exact h.readerEnter
  | writer => exact h.writerEnter

/-- A section leaves the table as it was. -/
theorem runCalls_section {role : Role} {entry : ℕ} {calls : List (LockOp × ℕ)} {files : ℕ → File}
    {file : File} (h : (enter role).apply (files entry) = some file) :
    runCalls ((enter role, entry) :: (exit role, entry) :: calls) files = runCalls calls files := by
  simp only [runCalls, h, Option.bind_some, Function.update_self, exit_of_enter h,
    Function.update_idem, Function.update_eq_self]

theorem Sections.runCalls_eq {calls : List (LockOp × ℕ)} (hcalls : Sections calls)
    {files files' : ℕ → File} (hrun : runCalls calls files = some files') : files' = files := by
  induction hcalls with
  | nil => exact (Option.some.inj hrun).symm
  | @cons role entry calls _ ih =>
      cases henter : (enter role).apply (files entry) with
      | none => simp [runCalls, henter] at hrun
      | some file =>
          rw [runCalls_section henter] at hrun
          exact ih hrun

theorem Sections.runCalls_idle {calls : List (LockOp × ℕ)} (hcalls : Sections calls)
    {files : ℕ → File} (hidle : ∀ entry, Idle (files entry)) :
    runCalls calls files = some files := by
  induction hcalls with
  | nil => rfl
  | @cons role entry calls _ ih =>
      obtain ⟨file, henter⟩ := enter_of_idle role (hidle entry)
      rw [runCalls_section henter]
      exact ih

/-! ## What the commands call -/

/-- A command that has come back to the top of the command loop, and its path. -/
structure Handled where
  name : CommandName
  rest : Text
  locals : Locals
  path : List (Event Call Reply)
  returns : Runs (runCommand name rest locals) path (.returned ())

namespace Handled

/-- What the path of the command shows. -/
def shown (c : Handled) : List Seen := c.path.flatMap seen

/-- The calls of the functions of `sync.c`. -/
def lockCalls (shown : List Seen) : List (LockOp × ℕ) :=
  shown.filterMap fun
    | .lock op entry => some (op, entry)
    | _ => none

/-- The lock calls of the command. -/
def calls (c : Handled) : List (LockOp × ℕ) := lockCalls c.shown

/-- `readF` has read the newline that ends the line it looks for. -/
def FindsLine (c : Handled) : Prop :=
  c.name = .readF ∧ ∃ text, .chars text ∈ c.shown ∧ HasLine (readFLine c.rest c.locals) text

/-- `tmpfile` has returned `NULL`. -/
def LacksTemp (c : Handled) : Prop := .noTemp ∈ c.shown

/-- Every path enters and leaves sections, but for the two that end badly. -/
theorem calls_cases (c : Handled) :
    (Sections c.calls ∧ ¬ c.FindsLine ∧ ¬ c.LacksTemp) ∨
      ∃ entry, (c.calls = [(.readerEnter, entry), (.readerExit, entry), (.readerExit, entry)]
          ∧ c.FindsLine) ∨
        (c.calls = [(.readerEnter, entry)] ∧ c.LacksTemp) := by
  obtain ⟨name, rest, locals, path, hreturns⟩ := c
  unfold calls FindsLine LacksTemp shown
  dsimp only
  cases name with
  | readF =>
      obtain ⟨entry, hpath | ⟨text, hpath⟩⟩ := shows_readF rest locals path () hreturns
      · rw [hpath]
        exact .inl ⟨.single .reader entry, by simp [pair], by simp [pair]⟩
      · rw [hpath]
        -- the loop that finds the line releases the lock, and the end of `readF` does so again
        by_cases hline : HasLine (readFLine rest locals) text
        · rw [if_pos hline]
          exact .inr ⟨entry, .inl ⟨rfl, rfl, text, by simp, hline⟩⟩
        · rw [if_neg hline]
          exact .inl ⟨.single .reader entry, by simpa using hline, by simp⟩
  | writeT =>
      rcases shows_writeT rest locals path () hreturns with
        hpath | ⟨entry, hpath | hpath | hpath | hpath⟩
      · rw [hpath]
        exact .inl ⟨.nil, by simp, by simp⟩
      · rw [hpath]
        exact .inl ⟨.single .writer entry, by simp, by simp [pair]⟩
      · rw [hpath]
        exact .inl ⟨.single .reader entry, by simp, by simp [pair]⟩
      · rw [hpath]
        exact .inl ⟨(Sections.single .reader entry).append (.single .writer entry), by simp,
          by simp [pair]⟩
      · rw [hpath]
        exact .inr ⟨entry, .inr ⟨rfl, by simp⟩⟩
  | upload =>
      rcases shows_upload rest path () hreturns with hpath | ⟨entry, hpath⟩
      · rw [hpath]
        exact .inl ⟨.nil, by simp, by simp⟩
      · rw [hpath]
        exact .inl ⟨.single .reader entry, by simp, by simp [pair]⟩
  | download =>
      rcases shows_download rest path () hreturns with hpath | ⟨entry, hpath⟩
      · rw [hpath]
        exact .inl ⟨.nil, by simp, by simp⟩
      · rw [hpath]
        exact .inl ⟨.single .writer entry, by simp, by simp [pair]⟩

theorem bracketed_iff (c : Handled) :
    Bracketed c.calls ↔ ¬ c.FindsLine ∧ ¬ c.LacksTemp := by
  rcases c.calls_cases with ⟨hcalls, hgood⟩ | ⟨entry, ⟨hcalls, hfinds⟩ | ⟨hcalls, hlacks⟩⟩
  · exact ⟨fun _ => hgood, fun _ => hcalls.bracketed⟩
  · refine ⟨fun h => ?_, fun h => absurd hfinds h.1⟩
    have hcount := h.released .reader entry
    simp [hcalls, enter, exit] at hcount
  · refine ⟨fun h => ?_, fun h => absurd hlacks h.2⟩
    have hcount := h.released .reader entry
    simp [hcalls, enter, exit] at hcount

theorem sections (cs : List Handled) (h : ∀ c ∈ cs, ¬ c.FindsLine ∧ ¬ c.LacksTemp) :
    Sections (cs.flatMap calls) := by
  induction cs with
  | nil => exact .nil
  | cons c cs ih =>
      rw [List.flatMap_cons]
      refine Sections.append ?_ (ih fun c' hc' => h c' (List.mem_cons_of_mem c hc'))
      have hgood := h c List.mem_cons_self
      rcases c.calls_cases with ⟨hcalls, -⟩ | ⟨entry, ⟨-, hfinds⟩ | ⟨-, hlacks⟩⟩
      · exact hcalls
      · exact absurd hfinds hgood.1
      · exact absurd hlacks hgood.2

end Handled

/-- The brackets of a command are right unless `readF` finds its line or `writeT` gets no temporary
    file, and a sequence of commands without these leaves the entries that nobody else uses as they
    were. -/
theorem commands_bracketed (c : Handled) (cs : List Handled) (files : ℕ → File) :
    (Bracketed c.calls ↔ ¬ c.FindsLine ∧ ¬ c.LacksTemp) ∧
    ((∀ c' ∈ cs, ¬ c'.FindsLine ∧ ¬ c'.LacksTemp) →
      (∀ files', runCalls (cs.flatMap Handled.calls) files = some files' → files' = files) ∧
      ((∀ entry, Idle (files entry)) → runCalls (cs.flatMap Handled.calls) files = some files)) := by
  refine ⟨c.bracketed_iff, fun h => ?_⟩
  have hsections := Handled.sections cs h
  exact ⟨fun files' hrun => hsections.runCalls_eq hrun, fun hidle => hsections.runCalls_idle hidle⟩

/-- `readF f` on a file `f` of two characters. -/
def readShortFile : Handled where
  name := .readF
  rest := ['f']
  locals := ⟨[], []⟩
  path := [⟨.getFile ['f'], some 0⟩, ⟨.lock .readerEnter 0, ()⟩, ⟨.openRead (.file ['f']), some 3⟩,
    ⟨.openWrite .clientFifo .plain, some 4⟩, ⟨.reads 3 4096, ⟨[['a', '\n']], false, by decide⟩⟩,
    ⟨.write 4 ['a', '\n'], (2 : ℤ)⟩, ⟨.close 3, ()⟩, ⟨.close 4, ()⟩, ⟨.lock .readerExit 0, ()⟩]
  returns := runs_iff_follow.2 rfl

/-- A command `readF f` is bracketed, and two of them leave a new table as `init_file` made it. -/
theorem commands_bracketed_twice :
    Bracketed readShortFile.calls ∧
      runCalls [(.readerEnter, 0), (.readerExit, 0), (.readerEnter, 0), (.readerExit, 0)]
        (fun _ => ⟨['f'], 0, 1, 1⟩) = some fun _ => ⟨['f'], 0, 1, 1⟩ := by
  have hshown : readShortFile.shown = pair .readerEnter .readerExit 0 := rfl
  have hgood : ¬ readShortFile.FindsLine ∧ ¬ readShortFile.LacksTemp :=
    ⟨by simp [Handled.FindsLine, hshown, pair], by simp [Handled.LacksTemp, hshown, pair]⟩
  have hall : ∀ c ∈ [readShortFile, readShortFile], ¬ c.FindsLine ∧ ¬ c.LacksTemp := by
    intro c hc
    have hc : c = readShortFile := by simpa using hc
    rw [hc]
    exact hgood
  have h := commands_bracketed readShortFile [readShortFile, readShortFile] fun _ => ⟨['f'], 0, 1, 1⟩
  exact ⟨h.1.2 hgood, (h.2 hall).2 fun _ => ⟨rfl, rfl, rfl⟩⟩

/-- `readF f 1` on a file `f` of one line. -/
def readFirstLine : Handled where
  name := .readF
  rest := "f 1".toList
  locals := ⟨[], []⟩
  path := [⟨.getFile ['f'], some 0⟩, ⟨.lock .readerEnter 0, ()⟩, ⟨.openRead (.file ['f']), some 3⟩,
    ⟨.openWrite .clientFifo .plain, some 4⟩, ⟨.reads 3 1, ⟨[['a'], ['\n']], false, by decide⟩⟩,
    ⟨.write 4 ['a', '\n'], (2 : ℤ)⟩, ⟨.lock .readerExit 0, ()⟩, ⟨.close 3, ()⟩, ⟨.close 4, ()⟩,
    ⟨.lock .readerExit 0, ()⟩]
  returns := runs_iff_follow.2 rfl

/-- It leaves a reader count of -1 behind, with which the next reader no longer excludes writers. -/
theorem commands_not_always_bracketed :
    readFirstLine.calls = [(.readerEnter, 0), (.readerExit, 0), (.readerExit, 0)] ∧
      ¬ Bracketed readFirstLine.calls ∧
      ∃ files, runCalls readFirstLine.calls (fun _ => ⟨['f'], 0, 1, 1⟩) = some files ∧
        files 0 = ⟨['f'], -1, 1, 1⟩ := by
  refine ⟨rfl, fun h => ?_, _, rfl, rfl⟩
  exact absurd (h.released .reader 0) (by decide)

end SystemProgramming.Server
