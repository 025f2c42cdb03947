import SystemProgramming.Lib.Fifo
import SystemProgramming.Midterm.FileAnswers

set_option autoImplicit false

/-! # Which commands are answered

`request` over all its commands: exactly when a command is answered and the FIFO handed back, so
that its client reaches the end of the FIFO and both are ready for the next one. -/

namespace SystemProgramming.Server

open Prog Handler

/-! ## The replies that a command does not provide for -/

/-- `upload` comes without a file name. -/
def LacksName (command : Text) : Prop :=
  fileCommand (splitCommand command).1 = some .upload ∧
    (strtok [' '] (splitCommand command).2).1 = none

/-- The replies that a command on a file does not provide for. -/
def fileExcluded (command : Text) (locals : Locals) : Event Call Reply → Prop :=
  match fileCommand (splitCommand command).1 with
  | some .readF => readFExcluded (readFLine (splitCommand command).2 locals)
  | some .writeT => writeTExcluded (writeTArgs (splitCommand command).2 locals)
  | some .upload | some .download => tableFull
  | none => fun _ => False

/-- `opendir` fails; the names do not fit in `response`; `fork` fails; or a command on files gets
    one of its excluded replies. -/
def excluded (command : Text) (locals : Locals) (e : Event RequestCall RequestReply) : Prop :=
  match e.call, e.reply with
  | .file c, r => fileExcluded command locals ⟨c, r⟩
  | .readServerDir, none => True
  | .readServerDir, some names => 4096 ≤ (listing names).length
  | .forkTar, made => made = false
  | _, _ => False

theorem fileExcluded_input (command : Text) (locals : Locals) (c : Call) (r : Reply c)
    (hc : c.isInput = false) : ¬ fileExcluded command locals ⟨c, r⟩ := by
  unfold fileExcluded
  rcases fileCommand (splitCommand command).1 with _ | name
  · exact id
  · cases name <;> cases c <;> first | exact id | cases hc

/-! ## The other commands -/

section Requests

variable {command : Text} {locals : Locals}

/-- A handler on files settles its command. -/
theorem wp_files {α : Type} {p : Handler α} {Q : Monitor.Post (Ledger × Prop) α}
    {s : Ledger × Prop}
    (h : (fifoCalls.watch (fileExcluded command locals)).wp Q p s) :
    ((requestCalls command).watch (excluded command locals)).wp Q (files p) s :=
  Monitor.wp_lift (f := RequestCall.file) (fun _ _ _ => rfl) (fun _ _ _ hr => hr) h

theorem archServer_settled (hex : ∀ c r, c.isInput = false → ¬ fileExcluded command locals ⟨c, r⟩)
    {rest : Text} :
    ((requestCalls command).watch (excluded command locals)).wp Settled (archServer rest)
      (.empty, False) := by
  unfold archServer
  cases (strtok [' '] rest).1 with
  | none => exact wp_files (wp_respond_settled hex _ _)
  | some archiveName =>
      dsimp only
      split
      · exact wp_files (wp_respond_settled hex _ _)
      · refine Monitor.wp_perform_bind.2 ?_
        intro (made : Bool) _
        cases made with
        | false => exact settled_exited (.inr rfl)
        | true =>
            refine Monitor.wp_of_eq (Monitor.watch_step_of_not (by simp [excluded])) ?_
            refine Monitor.watch_wp_bind (fun _ => id) ?_
            intro (succeeded : Bool) _
            cases succeeded with
            | true => exact wp_files (wp_respond_settled hex _ _)
            | false => exact wp_files (wp_respond_settled hex _ _)

theorem list_settled (hex : ∀ c r, c.isInput = false → ¬ fileExcluded command locals ⟨c, r⟩) :
    ((requestCalls command).watch (excluded command locals)).wp Settled list (.empty, False) := by
  refine Monitor.wp_bind.2 (wp_files (Monitor.wp_bind_pure.1 (wp_openClient hex ?_)))
  intro clientFd
  refine Monitor.wp_perform_bind.2 ?_
  intro (names : Option (List Text)) _
  cases names with
  | none =>
      refine wp_files (Monitor.wp_bind_pure.1 (wp_respond hex ?_))
      exact iff_of_false (fun h => by cases h.2.2) (not_not.2 (.inr trivial))
  | some names =>
      have hexcluded : excluded command locals ⟨.readServerDir, some names⟩ ↔
          4096 ≤ (listing names).length := Iff.rfl
      dsimp only
      by_cases hroom : (listing names).length < 4096
      · rw [if_pos hroom]
        have hstep : ((requestCalls command).watch (excluded command locals)).step
            (⟨[clientFd], false⟩, False) ⟨.readServerDir, some names⟩
              = (⟨[clientFd], false⟩, False) :=
          Monitor.watch_step_of_not (by rw [hexcluded]; omega)
        refine Monitor.wp_of_eq hstep (Monitor.wp_bind.2 (wp_files (Monitor.wp_bind_pure.1 ?_)))
        refine wp_sendBytes hex List.mem_cons_self ?_
        refine wp_files (Monitor.wp_bind_pure.1 (wp_close hex ?_))
        rw [List.erase_cons_head]
        exact settled_good id
      · rw [if_neg hroom]
        exact settled_undefined (.inr (hexcluded.2 (by omega)))

theorem lacksName_eq (h : fileCommand (splitCommand command).1 ≠ some .upload) :
    LacksName command = False :=
  propext (iff_of_false (fun hlacks => h hlacks.1) id)

theorem runNamed_settled :
    ((requestCalls command).watch (excluded command locals)).wp Settled
      (runNamed (splitCommand command).1 (splitCommand command).2 locals)
      (.empty, LacksName command) := by
  have hex := fileExcluded_input command locals
  unfold runNamed
  cases hname : fileCommand (splitCommand command).1 with
  | none =>
      rw [lacksName_eq (by simp [hname])]
      dsimp only
      split
      · exact archServer_settled hex
      · exact wp_files (wp_respond_settled hex _ _)
  | some name =>
      refine wp_files ?_
      unfold fileExcluded
      rw [hname]
      cases name with
      | readF =>
          rw [lacksName_eq (by simp [hname])]
          exact readF_settled _ _
      | writeT =>
          rw [lacksName_eq (by simp [hname])]
          exact writeT_settled _ _
      | upload =>
          have hflag : LacksName command = ((strtok [' '] (splitCommand command).2).1 = none) :=
            propext (and_iff_right hname)
          rw [hflag]
          exact upload_settled _
      | download =>
          rw [lacksName_eq (by simp [hname])]
          exact download_settled _

/-- The pass settles its command and comes back to the top of the loop. -/
def SettledPass (s : Ledger × Prop) (o : SystemProgramming.Outcome Next) : Prop :=
  s.1.Good .again o ↔ ¬ s.2

theorem wp_again {m : Monitor RequestCall RequestReply (Ledger × Prop)} {p : Requester Unit}
    {s : Ledger × Prop} (h : m.wp Settled p s) :
    m.wp SettledPass (p >>= fun _ => pure .again) s := by
  refine Monitor.wp_bind_of h ?_ ?_ ?_
  · intro s' _ hs'
    exact ⟨fun hgood => hs'.1 ⟨rfl, hgood.2⟩, fun hflag => ⟨rfl, (hs'.2 hflag).2⟩⟩
  · intro s' hs'
    exact iff_of_false (fun hgood => by cases hgood.1) fun hflag => by cases (hs'.2 hflag).1
  · intro s' hs'
    exact iff_of_false (fun hgood => by cases hgood.1) fun hflag => by cases (hs'.2 hflag).1

/-- The commands without a file are not `upload`. -/
theorem fileCommand_of_help {response : String} (h : helpResponse command = some response) :
    fileCommand (splitCommand command).1 = none := by
  unfold helpResponse at h
  split_ifs at h with h₁ h₂ h₃ h₄ h₅ h₆ h₇ <;> subst command <;> rfl

theorem dispatch_settled (hquit : command ≠ "quit".toList) (hkill : command ≠ "killServer".toList) :
    ((requestCalls command).watch (excluded command locals)).wp SettledPass
      (dispatch command locals) (.empty, LacksName command) := by
  have hex := fileExcluded_input command locals
  unfold dispatch
  cases hhelp : helpResponse command with
  | some response =>
      rw [lacksName_eq (by simp [fileCommand_of_help hhelp])]
      exact wp_again (wp_files (wp_respond_settled hex _ _))
  | none =>
      by_cases hlist : command = "list".toList
      · rw [if_pos hlist, lacksName_eq (by rw [hlist]; decide)]
        exact wp_again (list_settled hex)
      · rw [if_neg hlist, if_neg hquit, if_neg hkill]
        exact wp_again runNamed_settled

theorem request_settled (hquit : command ≠ "quit".toList) (hkill : command ≠ "killServer".toList) :
    ((requestCalls command).watch (excluded command locals)).wp SettledPass (request locals)
      (.empty, LacksName command) := by
  have hex := fileExcluded_input command locals
  have hopen : ∀ r, ¬ excluded command locals ⟨.file (.openRead .clientFifo), r⟩ :=
    fun r => hex (.openRead .clientFifo) r rfl
  refine Monitor.watch_wp_bind hopen ?_
  intro (clientFd : Option ℕ) hopened
  cases clientFd with
  | none => exact absurd rfl hopened
  | some clientFd =>
      refine Monitor.watch_wp_bind (fun _ => id) ?_
      intro (received : Option Text) hreceived
      have hcommand : received = some command := hreceived
      rw [hcommand]
      refine Monitor.wp_bind.2 (wp_files (Monitor.wp_bind_pure.1 (wp_close hex ?_)))
      have hclosed : [clientFd].erase clientFd = [] := List.erase_cons_head ..
      show Monitor.wp _ _ _ ((⟨[clientFd].erase clientFd, false⟩ : Ledger), LacksName command)
      rw [hclosed]
      exact dispatch_settled hquit hkill

end Requests

/-! ## Every command -/

/-- The handler's end of the client FIFO. -/
def Ledger.writer (s : Ledger) : FifoEnd := if s.fifos = [] then .closed else .opened

/-- A client that has read everything is at the end of its FIFO if no descriptor is left open, and
    waits if one is. -/
theorem client_at_end_iff (s : Ledger) (n : ℕ) :
    (Fifo.pipe ([] : Text) .opened s.writer).read n ≠ none ↔ s.fifos = [] := by
  unfold Ledger.writer
  by_cases hs : s.fifos = []
  · rw [if_pos hs, Fifo.read_pipe_end]
    simp [hs]
  · rw [if_neg hs, Fifo.read_pipe_blocked (by simp)]
    simp [hs]

/-- The descriptors and the response at the end of a path. -/
def ledger (command : Text) (path : List (Event RequestCall RequestReply)) : Ledger :=
  (requestCalls command).run .empty path

/-- The handler has sent a response, has closed every descriptor of the FIFO, and is back at the top
    of its loop. -/
def Answered (command : Text) (path : List (Event RequestCall RequestReply))
    (end_ : Option (SystemProgramming.Outcome Next)) : Prop :=
  ∃ o, end_ = some o ∧ (ledger command path).Good .again o

/-- A command is answered and the FIFO handed back if and only if every call of the pass returns, it
    is not an `upload` without a file name, and no reply is one of those that the command does not
    provide for. Then a client that has read the response is at the end of the FIFO.

    The calls that can fail to return, and that `end_ ≠ none` speaks of, are those that wait for
    another process: the `sem_wait` of `reader_enter` and `writer_enter`, while a process that has
    the semaphore does not post it, and the `waitpid` of `archServer`, while `zip` runs. -/
theorem command_answered_iff {command : Text} (hquit : command ≠ "quit".toList)
    (hkill : command ≠ "killServer".toList) {locals : Locals}
    {path : List (Event RequestCall RequestReply)} {end_ : Option (SystemProgramming.Outcome Next)}
    (h : Prog.Execution (request locals) path end_)
    (hfifo : (requestCalls command).Accepts .empty path) :
    (Answered command path end_ ↔
      end_ ≠ none ∧ ¬ LacksName command ∧ ∀ e ∈ path, ¬ excluded command locals e) ∧
    (Answered command path end_ →
      ∀ n, (Fifo.pipe ([] : Text) .opened (ledger command path).writer).read n ≠ none) := by
  constructor
  · cases h with
    | @complete o hrun =>
        have hsettled := Monitor.iff_of_watch (Q := fun s o => s.Good Next.again o)
          (request_settled hquit hkill) hrun hfifo
        refine Iff.trans ⟨?_, fun hgood => ⟨o, rfl, hgood⟩⟩
          (hsettled.trans ⟨fun hcond => ⟨by simp, hcond⟩, fun hcond => hcond.2⟩)
        rintro ⟨o', ho', hgood⟩
        rw [Option.some.inj ho']
        exact hgood
    | waiting hrun =>
        refine iff_of_false ?_ fun hcond => hcond.1 rfl
        rintro ⟨o, ho, -⟩
        cases ho
  · rintro ⟨o, -, hgood⟩ n
    exact (client_at_end_iff _ n).2 hgood.2.2

/-- A pass for the command `readF f`, on a file `f` of one short line. -/
def readFPass : List (Event RequestCall RequestReply) :=
  [⟨.file (.openRead .clientFifo), some 3⟩, ⟨.readCommand 3, some "readF f".toList⟩,
    ⟨.file (.close 3), ()⟩, ⟨.file (.getFile ['f']), some 0⟩, ⟨.file (.lock .readerEnter 0), ()⟩,
    ⟨.file (.openRead (.file ['f'])), some 3⟩, ⟨.file (.openWrite .clientFifo .plain), some 4⟩,
    ⟨.file (.reads 3 4096), ⟨["hi\n".toList], false, by decide⟩⟩,
    ⟨.file (.write 4 "hi\n".toList), (3 : ℤ)⟩, ⟨.file (.close 3), ()⟩, ⟨.file (.close 4), ()⟩,
    ⟨.file (.lock .readerExit 0), ()⟩]

theorem command_answered_readF :
    Answered "readF f".toList readFPass (some (.returned .again)) := by
  have hrun : Prog.Runs (request ⟨[], []⟩) readFPass (.returned .again) :=
    Prog.runs_iff_follow.2 rfl
  have hfifo : (requestCalls "readF f".toList).Accepts .empty readFPass :=
    ⟨Option.some_ne_none _, rfl, trivial, trivial, trivial, trivial, Option.some_ne_none _, trivial,
      fun _ => (by decide : (3 : ℤ) ≠ -1), trivial, trivial, trivial, trivial⟩
  have hinputs : ∀ e ∈ readFPass, ¬ excluded "readF f".toList ⟨[], []⟩ e := by
    intro e he
    simp only [readFPass, List.mem_cons, List.not_mem_nil, or_false] at he
    rcases he with rfl | rfl | rfl | rfl | rfl | rfl | rfl | rfl | rfl | rfl | rfl | rfl
    all_goals first
      | exact id
      | exact fun h => List.cons_ne_nil "hi\n".toList [] h.1
  refine (command_answered_iff (by decide) (by decide) (.complete hrun) hfifo).1.2
    ⟨by simp, ?_, hinputs⟩
  intro h
  cases h.1

/-- The path of `list` when the server directory cannot be opened. -/
def listPass : List (Event RequestCall RequestReply) :=
  [⟨.file (.openRead .clientFifo), some 3⟩, ⟨.readCommand 3, some "list".toList⟩,
    ⟨.file (.close 3), ()⟩, ⟨.file (.openWrite .clientFifo .plain), some 3⟩,
    ⟨.readServerDir, none⟩, ⟨.file (.openWrite .clientFifo .plain), some 4⟩,
    ⟨.file (.write 4 ("Error opening server directory.\n".toList ++ [nul])), (33 : ℤ)⟩,
    ⟨.file (.close 4), ()⟩]

/-- The path of `readF f` when the table is full. -/
def fullTablePass : List (Event RequestCall RequestReply) :=
  [⟨.file (.openRead .clientFifo), some 3⟩, ⟨.readCommand 3, some "readF f".toList⟩,
    ⟨.file (.close 3), ()⟩, ⟨.file (.getFile ['f']), none⟩, ⟨.file (.initFile ['f']), none⟩]

/-- `list` leaves a descriptor of the FIFO open, so that its client waits for ever; with a full
    table the handler exits without an answer. -/
theorem command_not_always_answered :
    (Prog.Runs (request ⟨[], []⟩) listPass (.returned .again) ∧
      (requestCalls "list".toList).Accepts .empty listPass ∧
      (ledger "list".toList listPass).fifos = [3] ∧
      (Fifo.pipe ([] : Text) .opened (ledger "list".toList listPass).writer).read 4096 = none) ∧
    Prog.Runs (request ⟨[], []⟩) fullTablePass .exited ∧
      (requestCalls "readF f".toList).Accepts .empty fullTablePass ∧
      (ledger "readF f".toList fullTablePass).answered = false := by
  have hwrite : (33 : ℤ) ≠ -1 := by decide
  refine ⟨⟨Prog.runs_iff_follow.2 rfl, ?_, rfl, ?_⟩, Prog.runs_iff_follow.2 rfl, ?_, rfl⟩
  · exact ⟨Option.some_ne_none _, rfl, trivial, Option.some_ne_none _, trivial,
      Option.some_ne_none _, fun _ => hwrite, trivial, trivial⟩
  · exact Fifo.read_pipe_blocked (by decide) _ _
  · exact ⟨Option.some_ne_none _, rfl, trivial, trivial, trivial, trivial⟩

end SystemProgramming.Server
