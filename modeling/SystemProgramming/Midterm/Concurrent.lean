import SystemProgramming.Lib.Crowd
import SystemProgramming.Midterm.Session
import SystemProgramming.Midterm.SyncProgress

set_option autoImplicit false

/-! # Handlers side by side

The handlers of several clients on one table and one set of files. A call on files is one step, as
is the loop of `read` calls; a call of `sync.c` goes through its statements, as in `lockMachine`.
When a handler has served a command it takes up the next one of its client, at any later time.
The names of the commands are in the table from the start, so that no handler enters one.

`Owns` says where one handler is, in terms that no other handler can make false: a file that is read
or written by a handler is left alone by the others. Beside the world stands a `Journal`: the store
that has been served so far, by whom and what, and the place of each handler in each lock. -/

namespace SystemProgramming.Server

open Function Prog Sync Handler

/-! ## The machine -/

/-- Between two calls of `sync.c`. -/
def atRest : PC → Bool
  | .outside | .reading | .writing => true
  | _ => false

/-- Where a function of `sync.c` is called, and for which role. -/
def LockOp.caller : LockOp → PC × Role
  | .readerEnter => (.outside, .reader)
  | .readerExit => (.reading, .reader)
  | .writerEnter => (.outside, .writer)
  | .writerExit => (.writing, .writer)

/-- The table and the files, and of each handler its host, whose own table and files are not used,
    the statement of `sync.c` that it is at, and the commands that its client has still to send,
    with the arrays that each will find. -/
structure Handlers (κ : Type*) where
  sd : Shared
  files : Path → Option Text
  own : κ → Host
  inLock : κ → Option PC
  todo : κ → List (FileCommand × Locals)

variable {κ : Type*} [DecidableEq κ]

namespace Handlers

/-- What a handler sees. -/
def view (w : Handlers κ) (j : κ) : Host := { w.own j with sd := w.sd, files := w.files }

/-- What a handler leaves of what it has seen. -/
def putBack (w : Handlers κ) (j : κ) (v : Host) : Handlers κ :=
  { w with sd := v.sd, files := v.files, own := update w.own j v }

/-- A handler has come to this statement with the entry. -/
def locking (w : Handlers κ) (j : κ) (entry : ℕ) (file : File) (pc : PC) : Handlers κ :=
  { w with
    sd := { w.sd with files := update w.sd.files entry file }
    inLock := update w.inLock j (if atRest pc then none else some pc) }

/-- A step of a call. -/
def answer (j : κ) (w : Handlers κ) : (c : Call) → Option (Option (Reply c) × Handlers κ)
  | .lock op entry =>
      (stepPC op.caller.2 (w.sd.files entry) ((w.inLock j).getD op.caller.1)).map fun r =>
        (if atRest r.2 then some () else none, w.locking j entry r.1 r.2)
  | c => ((w.view j).answer c).map fun r => (some r.1, w.putBack j r.2)

/-- A handler takes up the next command. -/
def take (j : κ) (w : Handlers κ) : Option (Handler Unit × Handlers κ) :=
  match w.todo j with
  | [] => none
  | (c, locals) :: rest =>
      some (runCommand c.name c.arguments locals, { w with todo := update w.todo j rest })

theorem take_eq_some {j : κ} {w w' : Handlers κ} {p : Handler Unit} :
    w.take j = some (p, w') ↔ ∃ c locals rest, w.todo j = (c, locals) :: rest ∧
      p = runCommand c.name c.arguments locals ∧
      w' = { w with todo := update w.todo j rest } := by
  unfold take
  constructor
  · intro h
    split at h
    · cases h
    · next c locals rest htodo =>
        cases h
        exact ⟨c, locals, rest, htodo, rfl, rfl⟩
  · rintro ⟨c, locals, rest, htodo, rfl, rfl⟩
    rw [htodo]

theorem answer_of_ne_lock {j : κ} {w : Handlers κ} {c : Call}
    (hc : ∀ op entry, c ≠ .lock op entry) :
    w.answer j c = ((w.view j).answer c).map fun r => (some r.1, w.putBack j r.2) := by
  cases c with
  | lock op entry => exact absurd rfl (hc op entry)
  | _ => rfl

theorem answer_lock {j : κ} {w w' : Handlers κ} {op : LockOp} {entry : ℕ} {r : Option Unit} :
    w.answer j (.lock op entry) = some (r, w') ↔
      ∃ file pc, stepPC op.caller.2 (w.sd.files entry) ((w.inLock j).getD op.caller.1)
          = some (file, pc) ∧
        r = (if atRest pc then some () else none) ∧ w' = w.locking j entry file pc := by
  constructor
  · intro h
    obtain ⟨⟨file, pc⟩, hstep, heq⟩ := Option.map_eq_some_iff.1 h
    cases heq
    exact ⟨file, pc, hstep, rfl, rfl⟩
  · rintro ⟨file, pc, hstep, rfl, rfl⟩
    exact Option.map_eq_some_iff.2 ⟨(file, pc), hstep, rfl⟩

end Handlers

/-! ## The statements of `sync.c` -/

theorem stepPC_name {role : Role} {f f' : File} {pc pc' : PC}
    (h : stepPC role f pc = some (f', pc')) : f'.name = f.name := by
  cases pc with
  | outside => cases role <;> cases h <;> rfl
  | readerEnterLock | readerEnterBlock | readerExitLock | writerEnterLock | writerEnterExclude =>
      obtain ⟨v, -, heq⟩ := Option.map_eq_some_iff.1 h
      cases heq
      rfl
  | _ =>
      cases h
      rfl

theorem getFile_step {sd : Shared} {role : Role} {entry : ℕ} {file : File} {pc pc' : PC}
    (hstep : stepPC role (sd.files entry) pc = some (file, pc')) (name : Text) :
    Sync.getFile { sd with files := update sd.files entry file } name
      = Sync.getFile sd name := by
  have hnames : (fun i => decide ((update sd.files entry file i).name = name))
      = fun i => decide ((sd.files i).name = name) := by
    funext i
    by_cases hi : i = entry
    · rw [hi, update_self, stepPC_name hstep]
    · rw [update_of_ne hi]
  unfold Sync.getFile
  exact congrArg (fun f => (List.range sd.size).find? f) hnames

/-- The role matters only outside. -/
theorem stepPC_role {f : File} {pc : PC} (hpc : pc ≠ .outside) (role role' : Role) :
    stepPC role f pc = stepPC role' f pc := by
  cases pc with
  | outside => exact absurd rfl hpc
  | _ => rfl

/-- Of a handler in `sync.c` so many statements are left. -/
def statementsLeft : PC → ℕ
  | .readerEnterLock | .readerExitLock => 4
  | .readerEnterCount | .readerExitCount => 3
  | .readerEnterBlock | .readerExitRelease | .writerEnterLock | .writerExitAdmit => 2
  | .readerEnterUnlock | .readerExitUnlock | .writerEnterExclude | .writerExitUnlock => 1
  | .outside | .reading | .writing => 5

theorem statementsLeft_step {role : Role} {f f' : File} {pc pc' : PC}
    (h : stepPC role f pc = some (f', pc')) (hrest : atRest pc' = false) :
    statementsLeft pc' < statementsLeft pc := by
  cases pc with
  | outside =>
      cases role with
      | reader | writer =>
          cases h
          decide
  | reading | writing | writerExitAdmit =>
      cases h
      decide
  | readerEnterLock | writerEnterLock | readerEnterBlock | readerExitLock =>
      obtain ⟨v, -, heq⟩ := Option.map_eq_some_iff.1 h
      cases heq
      decide
  | readerEnterCount | readerExitCount =>
      simp only [stepPC, Option.some.injEq, Prod.mk.injEq] at h
      obtain ⟨-, rfl⟩ := h
      split <;> decide
  | readerExitRelease =>
      cases h
      decide
  | writerEnterExclude =>
      obtain ⟨v, -, heq⟩ := Option.map_eq_some_iff.1 h
      cases heq
      cases hrest
  | readerEnterUnlock | readerExitUnlock | writerExitUnlock =>
      cases h
      cases hrest

/-- The handlers, side by side. -/
def handlers (w : Handlers κ) : Machine (Crowd κ (Handlers κ) Call Reply) κ :=
  crowd Handlers.answer Handlers.take w

theorem Handlers.answer_others {i j : κ} {w w' : Handlers κ} {c : Call} {r : Option (Reply c)}
    (h : w.answer j c = some (r, w')) :
    w'.todo i = w.todo i ∧ (i ≠ j → w'.inLock i = w.inLock i) := by
  by_cases hc : ∃ op entry, c = .lock op entry
  · obtain ⟨op, entry, rfl⟩ := hc
    obtain ⟨f, pc, -, -, rfl⟩ := Handlers.answer_lock.1 h
    exact ⟨rfl, fun hij => update_of_ne hij _ _⟩
  · rw [Handlers.answer_of_ne_lock fun op entry heq => hc ⟨op, entry, heq⟩,
      Option.map_eq_some_iff] at h
    obtain ⟨r, -, heq⟩ := h
    cases heq
    exact ⟨rfl, fun _ => rfl⟩

theorem Handlers.answer_unfinished {j : κ} {w w' : Handlers κ} {c : Call}
    (h : w.answer j c = some (none, w')) :
    ((w'.inLock j).map statementsLeft).getD 5 < ((w.inLock j).map statementsLeft).getD 5 := by
  by_cases hc : ∃ op entry, c = .lock op entry
  · obtain ⟨op, entry, rfl⟩ := hc
    obtain ⟨f, pc, hstep, hreply, rfl⟩ := Handlers.answer_lock.1 h
    have hrest : atRest pc = false := by
      cases hpc : atRest pc with
      | false => rfl
      | true =>
          rw [hpc] at hreply
          cases hreply
    have hbefore : ((w.inLock j).map statementsLeft).getD 5
        = statementsLeft ((w.inLock j).getD op.caller.1) := by
      cases w.inLock j with
      | some pc => rfl
      | none => cases op <;> rfl
    have hafter : (w.locking j entry f pc).inLock j = some pc := by
      show update w.inLock j (if atRest pc then none else some pc) j = _
      rw [update_self, hrest]
      rfl
    rw [hbefore, hafter]
    exact statementsLeft_step hstep hrest
  · rw [Handlers.answer_of_ne_lock fun op entry heq => hc ⟨op, entry, heq⟩,
      Option.map_eq_some_iff] at h
    obtain ⟨r, -, heq⟩ := h
    cases heq

theorem handlers_halt [Finite κ] (w : Handlers κ) (x : Crowd κ (Handlers κ) Call Reply) :
    (handlers w).Halts x := by
  refine crowd_halts (fun j w => (w.todo j).length)
    (fun j w => ((w.inLock j).map statementsLeft).getD 5) ?_ ?_ ?_ ?_ w x
  · intro i j w c r w' h
    exact congrArg List.length (Handlers.answer_others h).1
  · intro j w c w' h
    exact Handlers.answer_unfinished h
  · intro i j w c r w' hij h
    rw [(Handlers.answer_others h).2 hij]
  · intro j w p w' h
    obtain ⟨c, locals, rest, htodo, -, rfl⟩ := Handlers.take_eq_some.1 h
    refine ⟨?_, fun i hij => ⟨congrArg List.length (update_of_ne hij _ _), rfl⟩⟩
    show (update w.todo j rest j).length < (w.todo j).length
    rw [update_self, htodo]
    exact Nat.lt_succ_self _

/-! ## What a handler can rely on -/

/-- What the handlers start with: the files, the entry of each name, and the commands to serve. -/
structure Task (κ : Type*) where
  files : Path → Option Text
  entry : Text → Option ℕ
  commands : κ → List FileCommand

/-- The store that has been served, who has been served what, and where each is in each lock. -/
structure Journal (κ : Type*) where
  files : Path → Option Text
  log : List (κ × FileCommand × Text)
  place : κ → Text → PC

/-- What a log says that one of them has been served. -/
def servedTo (log : List (κ × FileCommand × Text)) (j : κ) : List (FileCommand × Text) :=
  (log.filter fun item => item.1 = j).map fun item => item.2

/-- The commands of the client that have been served, with their answers. -/
def Journal.served (g : Journal κ) (j : κ) : List (FileCommand × Text) := servedTo g.log j

theorem served_append (g : Journal κ) (i : κ) (item : κ × FileCommand × Text)
    (files : Path → Option Text) (place : κ → Text → PC) :
    (⟨files, g.log ++ [item], place⟩ : Journal κ).served i
      = g.served i ++ if item.1 = i then [item.2] else [] := by
  unfold Journal.served servedTo
  dsimp only
  rw [List.filter_append, List.map_append]
  by_cases hi : item.1 = i <;> simp [hi]

/-- The handler is in a section, and not in a lock function. -/
def inSection : PC → Bool
  | .reading | .writing => true
  | _ => false

variable [Fintype κ]

/-- The log is a session with the store, in which each is served its commands in their order; of
    those that it has taken up one may be pending. The locks are in order, and a file that nobody
    writes is that of the store. -/
structure Coherent (T : Task κ) (s : Handlers κ × Journal κ) : Prop where
  serial : fileStore.session T.files (s.2.log.map fun item => item.2.1)
    = some (s.2.files, s.2.log.map fun item => item.2.2)
  order : ∀ j, ∃ pending : List FileCommand, pending.length ≤ 1 ∧
    (s.2.served j).map Prod.fst ++ pending ++ (s.1.todo j).map Prod.fst = T.commands j
  calm : ∀ j, (s.1.own j).Calm
  table : ∀ name, getFile s.1.sd name = T.entry name
  locks : ∀ name entry, T.entry name = some entry →
    Sync.Inv ⟨s.1.sd.files entry, fun j => s.2.place j name⟩
  statements : ∀ j name, atRest (s.2.place j name) = false → s.1.inLock j = some (s.2.place j name)
  contents : ∀ path, (∀ name, path = .file name → ∀ j, s.2.place j name ≠ .writing) →
    s.1.files path = s.2.files path

/-- What the others leave to a handler. -/
structure Left (j : κ) (s s' : Handlers κ × Journal κ) : Prop where
  own : s'.1.own j = s.1.own j
  inLock : s'.1.inLock j = s.1.inLock j
  place : s'.2.place j = s.2.place j
  served : s'.2.served j = s.2.served j
  todo : s'.1.todo j = s.1.todo j
  files : ∀ name, inSection (s.2.place j name) = true →
    s'.1.files (.file name) = s.1.files (.file name) ∧
      s'.2.files (.file name) = s.2.files (.file name)

/-- A handler waits at a statement of a lock, and has none of the other locks. -/
def Waits (T : Task κ) (j : κ) (s : Handlers κ × Journal κ) : Prop :=
  ∃ name entry, T.entry name = some entry ∧ s.2.place j name ≠ .outside ∧
    (∀ name', name' ≠ name → s.2.place j name' = .outside) ∧
    Stuck ⟨s.1.sd.files entry, fun i => s.2.place i name⟩ j

/-- What the handlers rely on: the others keep the table coherent, and the log only grows. -/
def reliance (T : Task κ) : Reliance κ (Handlers κ × Journal κ) where
  common s s' := (Coherent T s → Coherent T s') ∧ s.2.log <+: s'.2.log
  keeps := Left
  waits := Waits T

/-- The descriptors of a handler, and what it has sent. -/
structure Desk where
  opened : ℕ → Option Opened
  nextFd : ℕ
  sent : Text

/-- What a handler has to itself. -/
def Host.desk (w : Host) : Desk := ⟨w.opened, w.nextFd, w.responses.flatten⟩

/-- Handler `j` is at `pc` of the lock of `name` and has been served this, not yet what is pending.
    `p` speaks of its desk, and `q`, in a section, of the file and of that of the store. -/
structure Owns (T : Task κ) (j : κ) (name : Text) (pc : PC) (served : List (FileCommand × Text))
    (pending : List FileCommand) (p : Desk → Prop) (q : Option Text → Option Text → Prop)
    (s : Handlers κ × Journal κ) : Prop where
  coherent : Coherent T s
  place : s.2.place j = update (fun _ => .outside) name pc
  inLock : s.1.inLock j = if atRest pc then none else some pc
  commands : served.map Prod.fst ++ pending ++ (s.1.todo j).map Prod.fst = T.commands j
  served : s.2.served j = served
  own : p (s.1.own j).desk
  content : inSection pc = true → q (s.1.files (.file name)) (s.2.files (.file name))

section Owns

variable {T : Task κ} {j : κ} {name : Text} {entry : ℕ} {pc : PC}
  {served : List (FileCommand × Text)} {pending : List FileCommand} {p p' : Desk → Prop}
  {q q' : Option Text → Option Text → Prop} {s : Handlers κ × Journal κ} {w : Handlers κ}
  {g : Journal κ}

theorem Owns.place_self (h : Owns T j name pc served pending p q s) : s.2.place j name = pc := by
  rw [h.place, update_self]

theorem owns_stable : (reliance T).Stable j (Owns T j name pc served pending p q) := by
  rintro s s' h ⟨hcoherent, -⟩ hleft
  refine ⟨hcoherent h.coherent, hleft.place.trans h.place, hleft.inLock.trans h.inLock,
    ?_, hleft.served.trans h.served, ?_, fun hpc => ?_⟩
  · rw [hleft.todo]
    exact h.commands
  · rw [hleft.own]
    exact h.own
  · have hfiles := hleft.files name (by rw [h.place_self]; exact hpc)
    rw [hfiles.1, hfiles.2]
    exact h.content hpc

theorem Owns.mono (h : Owns T j name pc served pending p q s) (hp : ∀ desk, p desk → p' desk)
    (hq : ∀ content stored, q content stored → q' content stored) :
    Owns T j name pc served pending p' q' s :=
  ⟨h.coherent, h.place, h.inLock, h.commands, h.served, hp _ h.own,
    fun hpc => hq _ _ (h.content hpc)⟩

/-- What is known of the desk of a handler now. -/
theorem Owns.desk (h : Owns T j name pc served pending p q s) (hp : p' (s.1.own j).desk) :
    Owns T j name pc served pending p' q s :=
  ⟨h.coherent, h.place, h.inLock, h.commands, h.served, hp, h.content⟩

theorem Owns.forget (h : Owns T j name pc served pending p q s) :
    Owns T j name pc served pending p (fun _ _ => True) s :=
  h.mono (fun _ h => h) fun _ _ _ => trivial

/-- Beside a writer nobody is in a section. -/
theorem Coherent.alone (h : Coherent T s) (hentry : T.entry name = some entry)
    (hj : s.2.place j name = .writing) {i : κ} (hi : inSection (s.2.place i name) = true) :
    i = j := by
  have hlocks := h.locks name entry hentry
  have hwriting : 0 < countAt PC.isWriting fun i => s.2.place i name :=
    countAt_pos_of (i := j) (by rw [hj]; rfl)
  have hnone := countAt_eq_zero.1 (hlocks.inside_eq_zero hwriting) i
  cases hpc : s.2.place i name with
  | writing =>
      have hone := hlocks.writing_le_one
      exact eq_of_countAt_le_one hone (by show (s.2.place i name).isWriting = true; rw [hpc]; rfl)
        (by show (s.2.place j name).isWriting = true; rw [hj]; rfl)
  | reading =>
      dsimp only at hnone
      rw [hpc] at hnone
      cases hnone
  | _ =>
      rw [hpc] at hi
      cases hi

/-- A call on files: its handler may change the file that it writes. -/
theorem Owns.call (h : Owns T j name pc served pending p q (w, g))
    (hentry : pc = .writing → T.entry name = some entry) {v : Host} (hsd : v.sd = w.sd)
    (hcalm : v.Calm)
    (hfiles : v.files = w.files ∨
      pc = .writing ∧ ∃ content, v.files = update w.files (.file name) content)
    (hp : p' v.desk)
    (hq : inSection pc = true → q' (v.files (.file name)) (g.files (.file name))) :
    (reliance T).Moves j (w, g) (w.putBack j v, g) ∧
      Owns T j name pc served pending p' q' (w.putBack j v, g) := by
  have hcoherent : Coherent T (w.putBack j v, g) := by
    have hc := h.coherent
    refine ⟨hc.serial, hc.order, fun i => ?_, fun name' => ?_, fun name' entry' hname' => ?_,
      hc.statements, fun path hpath => ?_⟩
    · show (update w.own j v i).Calm
      by_cases hij : i = j
      · rw [hij, update_self]
        exact hcalm
      · rw [update_of_ne hij]
        exact hc.calm i
    · show getFile v.sd name' = _
      rw [hsd]
      exact hc.table name'
    · show Sync.Inv ⟨v.sd.files entry', _⟩
      rw [hsd]
      exact hc.locks name' entry' hname'
    · show v.files path = g.files path
      rcases hfiles with hsame | ⟨rfl, content, hfile⟩
      · rw [hsame]
        exact hc.contents path hpath
      · have hne : path ≠ .file name := fun heq => hpath name heq j h.place_self
        rw [hfile, update_of_ne hne]
        exact hc.contents path hpath
  refine ⟨⟨⟨fun _ => hcoherent, List.prefix_rfl⟩, fun i hij => ?_⟩,
    ⟨hcoherent, h.place, h.inLock, h.commands, h.served, ?_, hq⟩⟩
  · refine ⟨update_of_ne hij _ _, rfl, rfl, rfl, rfl, fun name' hname' => ⟨?_, rfl⟩⟩
    show v.files (.file name') = w.files (.file name')
    rcases hfiles with hsame | ⟨rfl, content, hfile⟩
    · rw [hsame]
    · have hne : Path.file name' ≠ .file name := by
        intro heq
        cases heq
        exact hij (h.coherent.alone (hentry rfl) h.place_self hname')
      rw [hfile, update_of_ne hne]
  · show p' (update w.own j v j).desk
    rw [update_self]
    exact hp

/-- Between two commands a handler takes up the next one. -/
theorem Owns.take (h : Owns T j name pc served [] p q (w, g)) {c : FileCommand} {locals : Locals}
    {rest : List (FileCommand × Locals)} (htodo : w.todo j = (c, locals) :: rest) :
    (reliance T).Moves j (w, g) ({ w with todo := update w.todo j rest }, g) ∧
      Owns T j name pc served [c] p q ({ w with todo := update w.todo j rest }, g) := by
  have hcommands : served.map Prod.fst ++ [c] ++ (update w.todo j rest j).map Prod.fst
      = T.commands j := by
    have hbefore : served.map Prod.fst ++ [] ++ (w.todo j).map Prod.fst = T.commands j := h.commands
    rw [htodo, List.append_nil, List.map_cons] at hbefore
    rw [update_self, List.append_assoc]
    exact hbefore
  have hcoherent : Coherent T ({ w with todo := update w.todo j rest }, g) := by
    have hc := h.coherent
    refine ⟨hc.serial, fun i => ?_, hc.calm, hc.table, hc.locks, hc.statements, hc.contents⟩
    show ∃ pending : List FileCommand, pending.length ≤ 1 ∧
      (g.served i).map Prod.fst ++ pending ++ (update w.todo j rest i).map Prod.fst = T.commands i
    by_cases hij : i = j
    · refine ⟨[c], Nat.le_refl 1, ?_⟩
      rw [hij, h.served]
      exact hcommands
    · rw [update_of_ne hij]
      exact hc.order i
  refine ⟨⟨⟨fun _ => hcoherent, List.prefix_rfl⟩, fun i hij => ?_⟩,
    ⟨hcoherent, h.place, h.inLock, hcommands, h.served, h.own, h.content⟩⟩
  exact ⟨rfl, rfl, rfl, rfl, update_of_ne hij _ _, fun _ _ => ⟨rfl, rfl⟩⟩

/-! ## Steps in a lock -/

omit [DecidableEq κ] [Fintype κ] in
/-- The place of a handler that is nowhere else. -/
theorem place_of_ne (hplace : g.place j = update (fun _ => .outside) name pc) {name' : Text}
    (hname : name' ≠ name) : g.place j name' = .outside := by
  rw [hplace, update_of_ne hname]

/-- A step of a handler in the lock of its file keeps the state coherent, if the log does. -/
theorem Owns.locking (h : Owns T j name pc served pending p q (w, g))
    (hentry : T.entry name = some entry) {role : Role} {file : File} {pc' : PC}
    (hstep : stepPC role (w.sd.files entry) pc = some (file, pc')) {g' : Journal κ}
    (hplace : g'.place = update g.place j (update (fun _ => .outside) name pc'))
    (hserial : fileStore.session T.files (g'.log.map fun item => item.2.1)
      = some (g'.files, g'.log.map fun item => item.2.2))
    (horder : ∀ i, ∃ pending : List FileCommand, pending.length ≤ 1 ∧
      (g'.served i).map Prod.fst ++ pending ++ (w.todo i).map Prod.fst = T.commands i)
    (hcontents : ∀ path, (∀ name, path = .file name → ∀ i, g'.place i name ≠ .writing) →
      w.files path = g'.files path) :
    Coherent T (w.locking j entry file pc', g') := by
  have hc := h.coherent
  have hself : g'.place j = update (fun _ => .outside) name pc' := by rw [hplace, update_self]
  have hothers : ∀ i, i ≠ j → g'.place i = g.place i := fun i hij => by
    rw [hplace, update_of_ne hij]
  refine ⟨hserial, horder, hc.calm, fun name' => ?_, fun name' entry' hname' => ?_,
    fun i name' hrest => ?_, hcontents⟩
  · exact (getFile_step hstep name').trans (hc.table name')
  · show Sync.Inv ⟨update w.sd.files entry file entry', fun i => g'.place i name'⟩
    by_cases hsame : name' = name
    · subst hsame
      obtain rfl : entry' = entry := Option.some.inj (hname'.symm.trans hentry)
      have hpcs : (fun i => g'.place i name') = update (fun i => g.place i name') j pc' := by
        funext i
        by_cases hij : i = j
        · rw [hij, update_self, hself, update_self]
        · rw [update_of_ne hij, hothers i hij]
      rw [update_self, hpcs]
      refine inv_step (hc.locks name' entry' hname') (a := (j, role)) (next_eq_some.2
        ⟨file, pc', ?_, rfl⟩)
      show stepPC role (w.sd.files entry') (g.place j name') = _
      rw [h.place_self]
      exact hstep
    · -- another entry, where the handler is outside
      have hne : entry' ≠ entry := by
        rintro rfl
        have hfirst := (getFile_eq_some ((hc.table name').trans hname')).2
        have hsecond := (getFile_eq_some ((hc.table name).trans hentry)).2
        exact hsame (hfirst.symm.trans hsecond)
      have hpcs : (fun i => g'.place i name') = fun i => g.place i name' := by
        funext i
        by_cases hij : i = j
        · rw [hij, place_of_ne hself hsame, place_of_ne h.place hsame]
        · rw [hothers i hij]
      rw [update_of_ne hne, hpcs]
      exact hc.locks name' entry' hname'
  · show update w.inLock j (if atRest pc' then none else some pc') i = some (g'.place i name')
    by_cases hij : i = j
    · subst hij
      have hname : name' = name := by
        by_contra hname
        rw [place_of_ne hself hname] at hrest
        cases hrest
      subst hname
      rw [hself, update_self] at hrest ⊢
      rw [update_self, hrest]
      rfl
    · rw [update_of_ne hij]
      rw [hothers i hij] at hrest ⊢
      exact hc.statements i name' hrest

/-- A step in the lock that does not leave a section. -/
theorem Owns.lockStep (h : Owns T j name pc served pending p q (w, g))
    (hentry : T.entry name = some entry) {role : Role} {file : File} {pc' : PC}
    (hstep : stepPC role (w.sd.files entry) pc = some (file, pc')) (hpc : pc ≠ .writing) :
    ∃ g', (reliance T).Moves j (w, g) (w.locking j entry file pc', g') ∧
      Owns T j name pc' served pending p (fun content stored => content = stored)
        (w.locking j entry file pc', g') := by
  let g' : Journal κ := { g with place := update g.place j (update (fun _ => .outside) name pc') }
  have hself : g'.place j = update (fun _ => .outside) name pc' := update_self _ _ _
  have hothers : ∀ i, i ≠ j → g'.place i = g.place i := fun i hij => update_of_ne hij _ _
  -- who writes before the step still does
  have hwriters : ∀ name' i, g.place i name' = .writing → i ≠ j ∧ g'.place i name' = .writing := by
    intro name' i hi
    have hij : i ≠ j := by
      rintro rfl
      by_cases hname : name' = name
      · rw [hname, h.place_self] at hi
        exact hpc hi
      · rw [place_of_ne h.place hname] at hi
        cases hi
    exact ⟨hij, by rw [hothers i hij, hi]⟩
  have hcoherent : Coherent T (w.locking j entry file pc', g') := by
    refine h.locking hentry hstep rfl h.coherent.serial h.coherent.order fun path hpath => ?_
    exact h.coherent.contents path fun name' hname' i hi =>
      hpath name' hname' i (hwriters name' i hi).2
  refine ⟨g', ⟨⟨fun _ => hcoherent, List.prefix_rfl⟩, fun i hij => ?_⟩,
    ⟨hcoherent, hself, update_self _ _ _, h.commands, h.served, h.own, fun hsection => ?_⟩⟩
  · exact ⟨rfl, update_of_ne hij _ _, hothers i hij, rfl, rfl, fun _ _ => ⟨rfl, rfl⟩⟩
  · refine h.coherent.contents _ fun name' hname' i hi => ?_
    cases hname'
    obtain ⟨hij, hi'⟩ := hwriters name i hi
    have hj : inSection (g'.place j name) = true := by rw [hself, update_self, hsection]
    exact hij (hcoherent.alone hentry hi' hj).symm

/-- The first step of a handler that leaves its section: the command is served. -/
theorem Owns.leave {c : FileCommand} (h : Owns T j name pc served [c] p q (w, g))
    (hentry : T.entry name = some entry) {role : Role} {file : File} {pc' : PC}
    (hstep : stepPC role (w.sd.files entry) pc = some (file, pc')) (hsection : inSection pc = true)
    (hreader : pc = .reading → w.files (.file name) = g.files (.file name))
    (hpc' : inSection pc' = false) {answer : Text}
    (hserve : fileStore.serve g.files c
      = some (update g.files (.file name) (w.files (.file name)), answer)) :
    ∃ g', (reliance T).Moves j (w, g) (w.locking j entry file pc', g') ∧
      Owns T j name pc' (served ++ [(c, answer)]) [] p q' (w.locking j entry file pc', g') := by
  let g' : Journal κ :=
    ⟨update g.files (.file name) (w.files (.file name)), g.log ++ [(j, c, answer)],
      update g.place j (update (fun _ => .outside) name pc')⟩
  have hself : g'.place j = update (fun _ => .outside) name pc' := update_self _ _ _
  have hothers : ∀ i, i ≠ j → g'.place i = g.place i := fun i hij => update_of_ne hij _ _
  have hservedSelf : g'.served j = served ++ [(c, answer)] := by
    show Journal.served ⟨_, g.log ++ [(j, c, answer)], _⟩ j = _
    rw [served_append, if_pos rfl, h.served]
  have hservedOthers : ∀ i, i ≠ j → g'.served i = g.served i := by
    intro i hij
    show Journal.served ⟨_, g.log ++ [(j, c, answer)], _⟩ i = _
    rw [served_append, if_neg (Ne.symm hij), List.append_nil]
  have hcommands : (served ++ [(c, answer)]).map Prod.fst ++ [] ++ (w.todo j).map Prod.fst
      = T.commands j := by
    rw [List.map_append, List.append_nil]
    exact h.commands
  have hcoherent : Coherent T (w.locking j entry file pc', g') := by
    refine h.locking hentry hstep rfl ?_ (fun i => ?_) fun path hpath => ?_
    · show fileStore.session T.files ((g.log ++ [(j, c, answer)]).map fun item => item.2.1)
        = some (_, (g.log ++ [(j, c, answer)]).map fun item => item.2.2)
      rw [List.map_append, List.map_append]
      refine Service.session_append_eq_some.2 ⟨g.files, _, [answer], h.coherent.serial, ?_, rfl⟩
      exact Service.session_cons_eq_some.2 ⟨_, answer, [], hserve, rfl, rfl⟩
    · by_cases hij : i = j
      · refine ⟨[], Nat.zero_le 1, ?_⟩
        rw [hij, hservedSelf]
        exact hcommands
      · rw [hservedOthers i hij]
        exact h.coherent.order i
    · show w.files path = update g.files (.file name) (w.files (.file name)) path
      by_cases hname : path = .file name
      · rw [hname, update_self]
      · rw [update_of_ne hname]
        refine h.coherent.contents path fun name' hname' i hi => ?_
        have hne : name' ≠ name := fun heq => hname (heq ▸ hname')
        by_cases hij : i = j
        · rw [hij, place_of_ne h.place hne] at hi
          cases hi
        · exact hpath name' hname' i (by rw [hothers i hij, hi])
  refine ⟨g', ⟨⟨fun _ => hcoherent, List.prefix_append _ _⟩, fun i hij => ?_⟩,
    ⟨hcoherent, hself, update_self _ _ _, hcommands, hservedSelf, h.own, fun hpc => ?_⟩⟩
  · refine ⟨rfl, update_of_ne hij _ _, hothers i hij, hservedOthers i hij, rfl,
      fun name' hname' => ⟨rfl, ?_⟩⟩
    show update g.files (.file name) (w.files (.file name)) (.file name') = _
    by_cases hname : name' = name
    · -- only readers are in a section together
      subst hname
      rw [update_self]
      refine hreader ?_
      cases hpc : pc with
      | reading => rfl
      | writing =>
          subst hpc
          exact absurd (h.coherent.alone hentry h.place_self hname') hij
      | _ =>
          rw [hpc] at hsection
          cases hsection
    · rw [update_of_ne fun heq => hname (Path.file.inj heq)]
  · rw [hpc'] at hpc
    cases hpc

end Owns

end SystemProgramming.Server
