import SystemProgramming.Midterm.Concurrent

set_option autoImplicit false

/-! # Clients side by side

Any number of clients append to files and read them, through handlers that run side by side. Their
runs are serializable: the answers and the files are those of one session with `fileStore`, in
which the commands of each client come in their order, and what is answered before another command
is taken up comes before it.

The other commands are left out because they are not serializable: a `writeT` with a line number
gives up the lock between its two sections, a `readF` with one leaves the lock once too often, and
the transfers use the server directory without a lock. Nor do the handlers enter names: two that
look for a name at the same time may make two entries of it, and so two locks. -/

namespace SystemProgramming.Server

open Function Prog Sync Handler

variable {κ : Type} [DecidableEq κ] [Fintype κ]

/-! ## Rules for the calls -/

/-- The statement at which a handler is in its section. -/
def inside : Role → PC
  | .reader => .reading
  | .writer => .writing

/-- The places of a handler that enters a section. -/
def entering : Role → List PC
  | .reader =>
      [.outside, .readerEnterLock, .readerEnterCount, .readerEnterBlock, .readerEnterUnlock]
  | .writer => [.outside, .writerEnterLock, .writerEnterExclude]

/-- The places of a handler that leaves one. -/
def leaving : Role → List PC
  | .reader => [.readerExitLock, .readerExitCount, .readerExitRelease, .readerExitUnlock]
  | .writer => [.writerExitAdmit, .writerExitUnlock]

theorem entering_step {role : Role} {f f' : File} {pc pc' : PC} (hpc : pc ∈ entering role)
    (h : stepPC role f pc = some (f', pc')) :
    pc ≠ .writing ∧ (pc' ∈ entering role ∧ atRest pc' = false ∨ pc' = inside role) := by
  cases role with
  | reader =>
      simp only [entering, List.mem_cons, List.not_mem_nil, or_false] at hpc
      rcases hpc with rfl | rfl | rfl | rfl | rfl
      · cases h
        decide
      · obtain ⟨v, -, heq⟩ := Option.map_eq_some_iff.1 h
        cases heq
        decide
      · simp only [stepPC, Option.some.injEq, Prod.mk.injEq] at h
        obtain ⟨-, rfl⟩ := h
        split <;> decide
      · obtain ⟨v, -, heq⟩ := Option.map_eq_some_iff.1 h
        cases heq
        decide
      · cases h
        decide
  | writer =>
      simp only [entering, List.mem_cons, List.not_mem_nil, or_false] at hpc
      rcases hpc with rfl | rfl | rfl
      · cases h
        decide
      · obtain ⟨v, -, heq⟩ := Option.map_eq_some_iff.1 h
        cases heq
        decide
      · obtain ⟨v, -, heq⟩ := Option.map_eq_some_iff.1 h
        cases heq
        decide

theorem leaving_step {role : Role} {f f' : File} {pc pc' : PC} (hpc : pc ∈ leaving role)
    (h : stepPC role f pc = some (f', pc')) :
    pc ≠ .writing ∧ (pc' ∈ leaving role ∧ atRest pc' = false ∨ pc' = .outside) := by
  cases role with
  | reader =>
      simp only [leaving, List.mem_cons, List.not_mem_nil, or_false] at hpc
      rcases hpc with rfl | rfl | rfl | rfl
      · obtain ⟨v, -, heq⟩ := Option.map_eq_some_iff.1 h
        cases heq
        decide
      · simp only [stepPC, Option.some.injEq, Prod.mk.injEq] at h
        obtain ⟨-, rfl⟩ := h
        split <;> decide
      · cases h
        decide
      · cases h
        decide
  | writer =>
      simp only [leaving, List.mem_cons, List.not_mem_nil, or_false] at hpc
      rcases hpc with rfl | rfl
      · cases h
        decide
      · cases h
        decide

/-- The first step out of a section. -/
theorem inside_step {role : Role} {f f' : File} {pc' : PC}
    (h : stepPC role f (inside role) = some (f', pc')) :
    pc' ∈ leaving role ∧ atRest pc' = false := by
  cases role with
  | reader | writer =>
      cases h
      decide

section Rules

variable {T : Task κ} {j : κ} {name : Text} {entry : ℕ} {pc : PC}
  {served : List (FileCommand × Text)} {pending : List FileCommand} {p : Desk → Prop}
  {q : Option Text → Option Text → Prop} {s : Handlers κ × Journal κ} {α : Type}
  {Q : α → Handlers κ × Journal κ → Prop}

/-- A call on files. What it is answered depends on the host of the handler, and in a section on
    the file. -/
theorem behaves_call (c : Call) (hc : ∀ op entry, c ≠ .lock op entry) (p' : Reply c → Desk → Prop)
    (q' : Reply c → Option Text → Option Text → Prop) (h : Owns T j name pc served pending p q s)
    (hentry : T.entry name = some entry)
    (hcall : ∀ v : Host, v.Calm → Sync.getFile v.sd name = some entry →
      p v.desk → ∀ stored,
      (inSection pc = true → q (v.files (.file name)) stored) →
      ∃ r v', v.answer c = some (r, v') ∧ v'.sd = v.sd ∧
        (v'.files = v.files ∨
          pc = .writing ∧ ∃ content, v'.files = update v.files (.file name) content) ∧
        p' r v'.desk ∧
        (inSection pc = true → q' r (v'.files (.file name)) stored))
    {f : Reply c → Handler α}
    (hrest : ∀ r s, Owns T j name pc served pending (p' r) (q' r) s →
      Behaves (reliance T) Handlers.answer j (f r) Q s) :
    Behaves (reliance T) Handlers.answer j (Prog.perform c >>= f) Q s := by
  refine behaves_bind (Behaves.mono (behaves_answered
    (Q := fun r => Owns T j name pc served pending (p' r) (q' r)) h owns_stable
    fun w g hwg => ?_) hrest)
  have hcalm : (w.view j).Calm := hwg.coherent.calm j
  obtain ⟨r, v', hanswer, hsd, hfiles, hp, hq⟩ := hcall (w.view j) hcalm
    ((hwg.coherent.table name).trans hentry) hwg.own (g.files (.file name)) hwg.content
  have hcalm' : v'.Calm := by
    unfold Host.Calm
    rw [Host.answer_fate hanswer]
    exact hcalm
  obtain ⟨hmoves, howns⟩ := hwg.call (fun _ => hentry) hsd hcalm' hfiles hp hq
  refine ⟨r, w.putBack j v', g, ?_, hmoves, howns, owns_stable⟩
  rw [Handlers.answer_of_ne_lock hc, hanswer]
  rfl

/-- A handler that cannot take its statement waits there. -/
theorem Owns.waits {w : Handlers κ} {g : Journal κ}
    (h : Owns T j name pc served pending p q (w, g))
    (hentry : T.entry name = some entry) (role : Role)
    (hnone : stepPC role (w.sd.files entry) pc = none) : (reliance T).waits j (w, g) := by
  have hpc : pc ≠ .outside := by
    rintro rfl
    cases role <;> cases hnone
  refine ⟨name, entry, hentry, by rw [h.place_self]; exact hpc,
    fun name' hname => place_of_ne h.place hname, fun role' => ?_⟩
  show (stepPC role' (w.sd.files entry) (g.place j name)).map _ = none
  rw [h.place_self, stepPC_role hpc role' role, hnone]
  rfl

/-- A handler that calls a function of `sync.c`, or is in it, takes its statement or waits. -/
theorem Owns.answer_lock {w : Handlers κ} {g : Journal κ}
    (h : Owns T j name pc served pending p q (w, g)) (hentry : T.entry name = some entry)
    (op : LockOp) (hrest : atRest pc = true → pc = op.caller.1) :
    (w.answer j (.lock op entry) = none → (reliance T).waits j (w, g)) ∧
    ∀ r w', w.answer j (.lock op entry) = some (r, w') →
      ∃ file pc', stepPC op.caller.2 (w.sd.files entry) pc = some (file, pc') ∧
        r = (if atRest pc' then some () else none) ∧ w' = w.locking j entry file pc' := by
  have hat : (w.inLock j).getD op.caller.1 = pc := by
    have hinLock : w.inLock j = if atRest pc then none else some pc := h.inLock
    rw [hinLock]
    cases hpc : atRest pc with
    | true => exact (hrest hpc).symm
    | false => rfl
  constructor
  · intro hnone
    have hstep := Option.map_eq_none_iff.1 hnone
    rw [hat] at hstep
    exact h.waits hentry _ hstep
  · intro r w' hanswer
    have hstep := Handlers.answer_lock.1 hanswer
    rwa [hat] at hstep

theorem behaves_enter (role : Role) (h : Owns T j name .outside served pending p q s)
    (hentry : T.entry name = some entry) {f : Unit → Handler α}
    (hrest : ∀ s,
      Owns T j name (inside role) served pending p (fun content stored => content = stored) s →
      Behaves (reliance T) Handlers.answer j (f ()) Q s) :
    Behaves (reliance T) Handlers.answer j (Handler.lock (enter role) entry >>= f) Q s := by
  let P : Handlers κ × Journal κ → Prop := fun s =>
    ∃ pc ∈ entering role, (atRest pc = true → pc = .outside) ∧
      Owns T j name pc served pending p (fun _ _ => True) s
  have hstart : P s := by
    exact ⟨.outside, by cases role <;> decide, fun _ => rfl, h.forget⟩
  have hstable : (reliance T).Stable j P := by
    rintro s s' ⟨pc, hpc, hrest, hs⟩ hcommon hkeeps
    exact ⟨pc, hpc, hrest, owns_stable s s' hs hcommon hkeeps⟩
  refine behaves_bind (Behaves.mono (behaves_perform (c := Call.lock (enter role) entry)
    (Q := fun _ =>
      Owns T j name (inside role) served pending p fun content stored => content = stored)
    hstart hstable ?_) fun _ s hs => hrest s hs)
  have hcaller : (enter role).caller = (.outside, role) := by cases role <;> rfl
  rintro w g ⟨pc, hpc, hatRest, hs⟩
  obtain ⟨hwaits, hstep⟩ := hs.answer_lock hentry (enter role) (by rwa [hcaller])
  refine ⟨hwaits, fun r w' hanswer => ?_⟩
  obtain ⟨file, pc', hstep, rfl, rfl⟩ := hstep r w' hanswer
  rw [hcaller] at hstep
  obtain ⟨hwriting, hnext⟩ := entering_step hpc hstep
  obtain ⟨g', hmoves, howns⟩ := hs.lockStep hentry hstep hwriting
  refine ⟨g', hmoves, ?_⟩
  rcases hnext with ⟨hmem, hrest'⟩ | rfl
  · rw [hrest']
    exact ⟨pc', hmem, fun h => absurd (hrest'.symm.trans h) Bool.false_ne_true, howns.forget⟩
  · cases role with
    | reader | writer => exact ⟨howns, owns_stable⟩

theorem behaves_exit (role : Role) (c : FileCommand) (answer : Text)
    (h : Owns T j name (inside role) served [c] p q s) (hentry : T.entry name = some entry)
    (hserve : ∀ files content, q content (files (.file name)) →
      fileStore.serve files c = some (update files (.file name) content, answer))
    (hreader : ∀ content stored, role = .reader → q content stored → content = stored)
    {f : Unit → Handler α}
    (hrest : ∀ s, Owns T j name .outside (served ++ [(c, answer)]) [] p (fun _ _ => True) s →
      Behaves (reliance T) Handlers.answer j (f ()) Q s) :
    Behaves (reliance T) Handlers.answer j (Handler.lock (exit role) entry >>= f) Q s := by
  let P : Handlers κ × Journal κ → Prop := fun s =>
    Owns T j name (inside role) served [c] p q s ∨
      ∃ pc ∈ leaving role, atRest pc = false ∧
        Owns T j name pc (served ++ [(c, answer)]) [] p (fun _ _ => True) s
  have hstable : (reliance T).Stable j P := by
    rintro s s' (hs | ⟨pc, hpc, hrest, hs⟩) hcommon hkeeps
    · exact .inl (owns_stable s s' hs hcommon hkeeps)
    · exact .inr ⟨pc, hpc, hrest, owns_stable s s' hs hcommon hkeeps⟩
  have hcaller : (exit role).caller = (inside role, role) := by cases role <;> rfl
  refine behaves_bind (Behaves.mono (behaves_perform (c := Call.lock (exit role) entry)
    (Q := fun _ => Owns T j name .outside (served ++ [(c, answer)]) [] p fun _ _ => True)
    (.inl h : P s) hstable ?_) fun _ s hs => hrest s hs)
  rintro w g (hs | ⟨pc, hpc, hatRest, hs⟩)
  · -- the section is left
    obtain ⟨hwaits, hstep⟩ := hs.answer_lock hentry (exit role) fun _ => by rw [hcaller]
    refine ⟨hwaits, fun r w' hanswer => ?_⟩
    obtain ⟨file, pc', hstep, rfl, rfl⟩ := hstep r w' hanswer
    rw [hcaller] at hstep
    obtain ⟨hmem, hrest'⟩ := inside_step hstep
    have hsection : inSection (inside role) = true := by cases role <;> rfl
    have hpc' : inSection pc' = false := by
      cases pc' with
      | reading | writing => cases hrest'
      | _ => rfl
    have hfiles := hs.content hsection
    have hread : inside role = .reading → w.files (.file name) = g.files (.file name) := by
      intro hreading
      refine hreader _ _ ?_ hfiles
      cases role with
      | reader => rfl
      | writer => cases hreading
    obtain ⟨g', hmoves, howns⟩ := hs.leave hentry hstep hsection hread hpc'
      (hserve g.files (w.files (.file name)) hfiles)
    refine ⟨g', hmoves, ?_⟩
    rw [hrest']
    exact .inr ⟨pc', hmem, hrest', howns⟩
  · -- it has been left
    obtain ⟨hwaits, hstep⟩ := hs.answer_lock hentry (exit role)
      fun h => absurd (hatRest.symm.trans h) Bool.false_ne_true
    refine ⟨hwaits, fun r w' hanswer => ?_⟩
    obtain ⟨file, pc', hstep, rfl, rfl⟩ := hstep r w' hanswer
    rw [hcaller] at hstep
    obtain ⟨hwriting, hnext⟩ := leaving_step hpc hstep
    obtain ⟨g', hmoves, howns⟩ := hs.lockStep hentry hstep hwriting
    refine ⟨g', hmoves, ?_⟩
    rcases hnext with ⟨hmem, hrest'⟩ | rfl
    · rw [hrest']
      exact .inr ⟨pc', hmem, hrest', howns.forget⟩
    · exact ⟨howns.forget, owns_stable⟩

/-! ## The calls of the commands -/

/-- What has been sent, and descriptors that are open. -/
def Has (fds : List (ℕ × Opened)) (sent : Text) (desk : Desk) : Prop :=
  desk.sent = sent ∧ ∀ x ∈ fds, x.1 < desk.nextFd ∧ desk.opened x.1 = some x.2

variable {fds : List (ℕ × Opened)} {sent : Text}

theorem Has.opening {v : Host} (h : Has fds sent v.desk) (file : Opened) :
    Has ((v.nextFd, file) :: fds) sent (v.opening file).desk := by
  refine ⟨h.1, List.forall_mem_cons.2 ⟨⟨Nat.lt_succ_self _, update_self _ _ _⟩, fun x hx => ?_⟩⟩
  obtain ⟨hlt, hopened⟩ := h.2 x hx
  exact ⟨Nat.lt_succ_of_lt hlt, (update_of_ne (Nat.ne_of_lt hlt) _ _).trans hopened⟩

theorem Has.opened {v : Host} (h : Has fds sent v.desk) {fd : ℕ} {file : Opened}
    (hfd : (fd, file) ∈ fds) : v.opened fd = some file :=
  (h.2 _ hfd).2

theorem behaves_fileEntry (h : Owns T j name pc served pending (Has fds sent) q s)
    (hentry : T.entry name = some entry) {f : ℕ → Handler α}
    (hrest : ∀ s, Owns T j name pc served pending (Has fds sent) q s →
      Behaves (reliance T) Handlers.answer j (f entry) Q s) :
    Behaves (reliance T) Handlers.answer j (fileEntry name >>= f) Q s := by
  refine behaves_bind ?_
  refine behaves_call (.getFile name) (by rintro op entry ⟨⟩)
    (fun r desk => r = some entry ∧ Has fds sent desk) (fun _ => q) h hentry ?_ ?_
  · intro v _ hfound hp stored hq
    exact ⟨some entry, v, congrArg (fun r => some (r, v)) hfound, rfl, .inl rfl, ⟨rfl, hp⟩, hq⟩
  · intro r s hs
    obtain ⟨rfl, hp⟩ := hs.own
    have howns := hs.mono (fun _ h => h.2) fun _ _ h => h
    exact ⟨_, howns, owns_stable, hrest⟩

theorem behaves_openClient (h : Owns T j name pc served pending (Has fds sent) q s)
    (hentry : T.entry name = some entry) {mode : WriteMode} {opened : List ℕ} {f : ℕ → Handler α}
    (hrest : ∀ fd s, Owns T j name pc served pending (Has ((fd, .fifo) :: fds) sent) q s →
      Behaves (reliance T) Handlers.answer j (f fd) Q s) :
    Behaves (reliance T) Handlers.answer j (openClient mode opened >>= f) Q s := by
  refine behaves_bind ?_
  refine behaves_call (.openWrite .clientFifo mode) (by rintro op entry ⟨⟩)
    (fun r desk => ∃ fd, r = some fd ∧ Has ((fd, .fifo) :: fds) sent desk) (fun _ => q) h hentry
    ?_ ?_
  · intro v hcalm _ hp stored hq
    exact ⟨_, _, Host.answer_openFifo hcalm, rfl, .inl rfl, ⟨_, rfl, hp.opening _⟩, hq⟩
  · intro r s hs
    obtain ⟨fd, rfl, hp⟩ := hs.own
    exact ⟨_, hs.desk hp, owns_stable, hrest fd⟩

theorem behaves_sendBytes (h : Owns T j name pc served pending (Has fds sent) q s)
    (hentry : T.entry name = some entry) {fd : ℕ} (hfd : (fd, .fifo) ∈ fds) (bytes : Text)
    {opened : List ℕ} {unlinks : Bool} {f : Unit → Handler α}
    (hrest : ∀ s, Owns T j name pc served pending (Has fds (sent ++ bytes)) q s →
      Behaves (reliance T) Handlers.answer j (f ()) Q s) :
    Behaves (reliance T) Handlers.answer j (sendBytes fd bytes opened unlinks >>= f) Q s := by
  refine behaves_bind ?_
  refine behaves_call (.write fd bytes) (by rintro op entry ⟨⟩)
    (fun r desk => r = (bytes.length : ℤ) ∧ Has fds (sent ++ bytes) desk) (fun _ => q) h hentry
    ?_ ?_
  · intro v hcalm _ hp stored hq
    refine ⟨_, _, Host.answer_write_fifo hcalm (hp.opened hfd), rfl, .inl rfl, ⟨rfl, ?_, hp.2⟩, hq⟩
    show (v.responses ++ [bytes]).flatten = sent ++ bytes
    rw [List.flatten_append, List.flatten_singleton]
    exact congrArg (· ++ bytes) hp.1
  · intro r s hs
    obtain ⟨rfl, hp⟩ := hs.own
    have howns := hs.mono (fun _ h => h.2) fun _ _ h => h
    have hn : ((bytes.length : ℕ) : ℤ) ≠ -1 := by omega
    rw [if_neg hn]
    exact ⟨_, howns, owns_stable, hrest⟩

/-- What is closed is not used again. -/
theorem behaves_close (h : Owns T j name pc served pending (Has fds sent) q s)
    (hentry : T.entry name = some entry) (fd : ℕ) {f : Unit → Handler α}
    (hrest : ∀ s, Owns T j name pc served pending (Has [] sent) q s →
      Behaves (reliance T) Handlers.answer j (f ()) Q s) :
    Behaves (reliance T) Handlers.answer j (Handler.close fd >>= f) Q s := by
  refine behaves_call (.close fd) (by rintro op entry ⟨⟩) (fun _ => Has [] sent) (fun _ => q) h
    hentry ?_ fun _ s hs => hrest s hs
  intro v _ _ hp stored hq
  exact ⟨(), _, Host.answer_close, rfl, .inl rfl, ⟨hp.1, nofun⟩, hq⟩

theorem behaves_respond (h : Owns T j name pc served pending (Has fds sent) q s)
    (hentry : T.entry name = some entry) (response : String) {unlinks : Bool} {f : Unit → Handler α}
    (hrest : ∀ s, Owns T j name pc served pending (Has [] (sent ++ reply response)) q s →
      Behaves (reliance T) Handlers.answer j (f ()) Q s) :
    Behaves (reliance T) Handlers.answer j (respond response unlinks >>= f) Q s := by
  refine behaves_bind ?_
  refine behaves_openClient h hentry fun fd s hs => ?_
  refine behaves_sendBytes hs hentry List.mem_cons_self _ fun s hs => ?_
  show Behaves _ _ _ (Handler.close fd >>= fun r => pure r) _ s
  exact behaves_close hs hentry fd fun s hs => ⟨_, hs, owns_stable, hrest⟩

/-- The content of the file in a section, which the handler knows from now on. -/
theorem Owns.known
    (h : Owns T j name pc served pending p (fun content stored => content = stored) s) :
    ∃ content, Owns T j name pc served pending p
      (fun now stored => now = content ∧ stored = content) s :=
  ⟨s.2.files (.file name), h.coherent, h.place, h.inLock, h.commands, h.served, h.own,
    fun hpc => ⟨h.content hpc, rfl⟩⟩

/-- Bytes that a writer appends. -/
theorem behaves_write {text bytes : Text} {content : Option Text} {fd : ℕ}
    (h : Owns T j name .writing served pending (Has fds sent)
      (fun now stored => now = some text ∧ stored = content) s)
    (hentry : T.entry name = some entry) (hfd : (fd, .file (.file name) none) ∈ fds)
    {f : ℤ → Handler α}
    (hrest : ∀ s, Owns T j name .writing served pending (Has fds sent)
        (fun now stored => now = some (text ++ bytes) ∧ stored = content) s →
      Behaves (reliance T) Handlers.answer j (f bytes.length) Q s) :
    Behaves (reliance T) Handlers.answer j (Handler.write fd bytes >>= f) Q s := by
  refine behaves_call (.write fd bytes) (by rintro op entry ⟨⟩)
    (fun r desk => r = (bytes.length : ℤ) ∧ Has fds sent desk)
    (fun _ now stored => now = some (text ++ bytes) ∧ stored = content) h hentry ?_ ?_
  · intro v hcalm _ hp stored hq
    obtain ⟨hnow, hstored⟩ := hq rfl
    refine ⟨_, _, Host.answer_write_end hcalm (hp.opened hfd), rfl, .inr ⟨rfl, _, rfl⟩,
      ⟨rfl, hp⟩, fun _ => ⟨?_, hstored⟩⟩
    rw [Host.appended_files, update_self, hnow]
    rfl
  · intro r s hs
    obtain ⟨rfl, -⟩ := hs.own
    exact hrest s (hs.mono (fun _ h => h.2) fun _ _ h => h)

theorem serve_append {c : TextCommand} {hline : '\n' ∉ c.text}
    {hfile : DirectoryName c.fileName} (hnumber : c.number = none)
    {files : Path → Option Text} :
    fileStore.serve files (.write c hline hfile)
      = some (update files (.file c.fileName)
          (some ((files (.file c.fileName)).getD [] ++ appendedLine c.text ++ ['\n'])),
        reply "Succesfully written into the file.\n") := by
  simp only [fileStore, writeAnswer, hnumber, Option.map_some, putFile]

/-- `writeT` without a line number is served when it leaves its section. -/
theorem behaves_appendString {c : TextCommand} {hline : '\n' ∉ c.text}
    {hfile : DirectoryName c.fileName} (hnumber : c.number = none)
    (h : Owns T j c.fileName .outside served [.write c hline hfile] (Has fds sent) q s)
    (hentry : T.entry c.fileName = some entry) :
    Behaves (reliance T) Handlers.answer j
      (appendString c.fileName entry (appendedLine c.text)) (fun _ =>
        Owns T j c.fileName .outside
          (served ++ [(.write c hline hfile, reply "Succesfully written into the file.\n")]) []
          (Has [] (sent ++ reply "Succesfully written into the file.\n")) fun _ _ => True) s := by
  have hn (bytes : Text) : ((bytes.length : ℕ) : ℤ) ≠ -1 := by omega
  unfold appendString
  refine behaves_enter .writer h hentry fun s hs => ?_
  obtain ⟨content, hs⟩ := hs.known
  refine behaves_call (.openWrite (.file c.fileName) .appendCreate) (by rintro op entry ⟨⟩)
    (fun r desk => ∃ fd, r = some fd ∧
      Has ((fd, .file (.file c.fileName) none) :: fds) sent desk)
    (fun _ now stored => now = some (content.getD []) ∧ stored = content) hs hentry ?_ ?_
  · intro v hcalm _ hp stored hq
    obtain ⟨hnow, hstored⟩ := hq rfl
    have hcontent : WriteMode.appendCreate.onOpen (v.files (.file c.fileName))
        = some (content.getD []) := by
      rw [hnow]
      rfl
    exact ⟨_, _, Host.answer_openWrite hcalm hcontent, rfl, .inr ⟨rfl, _, rfl⟩,
      ⟨_, rfl, hp.opening _⟩, fun _ => ⟨update_self _ _ _, hstored⟩⟩
  · intro r s hs
    obtain ⟨fd, rfl, hp⟩ := hs.own
    refine behaves_write (hs.desk hp) hentry List.mem_cons_self fun s hs => ?_
    rw [if_neg (hn _)]
    refine behaves_write hs hentry List.mem_cons_self fun s hs => ?_
    rw [if_neg (hn _)]
    refine behaves_close hs hentry fd fun s hs => ?_
    refine behaves_exit .writer (.write c hline hfile)
      (reply "Succesfully written into the file.\n") hs hentry ?_ nofun fun s hs => ?_
    · rintro files content' ⟨rfl, rfl⟩
      exact serve_append hnumber
    · refine behaves_openClient hs hentry fun fd s hs => ?_
      refine behaves_sendBytes hs hentry List.mem_cons_self _ fun s hs => ?_
      show Behaves _ _ _ (Handler.close fd >>= fun r => pure r) _ s
      exact behaves_close hs hentry fd fun s hs => behaves_ret owns_stable hs

/-! ## The handlers -/

theorem behaves_sendChunks {fileFd clientFd : ℕ}
    (h : Owns T j name pc served pending (Has fds sent) q s) (hentry : T.entry name = some entry)
    (hfd : (clientFd, .fifo) ∈ fds) (chunks : List Text)
    {Q : Unit → Handlers κ × Journal κ → Prop}
    (hrest : ∀ s, Owns T j name pc served pending (Has fds (sent ++ chunks.flatten)) q s → Q () s) :
    Behaves (reliance T) Handlers.answer j (sendChunks fileFd clientFd chunks) Q s := by
  induction chunks generalizing sent s with
  | nil =>
      rw [List.flatten_nil, List.append_nil] at hrest
      exact ⟨_, h, owns_stable, hrest⟩
  | cons chunk rest ih =>
      refine behaves_sendBytes h hentry hfd chunk fun s hs => ih hs fun s hs => hrest s ?_
      rwa [List.flatten_cons, ← List.append_assoc]

theorem behaves_readWhole {fileFd clientFd : ℕ} {content : Text} {c : FileCommand}
    (h : Owns T j name .reading served [c] (Has fds sent)
      (fun now stored => now = some content ∧ stored = some content) s)
    (hentry : T.entry name = some entry) (hfile : (fileFd, .file (.file name) (some 0)) ∈ fds)
    (hclient : (clientFd, .fifo) ∈ fds)
    (hserve : ∀ files, files (.file name) = some content →
      fileStore.serve files c = some (files, content)) :
    Behaves (reliance T) Handlers.answer j (readWhole fileFd clientFd entry) (fun _ =>
      Owns T j name .outside (served ++ [(c, content)]) [] (Has [] (sent ++ content))
        fun _ _ => True) s := by
  unfold readWhole
  refine behaves_call (.reads fileFd 4096) (by rintro op entry ⟨⟩)
    (fun (result : Reads 4096) desk =>
      (result.chunks.flatten = content ∧ result.failed = false) ∧ Has fds sent desk)
    (fun _ now stored => now = some content ∧ stored = some content) h hentry ?_ ?_
  · intro v hcalm _ hp stored hq
    obtain ⟨hnow, -⟩ := hq rfl
    obtain ⟨result, hflat, hfailed, hreads⟩ := Host.answer_reads hcalm (by decide : 0 < 4096)
      (hp.opened hfile) hnow
    exact ⟨result, _, hreads, rfl, .inl rfl, ⟨⟨hflat, hfailed⟩, hp⟩, hq⟩
  · intro (result : Reads 4096) s hs
    obtain ⟨⟨hflat, hfailed⟩, -⟩ := hs.own
    have howns := hs.mono (fun _ h => h.2) fun _ _ h => h
    refine behaves_bind (behaves_sendChunks howns hentry hclient result.chunks fun s hs => ?_)
    rw [hflat] at hs
    rw [hfailed, if_neg Bool.false_ne_true]
    refine behaves_close hs hentry fileFd fun s hs => ?_
    refine behaves_close hs hentry clientFd fun s hs => ?_
    show Behaves _ _ _ (Handler.lock .readerExit entry >>= fun r => pure r) _ s
    refine behaves_exit .reader c content hs hentry ?_ ?_ fun s hs => behaves_ret owns_stable hs
    · rintro files _ ⟨rfl, hstored⟩
      rw [← hstored, update_eq_self]
      exact hserve files hstored
    · rintro now stored - ⟨rfl, rfl⟩
      rfl

theorem serve_read {file : FileName} {files : Path → Option Text} {answer : Text}
    (hread : readAnswer none (files (.file file.text)) = some answer) :
    fileStore.serve files (.read file none) = some (files, answer) := by
  show (readAnswer none (files (.file file.text))).map _ = _
  rw [hread]
  rfl

/-- `readF` without a line number. -/
theorem behaves_readF {file : FileName} (locals : Locals)
    (h : Owns T j file.text .outside served [.read file none] (Has fds sent) q s)
    (hentry : T.entry file.text = some entry) :
    Behaves (reliance T) Handlers.answer j
      (readF (FileCommand.read file none).arguments locals) (fun _ s => ∃ answer,
        Owns T j file.text .outside (served ++ [(.read file none, answer)]) []
          (Has [] (sent ++ answer)) (fun _ _ => True) s) s := by
  unfold readF
  rw [readFArgs_text file none locals]
  refine behaves_fileEntry h hentry fun s hs => ?_
  refine behaves_enter .reader hs hentry fun s hs => ?_
  obtain ⟨content, hs⟩ := hs.known
  cases content with
  | none =>
      refine behaves_call (.openRead (.file file.text)) (by rintro op entry ⟨⟩)
        (fun r desk => r = none ∧ Has fds sent desk)
        (fun _ now stored => now = none ∧ stored = none) hs hentry ?_ ?_
      · intro v hcalm _ hp stored hq
        exact ⟨_, _, Host.answer_openRead_none hcalm nofun (hq rfl).1, rfl, .inl rfl, ⟨rfl, hp⟩, hq⟩
      · intro r s hs
        obtain ⟨rfl, -⟩ := hs.own
        have howns := hs.mono (fun _ h => h.2) fun _ _ h => h
        refine behaves_respond howns hentry _ fun s hs => ?_
        show Behaves _ _ _ (Handler.lock .readerExit entry >>= fun r => pure r) _ s
        refine behaves_exit .reader (.read file none) (reply "Error opening file to read\n") hs
          hentry ?_ ?_ fun s hs => ?_
        · rintro files _ ⟨rfl, hstored⟩
          rw [← hstored, update_eq_self]
          exact serve_read (congrArg (readAnswer none) hstored)
        · rintro now stored - ⟨rfl, rfl⟩
          rfl
        · exact ⟨_, hs, owns_stable, fun s hs => ⟨_, hs⟩⟩
  | some content =>
      refine behaves_call (.openRead (.file file.text)) (by rintro op entry ⟨⟩)
        (fun r desk => ∃ fd, r = some fd ∧
          Has ((fd, .file (.file file.text) (some 0)) :: fds) sent desk)
        (fun _ now stored => now = some content ∧ stored = some content) hs hentry ?_ ?_
      · intro v hcalm _ hp stored hq
        exact ⟨_, _, Host.answer_openRead_some hcalm nofun (hq rfl).1, rfl, .inl rfl,
          ⟨_, rfl, hp.opening _⟩, hq⟩
      · intro r s hs
        obtain ⟨fd, rfl, hp⟩ := hs.own
        refine behaves_openClient (hs.desk hp) hentry fun clientFd s hs => ?_
        have hnumber : lineNumberOf ((none : Option LineNumber).map LineNumber.value) = -1 := rfl
        rw [if_neg Bool.noConfusion, if_pos hnumber]
        refine Behaves.mono (behaves_readWhole hs hentry (by simp) List.mem_cons_self
          fun files hfiles => ?_) fun _ s hs => ⟨content, hs⟩
        exact serve_read (congrArg (readAnswer none) hfiles)

theorem behaves_writeT {c : TextCommand} {hline : '\n' ∉ c.text}
    {hfile : DirectoryName c.fileName} (hnumber : c.number = none) (locals : Locals)
    (h : Owns T j c.fileName .outside served [.write c hline hfile] (Has fds sent) q s)
    (hentry : T.entry c.fileName = some entry) :
    Behaves (reliance T) Handlers.answer j
      (writeT (FileCommand.write c hline hfile).arguments locals) (fun _ s => ∃ answer,
        Owns T j c.fileName .outside (served ++ [(.write c hline hfile, answer)]) []
          (Has [] (sent ++ answer)) (fun _ _ => True) s) s := by
  have hargs : (FileCommand.write c hline hfile).arguments = (splitCommand c.command).2 := by
    rw [c.splitCommand_command]
    rfl
  rw [hargs]
  unfold writeT
  rw [c.args_append hnumber locals]
  refine behaves_fileEntry h hentry fun s hs => ?_
  rw [if_pos rfl]
  exact Behaves.mono (behaves_appendString hnumber hs hentry) fun _ s hs => ⟨_, hs⟩

/-! ## The commands -/

/-- The commands whose handlers keep the lock from their first look at the file to their last. -/
def Single : FileCommand → Prop
  | .write c _ _ => c.number = none
  | .read _ number => number = none
  | .upload _ | .download _ => False

theorem behaves_runCommand {c : FileCommand} (hsingle : Single c) (locals : Locals)
    (h : Owns T j c.fileName .outside served [c] (Has fds sent) q s)
    (hentry : T.entry c.fileName = some entry) :
    Behaves (reliance T) Handlers.answer j (runCommand c.name c.arguments locals) (fun _ s =>
      ∃ answer, Owns T j c.fileName .outside (served ++ [(c, answer)]) [] (Has [] (sent ++ answer))
        (fun _ _ => True) s) s := by
  cases c with
  | write c hline hfile => exact behaves_writeT hsingle locals h hentry
  | read file number =>
      obtain rfl : number = none := hsingle
      exact behaves_readF locals h hentry
  | upload file | download file => exact hsingle.elim

/-- Between two commands the file does not matter. -/
theorem Owns.outside (h : Owns T j name .outside served pending p q s) (name' : Text) :
    Owns T j name' .outside served pending p (fun _ _ => True) s := by
  refine ⟨h.coherent, ?_, h.inLock, h.commands, h.served, h.own, fun _ => trivial⟩
  rw [h.place]
  exact (update_eq_self name _).trans (update_eq_self name' _).symm

end Rules

/-! ## All clients -/

section Clients

variable {w : Handlers κ} {T : Task κ} {s s' : Handlers κ × Journal κ}
  {x : Crowd κ (Handlers κ) Call Reply}

/-- Handler `j` has served what it has taken up, and has sent the answers. -/
def Rests (T : Task κ) (j : κ) (s : Handlers κ × Journal κ) : Prop :=
  ∃ served name, Owns T j name .outside served [] (Has [] (served.map Prod.snd).flatten)
    (fun _ _ => True) s

theorem handlers_take (hsingle : ∀ j, ∀ c ∈ T.commands j, Single c)
    (hentered : ∀ j, ∀ c ∈ T.commands j, T.entry c.fileName ≠ none) :
    Takes (reliance T) Handlers.answer Handlers.take (Rests T) := by
  rintro j w g p w' ⟨served, name, hs⟩ htake
  obtain ⟨c, locals, rest, htodo, rfl, rfl⟩ := Handlers.take_eq_some.1 htake
  have hmem : c ∈ T.commands j := by
    rw [← hs.commands, show (w, g).1.todo j = _ from htodo]
    simp
  obtain ⟨entry, hentry⟩ := Option.ne_none_iff_exists'.1 (hentered j c hmem)
  obtain ⟨hmoves, hs⟩ := (hs.outside c.fileName).take htodo
  refine ⟨g, hmoves, Behaves.mono (behaves_runCommand (hsingle j c hmem) locals hs hentry) ?_⟩
  rintro - s ⟨answer, hs⟩
  refine ⟨_, _, hs.mono ?_ fun _ _ h => h⟩
  rintro desk ⟨hsent, hopened⟩
  refine ⟨?_, hopened⟩
  rw [hsent, List.map_append, List.flatten_append, List.map_singleton, List.flatten_singleton]

/-- Nobody has a lock, nothing has been sent, and nothing goes wrong. -/
structure Handlers.Fresh (w : Handlers κ) : Prop where
  calm : ∀ j, (w.own j).Calm
  idle : ∀ entry < w.sd.size, Idle (w.sd.files entry)
  inLock : ∀ j, w.inLock j = none
  responses : ∀ j, (w.own j).responses = []

/-- A writer has `writer_mutex`, a first reader has `reader_mutex`, and each waits for that of the
    other. -/
def Handlers.Crossed (w : Handlers κ) : Prop :=
  ∃ entry i j, (w.sd.files entry).readerMutex = 0 ∧ (w.sd.files entry).writerMutex = 0 ∧
    w.inLock i = some .writerEnterExclude ∧ w.inLock j = some .readerEnterBlock

/-- What is to be done: the files at the start, the entries, and the commands of each client. -/
def Handlers.task (w : Handlers κ) : Task κ where
  files := w.files
  entry := Sync.getFile w.sd
  commands j := (w.todo j).map Prod.fst

/-- Nothing has been served. -/
def Handlers.journal (w : Handlers κ) : Journal κ := ⟨w.files, [], fun _ _ => .outside⟩

theorem Handlers.Fresh.coherent (hw : w.Fresh) : Coherent w.task (w, w.journal) where
  serial := rfl
  order _ := ⟨[], Nat.zero_le 1, rfl⟩
  calm := hw.calm
  table _ := rfl
  locks name entry hentry := by
    obtain ⟨hcount, hreader, hwriter⟩ := hw.idle entry (getFile_eq_some hentry).1
    exact inv_init ⟨hcount, hreader, hwriter, fun _ => rfl⟩
  statements _ _ hrest := by cases hrest
  contents _ _ := rfl

/-- The handlers at the start. -/
theorem Handlers.Fresh.joint (hw : w.Fresh) :
    Joint (reliance w.task) Handlers.answer (Rests w.task) ⟨w, fun _ => pure ()⟩ w.journal := by
  intro j
  have howns : Owns w.task j [] .outside [] [] (Has [] []) (fun _ _ => True) (w, w.journal) := by
    refine ⟨hw.coherent, (update_eq_self ([] : Text) _).symm, hw.inLock j, rfl, rfl, ⟨?_, nofun⟩,
      fun _ => trivial⟩
    show (w.own j).responses.flatten = []
    rw [hw.responses j]
    rfl
  exact ⟨_, howns, owns_stable, fun s hs => ⟨_, _, hs⟩⟩

theorem coherent_of_common (h : Relation.ReflTransGen (reliance T).common s s')
    (hc : Coherent T s) : Coherent T s' := by
  induction h with
  | refl => exact hc
  | tail _ hstep ih => exact hstep.1 ih

theorem log_of_common (h : Relation.ReflTransGen (reliance T).common s s') :
    s.2.log <+: s'.2.log := by
  induction h with
  | refl => exact List.prefix_rfl
  | tail _ hstep ih => exact ih.trans hstep.2

/-! ## Who waits -/

/-- Where all rest or wait, those that wait have crossed. -/
theorem Coherent.crossed (hc : Coherent T s) (hall : ∀ j, Rests T j s ∨ Waits T j s) {j : κ}
    (hj : Waits T j s) : s.1.Crossed := by
  obtain ⟨name, entry, hentry, hplace, -, -⟩ := hj
  let lock : LockState κ := ⟨s.1.sd.files entry, fun i => s.2.place i name⟩
  have hlock : Inv lock := hc.locks name entry hentry
  have hstuck : ∀ i, lock.pc i ≠ .outside → Stuck lock i := by
    intro i hi
    rcases hall i with ⟨served, name', hi'⟩ | ⟨name', entry', hentry', -, hothers, hstuck⟩
    · refine absurd ?_ hi
      show s.2.place i name = .outside
      rw [hi'.place, update_eq_self]
    · have hname : name = name' := by
        by_contra hname
        exact hi (hothers name hname)
      subst hname
      obtain rfl : entry' = entry := Option.some.inj (hentry'.symm.trans hentry)
      exact hstuck
  have hcrossed : Sync.Crossed lock := by
    by_contra hno
    obtain ⟨i, hi, hmoves⟩ := progress_of_not_crossed hlock hno ⟨j, hplace⟩
    exact hmoves (hstuck i hi)
  obtain ⟨i, j, hi, hj⟩ := hcrossed
  have hi' := stuck_cases (hstuck i (by rw [hi]; decide))
  have hblock : lock.pc j = .readerEnterBlock := by
    rcases hj with hblock | ⟨hcount, -⟩
    · exact hblock
    · -- to count itself a reader need not wait
      have hj' := stuck_cases (hstuck j (by rw [hcount]; decide))
      simp [hcount] at hj'
  have hj' := stuck_cases (hstuck j (by rw [hblock]; decide))
  simp only [hi, reduceCtorEq, false_or, or_false, and_true, and_false, or_self] at hi'
  simp only [hblock, reduceCtorEq, false_or, or_false, and_true, and_false, or_self] at hj'
  have hlocked : ∀ i, atRest (lock.pc i) = false → s.1.inLock i = some (lock.pc i) := fun i =>
    hc.statements i name
  refine ⟨entry, i, j, hi', hj', ?_, ?_⟩
  · rw [hlocked i (by rw [hi]; rfl), hi]
  · rw [hlocked j (by rw [hblock]; rfl), hblock]

/-- Of a file whose `reader_mutex` is free nobody is writing. -/
theorem Coherent.unwritten (hc : Coherent T s) {name : Text} {entry : ℕ}
    (hentry : T.entry name = some entry) (hfree : (s.1.sd.files entry).readerMutex = 1) :
    s.1.files (.file name) = s.2.files (.file name) := by
  refine hc.contents _ fun name' hname' j hwriting => ?_
  cases hname'
  have hlock := hc.locks name entry hentry
  have hholds : 0 < countAt PC.holdsReaderMutex fun i => s.2.place i name :=
    countAt_pos_of (i := j) (by rw [hwriting]; rfl)
  have hmutex := hlock.mutex
  dsimp only at hmutex
  omega

/-! ## The runs -/

/-- The log is a session with the store, and leaves the content of every file of which
    `reader_mutex` is free. Each client is served its commands in their order, all but one of those
    that its handler has taken up, and all of them when it has returned; then the answers have been
    sent. -/
structure Serial (w : Handlers κ) (x : Crowd κ (Handlers κ) Call Reply)
    (log : List (κ × FileCommand × Text)) : Prop where
  session : ∃ files, fileStore.session w.files (log.map fun item => item.2.1)
      = some (files, log.map fun item => item.2.2) ∧
    (∀ name entry, Sync.getFile w.sd name = some entry →
      (x.world.sd.files entry).readerMutex = 1 →
      x.world.files (.file name) = files (.file name)) ∧
    ((∀ j, x.programs j = .ret ()) → x.world.files = files)
  order : ∀ j, ∃ pending : List FileCommand, pending.length ≤ 1 ∧
    (servedTo log j).map Prod.fst ++ pending ++ (x.world.todo j).map Prod.fst
      = (w.todo j).map Prod.fst
  answered : ∀ j, x.programs j = .ret () →
    (servedTo log j).map Prod.fst ++ (x.world.todo j).map Prod.fst = (w.todo j).map Prod.fst ∧
    (x.world.own j).responses.flatten = ((servedTo log j).map Prod.snd).flatten

/-- Where a journal stands, its log is serial. -/
theorem serial_of_joint {g : Journal κ} (hc : Coherent w.task (x.world, g))
    (h : Joint (reliance w.task) Handlers.answer (Rests w.task) x g) : Serial w x g.log := by
  refine ⟨⟨g.files, hc.serial, fun name entry => hc.unwritten, fun hall => ?_⟩, hc.order,
    fun j hj => ?_⟩
  · funext path
    refine hc.contents path fun name _ j hwriting => ?_
    obtain ⟨served, name', hj⟩ := h.returned (hall j)
    have houtside : g.place j name = .outside := by
      rw [hj.place, update_eq_self]
    rw [houtside] at hwriting
    cases hwriting
  · obtain ⟨served, name, hj⟩ := h.returned hj
    have hlog : servedTo g.log j = served := hj.served
    have hcommands := hj.commands
    rw [List.append_nil] at hcommands
    rw [hlog]
    exact ⟨hcommands, hj.own.1⟩

/-- **Clients side by side.** Any number of clients append to files and read them, and their
    handlers run in any order. What has been served so far is, at all times, one session with the
    store, and no later step changes that: what has been answered before another command is taken
    up is served before it. No run goes on for ever, and where no handler can go on, all have
    served their clients, unless a writer and a first reader have crossed in `sync.c`. -/
theorem handlers_serializable (hw : w.Fresh) (hsingle : ∀ j, ∀ c ∈ w.todo j, Single c.1)
    (hentered : ∀ j, ∀ c ∈ w.todo j, c.1.fileName ∈ w.sd.names) :
    (∀ x, (handlers w).Reachable x →
      (∃ log, Serial w x log ∧ ∀ labels x', (handlers w).exec x labels = some x' →
        ∃ log', log <+: log' ∧ Serial w x' log') ∧
      ((handlers w).Final x →
        x.world.Crossed ∨ ∀ j, x.programs j = .ret () ∧ x.world.todo j = [])) ∧
    ∀ x, (handlers w).Halts x := by
  refine ⟨fun x hx => ?_, handlers_halt w⟩
  have htakes : Takes (reliance w.task) Handlers.answer Handlers.take (Rests w.task) := by
    refine handlers_take (fun j => List.forall_mem_map.2 (hsingle j)) fun j => ?_
    refine List.forall_mem_map.2 fun c hc hnone => ?_
    exact getFile_eq_none.1 hnone (hentered j c hc)
  obtain ⟨g, hcommon, hjoint⟩ := hw.joint.reachable htakes hx
  have hcoherent := coherent_of_common hcommon hw.coherent
  refine ⟨⟨g.log, serial_of_joint hcoherent hjoint, fun labels x' hexec => ?_⟩, fun hfinal => ?_⟩
  · obtain ⟨g', hcommon', hjoint'⟩ := hjoint.exec htakes labels hexec
    exact ⟨g'.log, log_of_common hcommon',
      serial_of_joint (coherent_of_common hcommon' hcoherent) hjoint'⟩
  · have hall := hjoint.final hfinal
    by_cases hwaits : ∃ j, Waits w.task j (x.world, g)
    · obtain ⟨j, hj⟩ := hwaits
      exact .inl (hcoherent.crossed (fun i => (hall i).imp_left fun hi => hjoint.returned hi.1) hj)
    · refine .inr fun j => ?_
      rcases hall j with ⟨hreturned, htake⟩ | hj
      · refine ⟨hreturned, ?_⟩
        unfold Handlers.take at htake
        split at htake
        · next htodo => exact htodo
        · cases htake
      · exact absurd ⟨j, hj⟩ hwaits

end Clients

/-- `writeT f ab` and `readF f` side by side, on one entry and without files. -/
def writerAndReader : Handlers Bool where
  sd := ⟨1, 1, fun _ => ⟨['f'], 0, 1, 1⟩⟩
  files _ := none
  own _ := Host.fresh fun _ => none
  inLock _ := none
  todo writes :=
    cond writes [(.write singleWord singleWord_line singleWord_name, ⟨[], []⟩)]
      [(.read ⟨singleWord.fileName, singleWord_name, singleWord.fileName_space⟩ none,
        ⟨[], []⟩)]

theorem writerAndReader_fresh : writerAndReader.Fresh where
  calm _ _ := rfl
  idle _ _ := ⟨rfl, rfl, rfl⟩
  inLock _ := rfl
  responses _ := rfl

theorem handlers_serializable_two :
    (∀ x, (handlers writerAndReader).Reachable x →
      (∃ log, Serial writerAndReader x log ∧
        ∀ labels x', (handlers writerAndReader).exec x labels = some x' →
          ∃ log', log <+: log' ∧ Serial writerAndReader x' log') ∧
      ((handlers writerAndReader).Final x →
        x.world.Crossed ∨ ∀ j, x.programs j = .ret () ∧ x.world.todo j = [])) ∧
    ∀ x, (handlers writerAndReader).Halts x := by
  have hsingle : ∀ j, ∀ c ∈ writerAndReader.todo j, Single c.1 := by
    intro writes c hc
    cases writes with
    | true | false =>
        obtain rfl := List.mem_singleton.1 hc
        rfl
  have hentered : ∀ j, ∀ c ∈ writerAndReader.todo j, c.1.fileName ∈ writerAndReader.sd.names := by
    intro writes c hc
    cases writes with
    | true | false =>
        obtain rfl := List.mem_singleton.1 hc
        exact List.mem_singleton.2 rfl
  exact handlers_serializable writerAndReader_fresh hsingle hentered

end SystemProgramming.Server
