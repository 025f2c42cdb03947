import SystemProgramming.Lib.Monitor
import SystemProgramming.Midterm.Request

set_option autoImplicit false

/-! # The paths of the handlers

Which lock functions each handler calls on its way back to the top of the command loop, with the two
replies on which this depends: what `readF` reads one character at a time, and the `NULL` of
`tmpfile`. -/

namespace SystemProgramming.Server

open Handler Prog

/-! ## What is of interest in a path -/

/-- What matters of a call to the brackets. -/
inductive Seen
  | lock (op : LockOp) (entry : ℕ)
  /-- `tmpfile` has returned `NULL` -/
  | noTemp
  /-- what a loop reads one character at a time -/
  | chars (text : Text)

/-- What an event shows. -/
def seen (e : Event Call Reply) : List Seen :=
  match e.call, e.reply with
  | .lock op entry, _ => [.lock op entry]
  | .tmpfile, none => [.noTemp]
  | .reads _ 1, result => [.chars result.chunks.flatten]
  | _, _ => []

/-! ## The silent parts -/

/-- The calls with which a handler answers its client and cleans up. -/
def Call.isAnswer : Call → Bool
  | .openWrite .clientFifo _ | .write _ _ | .close _ | .unlink _ => true
  | _ => false

section Answers

variable {σ : Type*} {m : Monitor Call Reply σ} {s : σ}
  (hanswer : ∀ c r, c.isAnswer = true → m.step s ⟨c, r⟩ = s)

include hanswer

theorem still_close (fd : ℕ) : m.Still s (close fd) :=
  Monitor.still_perform fun r => hanswer _ r rfl

theorem still_closeAll (fds : List ℕ) : m.Still s (closeAll fds) := by
  induction fds with
  | nil => exact Monitor.still_pure
  | cons fd rest ih => exact (still_close hanswer fd).bind fun _ => ih

theorem still_openClient (mode : WriteMode) (opened : List ℕ) :
    m.Still s (openClient mode opened) := by
  refine (Monitor.still_perform fun r => hanswer _ r rfl).bind ?_
  intro fd
  cases fd with
  | none => exact (still_closeAll hanswer opened).bind fun _ => Monitor.still_exit
  | some fd => exact Monitor.still_pure

theorem still_sendBytes (fd : ℕ) (bytes : Text) (opened : List ℕ) (unlinks : Bool) :
    m.Still s (sendBytes fd bytes opened unlinks) := by
  refine (Monitor.still_perform fun r => hanswer _ r rfl).bind ?_
  intro (n : ℤ)
  by_cases hn : n = -1
  · rw [if_pos hn]
    refine (still_closeAll hanswer opened).bind ?_
    intro _
    cases unlinks with
    | true =>
        exact (Monitor.still_perform fun r => hanswer _ r rfl).bind fun _ => Monitor.still_exit
    | false => exact Monitor.still_exit
  · rw [if_neg hn]
    exact Monitor.still_pure

/-- An answer is nothing to a monitor that its calls do not concern. -/
theorem still_respond (mode : WriteMode) (response : String) (unlinks : Bool) :
    m.Still s (do
      let clientFd ← openClient mode []
      send clientFd response [clientFd] unlinks
      close clientFd) :=
  (still_openClient hanswer mode []).bind fun clientFd =>
    (still_sendBytes hanswer clientFd _ [clientFd] unlinks).bind fun _ =>
      still_close hanswer clientFd

theorem still_sendChunks (fileFd clientFd : ℕ) (chunks : List Text) :
    m.Still s (sendChunks fileFd clientFd chunks) := by
  induction chunks with
  | nil => exact Monitor.still_pure
  | cons chunk rest ih => exact (still_sendBytes hanswer _ _ _ _).bind fun _ => ih

end Answers

/-- Looking up a file, or entering it, is nothing to a monitor that its calls do not concern. -/
theorem still_entry {σ : Type*} {m : Monitor Call Reply σ} {s : σ} {name : Text}
    (hget : ∀ r, m.step s ⟨.getFile name, r⟩ = s) (hinit : ∀ r, m.step s ⟨.initFile name, r⟩ = s) :
    m.Still s (fileEntry name) := by
  refine (Monitor.still_perform hget).bind ?_
  intro found
  cases found with
  | some entry => exact Monitor.still_pure
  | none =>
      refine (Monitor.still_perform hinit).bind ?_
      intro made
      cases made with
      | some entry => exact Monitor.still_pure
      | none => exact Monitor.still_exit

section Silent

variable {ω : Type} {obs : Event Call Reply → List ω}
  (hobs : ∀ c r, c.isAnswer = true → obs ⟨c, r⟩ = [])

include hobs

theorem observer_answer (c : Call) (r : Reply c) (hc : c.isAnswer = true) :
    (observer obs).step [] ⟨c, r⟩ = [] := hobs c r hc

theorem silent_write (fd : ℕ) (bytes : Text) : Silent obs (write fd bytes) :=
  silent_perform fun r => hobs _ r rfl

theorem silent_close (fd : ℕ) : Silent obs (close fd) :=
  (still_close (observer_answer hobs) fd).silent

theorem silent_closeAll (fds : List ℕ) : Silent obs (closeAll fds) :=
  (still_closeAll (observer_answer hobs) fds).silent

theorem silent_openClient (mode : WriteMode) (opened : List ℕ) :
    Silent obs (openClient mode opened) :=
  (still_openClient (observer_answer hobs) mode opened).silent

theorem silent_sendBytes (fd : ℕ) (bytes : Text) (opened : List ℕ) (unlinks : Bool) :
    Silent obs (sendBytes fd bytes opened unlinks) :=
  (still_sendBytes (observer_answer hobs) fd bytes opened unlinks).silent

theorem silent_send (fd : ℕ) (response : String) (opened : List ℕ) (unlinks : Bool) :
    Silent obs (send fd response opened unlinks) :=
  silent_sendBytes hobs _ _ _ _

theorem silent_respond (response : String) (unlinks : Bool) :
    Silent obs (respond response unlinks) :=
  (still_respond (observer_answer hobs) .plain response unlinks).silent

theorem silent_sendChunks (fileFd clientFd : ℕ) (chunks : List Text) :
    Silent obs (sendChunks fileFd clientFd chunks) :=
  (still_sendChunks (observer_answer hobs) fileFd clientFd chunks).silent

end Silent

theorem seen_answer (c : Call) (r : Reply c) (h : c.isAnswer = true) : seen ⟨c, r⟩ = [] := by
  cases c <;> first | rfl | cases h

theorem silent_getFile (name : Text) : Silent seen (getFile name) := silent_perform fun _ => rfl

theorem silent_initFile (name : Text) : Silent seen (initFile name) := silent_perform fun _ => rfl

theorem silent_openRead (path : Path) : Silent seen (openRead path) := silent_perform fun _ => rfl

theorem silent_openWrite (path : Path) (mode : WriteMode) : Silent seen (openWrite path mode) :=
  silent_perform fun _ => rfl

theorem silent_access (path : Path) : Silent seen (access path) := silent_perform fun _ => rfl

theorem silent_readsBlocks (fd : ℕ) : Silent seen (reads fd 4096) := silent_perform fun _ => rfl

theorem silent_stream (fd : ℕ) : Silent seen (stream fd) := silent_perform fun _ => rfl

theorem silent_fputs (fd : ℕ) (bytes : Text) : Silent seen (fputs fd bytes) :=
  silent_perform fun _ => rfl

theorem silent_fileEntry (name : Text) : Silent seen (fileEntry name) := by
  refine (silent_getFile name).bind ?_
  intro found
  cases found with
  | some entry => exact silent_pure
  | none =>
      refine (silent_initFile name).bind ?_
      intro made
      cases made with
      | some entry => exact silent_pure
      | none => exact silent_exit

/-! ## The calls that are seen -/

section Lock

variable {α : Type} {op : LockOp} {entry : ℕ}

theorem shows_lock {Q : List Seen → Unit → Prop} (h : Q [.lock op entry] ()) :
    Shows seen (lock op entry) Q :=
  shows_perform.2 fun _ => h

theorem shows_lock_bind {f : Unit → Handler α} {Q : List Seen → α → Prop}
    (h : Shows seen (f ()) fun l a => Q (.lock op entry :: l) a) :
    Shows seen (lock op entry >>= f) Q :=
  shows_call.2 fun _ => h

end Lock

/-! ## upload and download -/

/-- A transfer that stops early has released the lock. -/
theorem shows_transfer (fromFd toFd sfile : ℕ) (response : String) (release : LockOp) (total : ℕ)
    (chunks : List Text) :
    Shows seen (transfer fromFd toFd sfile response release total chunks) fun l result =>
      result = none ∧ l = [.lock release sfile] ∨ (∃ n, result = some n) ∧ l = [] := by
  induction chunks generalizing total with
  | nil => exact shows_pure.2 (.inr ⟨⟨total, rfl⟩, rfl⟩)
  | cons chunk rest ih =>
      refine (silent_write seen_answer toFd chunk).shows_bind ?_
      intro n
      by_cases hn : n = chunk.length
      · rw [if_neg (not_not.2 hn)]
        exact ih (total + chunk.length)
      · rw [if_pos hn]
        refine (silent_closeAll seen_answer _).shows_bind fun _ =>
          (silent_respond seen_answer _ _).shows_bind ?_
        intro _
        exact shows_lock_bind (shows_pure.2 (.inl ⟨rfl, rfl⟩))

/-- A section of an entry that is entered and left again. -/
def pair (enter exit : LockOp) (entry : ℕ) : List Seen := [.lock enter entry, .lock exit entry]

theorem shows_upload (rest : Text) :
    Shows seen (upload rest) fun l _ =>
      l = [] ∨ ∃ entry, l = pair .readerEnter .readerExit entry := by
  unfold upload
  cases (strtok [' '] rest).1 with
  | none =>
      exact ((silent_openClient seen_answer _ _).bind fun _ =>
        silent_send seen_answer _ _ _ _).shows fun _ => .inl rfl
  | some fileName =>
      refine (silent_fileEntry fileName).shows_bind fun sfile => shows_lock_bind ?_
      refine Shows.mono (Q := fun l _ => l = [.lock .readerExit sfile]) ?_
        fun l _ h => .inr ⟨sfile, by rw [h]; rfl⟩
      refine (silent_openRead _).shows_bind ?_
      intro file
      cases file with
      | none => exact (silent_respond seen_answer _ _).shows_bind fun _ => shows_lock rfl
      | some fileToUpload =>
          refine (silent_access _).shows_bind ?_
          intro found
          cases found with
          | true =>
              exact (silent_openClient seen_answer _ _).shows_bind fun _ =>
                (silent_send seen_answer _ _ _ _).shows_bind fun _ =>
                (silent_close seen_answer _).shows_bind fun _ =>
                (silent_close seen_answer _).shows_bind fun _ => shows_lock rfl
          | false =>
              refine (silent_openWrite _ _).shows_bind ?_
              intro created
              cases created with
              | none =>
                  exact (silent_close seen_answer _).shows_bind fun _ =>
                    (silent_respond seen_answer _ _).shows_bind fun _ => shows_lock rfl
              | some serverFile =>
                  refine (silent_readsBlocks _).shows_bind fun result => shows_bind.2 ?_
                  refine (shows_transfer _ _ _ _ _ _ _).mono ?_
                  rintro l r (⟨rfl, rfl⟩ | ⟨⟨n, rfl⟩, rfl⟩)
                  · exact shows_pure.2 rfl
                  · refine (silent_close seen_answer _).shows_bind fun _ => shows_lock_bind ?_
                    exact ((silent_close seen_answer _).bind fun _ =>
                      silent_respond seen_answer _ _).shows fun _ => rfl

theorem shows_download (rest : Text) :
    Shows seen (download rest) fun l _ =>
      l = [] ∨ ∃ entry, l = pair .writerEnter .writerExit entry := by
  unfold download
  cases (strtok [' '] rest).1 with
  | none => exact (silent_respond seen_answer _ _).shows fun _ => .inl rfl
  | some fileName =>
      refine (silent_access _).shows_bind ?_
      intro onServer
      cases onServer with
      | false => exact (silent_respond seen_answer _ _).shows fun _ => .inl rfl
      | true =>
          refine (silent_openRead _).shows_bind ?_
          intro opened
          cases opened with
          | none => exact (silent_respond seen_answer _ _).shows fun _ => .inl rfl
          | some serverFile =>
              refine (silent_access _).shows_bind ?_
              intro onClient
              cases onClient with
              | true => exact (silent_respond seen_answer _ _).shows fun _ => .inl rfl
              | false =>
                  refine (silent_fileEntry fileName).shows_bind fun sfile => shows_lock_bind ?_
                  refine Shows.mono (Q := fun l _ => l = [.lock .writerExit sfile]) ?_
                    fun l _ h => .inr ⟨sfile, by rw [h]; rfl⟩
                  refine (silent_openWrite _ _).shows_bind ?_
                  intro created
                  cases created with
                  | none =>
                      exact (silent_respond seen_answer _ _).shows_bind fun _ => shows_lock rfl
                  | some newFileFd =>
                      refine (silent_readsBlocks _).shows_bind fun result => shows_bind.2 ?_
                      refine (shows_transfer _ _ _ _ _ _ _).mono ?_
                      rintro l r (⟨rfl, rfl⟩ | ⟨⟨n, rfl⟩, rfl⟩)
                      · exact shows_pure.2 rfl
                      · refine (silent_close seen_answer _).shows_bind fun _ =>
                          (silent_close seen_answer _).shows_bind fun _ => shows_lock_bind ?_
                        exact (silent_respond seen_answer _ _).shows fun _ => rfl

/-! ## readF -/

/-- The loop releases the lock when it meets the newline of the line, if it does. -/
theorem shows_lineLoop (fileFd clientFd sfile : ℕ) (lineNumber currentLine : ℤ) (line text : Text) :
    Shows seen (lineLoop fileFd clientFd sfile lineNumber currentLine line text) fun l _ =>
      l = if currentLine ≤ lineNumber ∧ lineNumber < currentLine + text.count '\n' then
        [.lock .readerExit sfile] else [] := by
  induction text generalizing currentLine line with
  | nil =>
      rw [if_neg fun h => by simp at h; omega]
      exact shows_pure.2 rfl
  | cons ch rest ih =>
      unfold lineLoop
      by_cases hch : ch = '\n'
      · rw [if_pos hch]
        subst hch
        by_cases hline : currentLine = lineNumber
        · rw [if_pos hline]
          by_cases hroom : line.length < 4096
          · rw [if_pos hroom, if_pos ⟨Int.le_of_eq hline, by simp; omega⟩]
            refine (silent_sendBytes seen_answer _ _ _ _).shows_bind fun _ => shows_lock_bind ?_
            exact shows_pure.2 rfl
          · rw [if_neg hroom]
            exact shows_undefined
        · rw [if_neg hline]
          refine (ih (currentLine + 1) []).mono ?_
          intro l _ hl
          rw [hl]
          congr 1
          simp
          omega
      · rw [if_neg hch, List.count_cons_of_ne hch]
        by_cases hroom : line.length < 4096
        · rw [if_pos hroom]
          exact ih currentLine (line ++ [ch])
        · rw [if_neg hroom]
          exact shows_undefined

/-- Whether a text has a line of this number that ends in a newline. -/
def HasLine (lineNumber : ℤ) (text : Text) : Prop :=
  1 ≤ lineNumber ∧ lineNumber ≤ text.count '\n'

instance (lineNumber : ℤ) (text : Text) : Decidable (HasLine lineNumber text) :=
  inferInstanceAs (Decidable (_ ∧ _))

theorem shows_readLine (fileFd clientFd sfile : ℕ) (lineNumber : ℤ) :
    Shows seen (readLine fileFd clientFd sfile lineNumber) fun l _ => ∃ text, l = .chars text ::
      if HasLine lineNumber text then [.lock .readerExit sfile, .lock .readerExit sfile]
      else [.lock .readerExit sfile] := by
  refine shows_bind.2 (shows_perform.2 fun result => shows_bind.2 ?_)
  refine (shows_lineLoop fileFd clientFd sfile lineNumber 1 [] result.chunks.flatten).mono ?_
  intro l currentLine hl
  have hmet : (1 ≤ lineNumber ∧ lineNumber < 1 + (result.chunks.flatten.count '\n' : ℤ)) ↔
      HasLine lineNumber result.chunks.flatten := by
    unfold HasLine
    omega
  simp only [hmet] at hl
  have hleave : Shows seen (close fileFd >>= fun _ => close clientFd >>= fun _ =>
      lock .readerExit sfile) fun l' _ => ∃ text, [.chars result.chunks.flatten] ++ (l ++ l') =
        .chars text :: if HasLine lineNumber text then
          [.lock .readerExit sfile, .lock .readerExit sfile] else [.lock .readerExit sfile] := by
    refine (silent_close seen_answer _).shows_bind fun _ =>
      (silent_close seen_answer _).shows_bind fun _ => shows_lock ?_
    refine ⟨result.chunks.flatten, ?_⟩
    rw [hl]
    split <;> rfl
  show Shows seen (if _ then _ else _) _
  split
  · exact (silent_send seen_answer _ _ _ _).shows_bind fun _ => hleave
  · exact hleave

/-- The line number that `readF` takes from its arguments. -/
def readFLine (rest : Text) (locals : Locals) : ℤ := (readFArgs rest locals).2.2

theorem shows_readWhole (fileFd clientFd sfile : ℕ) :
    Shows seen (readWhole fileFd clientFd sfile) fun l _ => l = [.lock .readerExit sfile] := by
  refine (silent_readsBlocks _).shows_bind ?_
  intro result
  refine (silent_sendChunks seen_answer _ _ _).shows_bind ?_
  intro _
  have hleave : Shows seen (close fileFd >>= fun _ => close clientFd >>= fun _ =>
      lock .readerExit sfile) fun l _ => l = [.lock .readerExit sfile] :=
    (silent_close seen_answer _).shows_bind fun _ =>
      (silent_close seen_answer _).shows_bind fun _ => shows_lock rfl
  show Shows seen (if _ then _ else _) _
  split
  · exact (silent_close seen_answer _).shows_bind fun _ =>
      (silent_respond seen_answer _ _).shows_bind fun _ => hleave
  · exact hleave

theorem shows_readF (rest : Text) (locals : Locals) :
    Shows seen (readF rest locals) fun l _ =>
      ∃ entry, l = pair .readerEnter .readerExit entry ∨
        ∃ text, l = .lock .readerEnter entry :: .chars text ::
          if HasLine (readFLine rest locals) text then
            [.lock .readerExit entry, .lock .readerExit entry]
          else [.lock .readerExit entry] := by
  unfold readF readFLine
  rcases readFArgs rest locals with ⟨valid, fileName, lineNumber⟩
  refine (silent_fileEntry fileName).shows_bind fun sfile => shows_lock_bind ?_
  refine Shows.mono (Q := fun l _ => l = [.lock .readerExit sfile] ∨
    ∃ text, l = .chars text :: if HasLine lineNumber text then
      [.lock .readerExit sfile, .lock .readerExit sfile] else [.lock .readerExit sfile]) ?_ ?_
  · refine (silent_openRead _).shows_bind ?_
    intro file
    cases file with
    | none => exact (silent_respond seen_answer _ _).shows_bind fun _ => shows_lock (.inl rfl)
    | some fileFd =>
        refine (silent_openClient seen_answer _ _).shows_bind ?_
        intro clientFd
        by_cases hvalid : valid = false
        · rw [if_pos hvalid]
          exact (silent_send seen_answer _ _ _ _).shows_bind fun _ =>
            (silent_close seen_answer _).shows_bind fun _ => shows_lock (.inl rfl)
        · rw [if_neg hvalid]
          by_cases hwhole : lineNumber = -1
          · rw [if_pos hwhole]
            exact (shows_readWhole fileFd clientFd sfile).mono fun l _ h => .inl h
          · rw [if_neg hwhole]
            exact (shows_readLine fileFd clientFd sfile _).mono fun l _ h => .inr h
  · rintro l _ (rfl | ⟨text, rfl⟩)
    · exact ⟨sfile, .inl rfl⟩
    · exact ⟨sfile, .inr ⟨text, rfl⟩⟩

/-! ## writeT -/

theorem shows_appendString (fileName : Text) (sfile : ℕ) (string : Text) :
    Shows seen (appendString fileName sfile string) fun l _ =>
      l = pair .writerEnter .writerExit sfile := by
  refine shows_lock_bind ((silent_openWrite _ _).shows_bind fun file => ?_)
  cases file with
  | none => exact (silent_respond seen_answer _ _).shows_bind fun _ => shows_lock rfl
  | some fileFd =>
      refine (silent_write seen_answer _ _).shows_bind ?_
      intro written
      split
      · exact (silent_close seen_answer _).shows_bind fun _ =>
          (silent_respond seen_answer _ _).shows_bind fun _ => shows_lock rfl
      · refine (silent_write seen_answer _ _).shows_bind ?_
        intro ended
        split
        · exact (silent_close seen_answer _).shows_bind fun _ =>
            (silent_respond seen_answer _ _).shows_bind fun _ => shows_lock rfl
        · refine (silent_close seen_answer _).shows_bind fun _ => shows_lock_bind ?_
          exact ((silent_openClient seen_answer _ _).bind fun _ =>
            (silent_send seen_answer _ _ _ _).bind fun _ =>
            silent_close seen_answer _).shows fun _ => rfl

theorem shows_writeBack (fileName : Text) (sfile tempFd : ℕ) (temp : Text) :
    Shows seen (writeBack fileName sfile tempFd temp) fun l _ =>
      l = pair .writerEnter .writerExit sfile := by
  refine shows_lock_bind ((silent_openWrite _ _).shows_bind fun file => ?_)
  cases file with
  | none =>
      exact (silent_close seen_answer _).shows_bind fun _ =>
        (silent_respond seen_answer _ _).shows_bind fun _ => shows_lock rfl
  | some fileFd =>
      refine (silent_fputs _ _).shows_bind fun _ => (silent_close seen_answer _).shows_bind fun _ =>
        shows_lock_bind ?_
      exact ((silent_close seen_answer _).bind fun _ =>
        silent_respond seen_answer _ _).shows fun _ => rfl

/-- Without a temporary file the handler keeps the lock. -/
theorem shows_replaceString (fileName : Text) (sfile : ℕ) (lineNumber : ℤ) (string : Option Text) :
    Shows seen (replaceString fileName sfile lineNumber string) fun l _ =>
      l = pair .readerEnter .readerExit sfile ∨
      l = pair .readerEnter .readerExit sfile ++ pair .writerEnter .writerExit sfile ∨
      l = [.lock .readerEnter sfile, .noTemp] := by
  refine shows_lock_bind ((silent_openRead _).shows_bind fun file => ?_)
  cases file with
  | none => exact (silent_respond seen_answer _ _).shows_bind fun _ => shows_lock (.inl rfl)
  | some fileFd =>
      refine shows_bind.2 (shows_perform.2 fun temp => ?_)
      cases temp with
      | none =>
          exact ((silent_close seen_answer _).bind fun _ =>
            silent_respond seen_answer _ _).shows fun _ => .inr (.inr rfl)
      | some tempFd =>
          refine (silent_stream _).shows_bind ?_
          intro content
          show Shows seen (if _ then _ else _) _
          split
          · exact shows_undefined
          · refine (silent_fputs _ _).shows_bind fun _ =>
              (silent_close seen_answer _).shows_bind fun _ => shows_lock_bind ?_
            split
            · refine (shows_writeBack fileName sfile tempFd _).mono ?_
              rintro l _ rfl
              exact .inr (.inl rfl)
            · exact ((silent_close seen_answer _).bind fun _ =>
                silent_respond seen_answer _ _).shows fun _ => .inl rfl

theorem shows_writeT (rest : Text) (locals : Locals) :
    Shows seen (writeT rest locals) fun l _ => l = [] ∨ ∃ entry,
      l = pair .writerEnter .writerExit entry ∨
      l = pair .readerEnter .readerExit entry ∨
      l = pair .readerEnter .readerExit entry ++ pair .writerEnter .writerExit entry ∨
      l = [.lock .readerEnter entry, .noTemp] := by
  unfold writeT
  rcases writeTArgs rest locals with _ | ⟨fileName, lineNumber, string⟩
  · exact (silent_respond seen_answer _ _).shows fun _ => .inl rfl
  · refine (silent_fileEntry fileName).shows_bind ?_
    intro sfile
    by_cases hline : lineNumber = -1
    · rw [if_pos hline]
      exact (shows_appendString fileName sfile _).mono fun l _ h => .inr ⟨sfile, .inl h⟩
    · rw [if_neg hline]
      exact (shows_replaceString fileName sfile lineNumber string).mono
        fun l _ h => .inr ⟨sfile, .inr h⟩

end SystemProgramming.Server
