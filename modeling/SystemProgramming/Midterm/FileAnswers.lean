import SystemProgramming.Midterm.Ledger
import SystemProgramming.Midterm.LineScan
import SystemProgramming.Midterm.Paths

set_option autoImplicit false

/-! # Which commands on files are answered

What keeps `readF`, `writeT`, `upload` and `download` from answering, or from closing the client
FIFO, are replies that they do not provide for: a full table, an empty file, a line that ends with
the file, a line that is too long, a line to replace and no string for it. Every path of a command
settles it: the end is good if and only if no such reply has been met. -/

namespace SystemProgramming.Server

open Prog Handler

/-! ## The replies that a command does not provide for -/

/-- `init_file` returns `NULL`: the table is full, or a semaphore cannot be made. -/
def tableFull (e : Event Call Reply) : Prop :=
  match e.call, e.reply with
  | .initFile _, none => True
  | _, _ => False

/-- `readF` without a line number reads an empty file, and sends nothing; with a line number it
    reads one newline less than the number, and sends nothing, or it reads a line that is too long.
    -/
def readFExcluded (lineNumber : ℤ) (e : Event Call Reply) : Prop :=
  match e.call, e.reply with
  | .initFile _, none => True
  | .reads _ 4096, result => result.chunks = [] ∧ result.failed = false
  | .reads _ 1, result =>
      lineNumber = result.chunks.flatten.count '\n' + 1 ∨
        ¬ LinesFit (lineNumber - 1) (lines result.chunks.flatten)
  | _, _ => False

/-- `writeT` gets no string, and the file has the line, to which `fgets` counts. -/
def writeTExcluded (args : Option WriteTArgs) (e : Event Call Reply) : Prop :=
  match e.call, e.reply with
  | .initFile _, none => True
  | .stream _, content =>
      ∃ a ∈ args, a.string = none ∧ 1 ≤ a.lineNumber ∧
        a.lineNumber ≤ (fgetsAll 4096 content).length
  | _, _ => False

/-! ## upload and download -/

theorem tableFull_input (c : Call) (r : Reply c) (hc : c.isInput = false) : ¬ tableFull ⟨c, r⟩ := by
  cases c <;> first | exact id | cases hc

theorem download_settled (rest : Text) :
    (fifoCalls.watch tableFull).wp Settled (download rest) (.empty, False) := by
  have hex := tableFull_input
  unfold download
  cases (strtok [' '] rest).1 with
  | none => exact wp_respond_settled hex _ _
  | some fileName =>
      refine wp_neutral hex rfl ?_
      intro (found : Bool)
      cases found with
      | false => exact wp_respond_settled hex _ _
      | true =>
          refine wp_neutral hex rfl ?_
          intro (file : Option ℕ)
          cases file with
          | none => exact wp_respond_settled hex _ _
          | some serverFile =>
              refine wp_neutral hex rfl ?_
              intro (found : Bool)
              cases found with
              | true => exact wp_respond_settled hex _ _
              | false =>
                  refine wp_fileEntry hex (fun _ => settled_exited) trivial (fun _ => id) ?_
                  intro sfile
                  refine wp_neutral hex rfl fun _ => wp_neutral hex rfl ?_
                  intro (file : Option ℕ)
                  cases file with
                  | none => exact wp_respond hex (wp_neutral_settled hex id)
                  | some newFileFd =>
                      refine Monitor.watch_wp_bind (fun _ => id) ?_
                      intro (result : Reads 4096) _
                      refine Monitor.wp_bind.2 (wp_transfer_answers hex rfl _ _ _ _ _ _ _ ?_ ?_)
                      · exact settled_good id
                      · intro total
                        refine wp_closeFile hex rfl (wp_closeFile hex rfl ?_)
                        exact wp_neutral hex rfl fun _ => wp_respond_settled hex _ _

theorem upload_settled (rest : Text) :
    (fifoCalls.watch tableFull).wp Settled (upload rest)
      (.empty, (strtok [' '] rest).1 = none) := by
  have hex := tableFull_input
  unfold upload
  cases (strtok [' '] rest).1 with
  | none =>
      refine wp_openClient hex fun clientFd => Monitor.wp_bind_pure.1 ?_
      refine wp_sendBytes hex List.mem_cons_self ?_
      exact iff_of_false (fun h => by cases h.2.2) (not_not.2 rfl)
  | some fileName =>
      have hflag : (some fileName = none) = False := propext (iff_of_false (by simp) id)
      rw [hflag]
      refine wp_fileEntry hex (fun _ => settled_exited) trivial (fun _ => id) ?_
      intro sfile
      refine wp_neutral hex rfl fun _ => wp_neutral hex rfl ?_
      intro (file : Option ℕ)
      cases file with
      | none => exact wp_respond hex (wp_neutral_settled hex id)
      | some fileToUpload =>
          refine wp_neutral hex rfl ?_
          intro (found : Bool)
          cases found with
          | true =>
              refine wp_openClient hex fun clientFd => wp_sendBytes hex List.mem_cons_self ?_
              refine wp_close hex ?_
              rw [List.erase_cons_head]
              exact wp_closeFile hex rfl (wp_neutral_settled hex id)
          | false =>
              refine wp_neutral hex rfl ?_
              intro (file : Option ℕ)
              cases file with
              | none => exact wp_closeFile hex rfl (wp_respond hex (wp_neutral_settled hex id))
              | some serverFile =>
                  refine Monitor.watch_wp_bind (fun _ => id) ?_
                  intro (result : Reads 4096) _
                  refine Monitor.wp_bind.2 (wp_transfer_answers hex rfl _ _ _ _ _ _ _ ?_ ?_)
                  · exact settled_good id
                  · intro total
                    refine wp_closeFile hex rfl (wp_neutral hex rfl fun _ => ?_)
                    exact wp_closeFile hex rfl (wp_respond_settled hex _ _)

/-! ## writeT -/

/-- The line is replaced if `fgets` counts to it. -/
theorem editLoop_placed (lineNumber : ℤ) (string : Text) (currentLine : ℤ) (buffers : List Text) :
    (editLoop lineNumber string currentLine buffers).2 = true ↔
      currentLine < lineNumber ∧ lineNumber ≤ currentLine + buffers.length := by
  induction buffers generalizing currentLine with
  | nil => simp [editLoop]
  | cons buffer rest ih =>
      have hrest := ih (currentLine + 1)
      rw [editLoop]
      by_cases h : lineNumber = currentLine + 1
      · simp only [h, if_true, List.length_cons]
        exact iff_of_true trivial (by push_cast; omega)
      · simp only [h, if_false, List.length_cons]
        rw [hrest]
        push_cast
        omega

theorem writeTExcluded_input (args : Option WriteTArgs) (c : Call) (r : Reply c)
    (hc : c.isInput = false) : ¬ writeTExcluded args ⟨c, r⟩ := by
  cases c <;> first | exact id | cases hc

theorem appendString_settled {ex : Event Call Reply → Prop}
    (hex : ∀ c r, c.isInput = false → ¬ ex ⟨c, r⟩) (fileName : Text) (sfile : ℕ) (string : Text) :
    (fifoCalls.watch ex).wp Settled (appendString fileName sfile string) (.empty, False) := by
  refine wp_neutral hex rfl fun _ => wp_neutral hex rfl ?_
  intro (file : Option ℕ)
  cases file with
  | none => exact wp_respond hex (wp_neutral_settled hex id)
  | some fileFd =>
      refine wp_writeFile hex rfl fun n => ?_
      by_cases hn : n = -1
      · rw [if_pos hn]
        exact wp_closeFile hex rfl (wp_respond hex (wp_neutral_settled hex id))
      · rw [if_neg hn]
        refine wp_writeFile hex rfl fun n => ?_
        by_cases hn : n = -1
        · rw [if_pos hn]
          exact wp_closeFile hex rfl (wp_respond hex (wp_neutral_settled hex id))
        · rw [if_neg hn]
          refine wp_closeFile hex rfl (wp_neutral hex rfl fun _ => wp_openClient hex fun fd => ?_)
          refine wp_sendBytes hex List.mem_cons_self (Monitor.wp_bind_pure.1 (wp_close hex ?_))
          rw [List.erase_cons_head]
          exact settled_good id

theorem writeBack_settled {ex : Event Call Reply → Prop}
    (hex : ∀ c r, c.isInput = false → ¬ ex ⟨c, r⟩) (fileName : Text) (sfile tempFd : ℕ)
    (temp : Text) :
    (fifoCalls.watch ex).wp Settled (writeBack fileName sfile tempFd temp) (.empty, False) := by
  refine wp_neutral hex rfl fun _ => wp_neutral hex rfl ?_
  intro (file : Option ℕ)
  cases file with
  | none => exact wp_closeFile hex rfl (wp_respond hex (wp_neutral_settled hex id))
  | some fileFd =>
      refine wp_neutral hex rfl fun _ => wp_closeFile hex rfl (wp_neutral hex rfl fun _ => ?_)
      exact wp_closeFile hex rfl (wp_respond_settled hex _ _)

theorem replaceString_settled (fileName : Text) (sfile : ℕ) (lineNumber : ℤ)
    (string : Option Text) :
    (fifoCalls.watch (writeTExcluded (some ⟨fileName, lineNumber, string⟩))).wp Settled
      (replaceString fileName sfile lineNumber string) (.empty, False) := by
  have hex := writeTExcluded_input (some ⟨fileName, lineNumber, string⟩)
  refine wp_neutral hex rfl fun _ => wp_neutral hex rfl ?_
  intro (file : Option ℕ)
  cases file with
  | none => exact wp_respond hex (wp_neutral_settled hex id)
  | some fileFd =>
      refine wp_neutral hex rfl ?_
      intro (temp : Option ℕ)
      cases temp with
      | none => exact wp_closeFile hex rfl (wp_respond_settled hex _ _)
      | some tempFd =>
          refine Monitor.wp_perform_bind.2 ?_
          intro (content : Text) _
          have hplaced := editLoop_placed lineNumber (string.getD []) 0 (fgetsAll 4096 content)
          rw [← editLines] at hplaced
          have hexcluded : writeTExcluded (some ⟨fileName, lineNumber, string⟩)
              ⟨.stream fileFd, content⟩ ↔
                string = none ∧ 1 ≤ lineNumber ∧ lineNumber ≤ (fgetsAll 4096 content).length := by
            simp [writeTExcluded]
          rcases hread : editLines lineNumber (string.getD []) content with ⟨temp, placed⟩
          rw [hread] at hplaced
          dsimp only
          -- the line is there and the command has no string: `fputs(NULL, …)`
          by_cases hnull : (placed && string.isNone) = true
          · rw [if_pos hnull]
            rw [Bool.and_eq_true, Option.isNone_iff_eq_none] at hnull
            have hline := hplaced.1 hnull.1
            exact settled_undefined (.inr (hexcluded.2 ⟨hnull.2, by omega, by omega⟩))
          · rw [if_neg hnull]
            have hgood : ¬ writeTExcluded (some ⟨fileName, lineNumber, string⟩)
                ⟨.stream fileFd, content⟩ := by
              intro h
              obtain ⟨hstring, hline⟩ := hexcluded.1 h
              have htrue : placed = true := hplaced.2 (by omega)
              exact hnull (by rw [htrue, hstring]; rfl)
            refine Monitor.wp_of_eq (Monitor.watch_step_of_not hgood) ?_
            refine wp_neutral hex rfl fun _ => wp_closeFile hex rfl (wp_neutral hex rfl fun _ => ?_)
            cases placed with
            | false => exact wp_closeFile hex rfl (wp_respond_settled hex _ _)
            | true => exact writeBack_settled hex _ _ _ _

theorem writeT_settled (rest : Text) (locals : Locals) :
    (fifoCalls.watch (writeTExcluded (writeTArgs rest locals))).wp Settled (writeT rest locals)
      (.empty, False) := by
  have hex := writeTExcluded_input (writeTArgs rest locals)
  unfold writeT
  cases hargs : writeTArgs rest locals with
  | none => exact wp_respond_settled (writeTExcluded_input none) _ _
  | some args =>
      rw [hargs] at hex
      obtain ⟨fileName, lineNumber, string⟩ := args
      refine wp_fileEntry hex (fun _ => settled_exited) trivial (fun _ => id) ?_
      intro sfile
      by_cases hline : lineNumber = -1
      · rw [if_pos hline]
        exact appendString_settled hex _ _ _
      · rw [if_neg hline]
        exact replaceString_settled _ _ _ _

/-! ## readF -/

theorem readFExcluded_input (lineNumber : ℤ) (c : Call) (r : Reply c) (hc : c.isInput = false) :
    ¬ readFExcluded lineNumber ⟨c, r⟩ := by
  cases c <;> first | exact id | cases hc

/-- The loop of `readF` runs out of its array, or sends the line, or gets to the end of the file and
    counts the lines. -/
inductive LineLoopEnd (lineNumber currentLine : ℤ) (line text : Text) (s : Ledger) :
    Ledger → SystemProgramming.Outcome ℤ → Prop
  | overrun (h : ¬ LinesFit (lineNumber - currentLine) (linesFrom line text)) :
      LineLoopEnd lineNumber currentLine line text s s .undefined
  | sent (h : LinesFit (lineNumber - currentLine) (linesFrom line text))
      (hline : currentLine ≤ lineNumber ∧ lineNumber < currentLine + text.count '\n') :
      LineLoopEnd lineNumber currentLine line text s { s with answered := true }
        (.returned lineNumber)
  | absent (h : LinesFit (lineNumber - currentLine) (linesFrom line text))
      (hline : ¬ (currentLine ≤ lineNumber ∧ lineNumber < currentLine + text.count '\n')) :
      LineLoopEnd lineNumber currentLine line text s s (.returned (currentLine + text.count '\n'))

theorem wp_lineLoop {ex : Event Call Reply → Prop}
    (hex : ∀ c r, c.isInput = false → ¬ ex ⟨c, r⟩) {s : Ledger} {b : Prop} {clientFd : ℕ}
    (hfd : clientFd ∈ s.fifos) (fileFd sfile : ℕ) (lineNumber currentLine : ℤ) {line : Text}
    (hline : '\n' ∉ line) (hroom : line.length ≤ 4096) (text : Text) :
    (fifoCalls.watch ex).wp
      (fun s' o => s'.2 = b ∧ LineLoopEnd lineNumber currentLine line text s s'.1 o)
      (lineLoop fileFd clientFd sfile lineNumber currentLine line text) (s, b) := by
  have hend := scanLines_end lineNumber currentLine hline hroom text
  rw [lineLoop_eq]
  generalize scanLines lineNumber currentLine line text = scan at hend ⊢
  cases hend with
  | overrun h => exact ⟨rfl, .overrun h⟩
  | found h hnumber hcount hl =>
      refine wp_sendBytes hex hfd (wp_neutral hex rfl fun _ => ⟨rfl, ?_⟩)
      exact .sent h (by omega)
  | passed h hnumber => exact ⟨rfl, .absent h hnumber⟩

section ReadF

variable {lineNumber : ℤ} {clientFd : ℕ} {b : Prop}

theorem erase_cases {fifos : List ℕ} (h : fifos = [] ∨ fifos = [clientFd]) (fd : ℕ) :
    fifos.erase fd = [] ∨ fifos.erase fd = [clientFd] := by
  rcases h with rfl | rfl
  · exact .inl rfl
  · by_cases hfd : clientFd = fd
    · simp [hfd]
    · simp [hfd]

/-- The end of `readF`. -/
theorem wp_readEnd {ex : Event Call Reply → Prop} (hex : ∀ c r, c.isInput = false → ¬ ex ⟨c, r⟩)
    {fifos : List ℕ} (hfifos : fifos = [] ∨ fifos = [clientFd]) {answered : Bool}
    (h : answered = true ↔ ¬ b) (fileFd sfile : ℕ) :
    (fifoCalls.watch ex).wp Settled
      (do
        close fileFd
        close clientFd
        lock .readerExit sfile) (⟨fifos, answered⟩, b) := by
  refine wp_close hex (wp_close hex (Monitor.wp_bind_pure.1 (wp_neutral hex rfl fun _ => ?_)))
  have hclosed : (fifos.erase fileFd).erase clientFd = [] := by
    rcases erase_cases hfifos fileFd with hfd | hfd <;> simp [hfd]
  constructor
  · intro hgood
    exact h.1 hgood.2.1
  · intro hflag
    exact ⟨rfl, h.2 hflag, hclosed⟩

theorem wp_sendChunks {ex : Event Call Reply → Prop}
    (hex : ∀ c r, c.isInput = false → ¬ ex ⟨c, r⟩) {s : Ledger} (hfd : clientFd ∈ s.fifos)
    (fileFd : ℕ) (chunks : List Text) {Q : Monitor.Post (Ledger × Prop) Unit}
    (h : Q ({ s with answered := s.answered || !chunks.isEmpty }, b) (.returned ())) :
    (fifoCalls.watch ex).wp Q (sendChunks fileFd clientFd chunks) (s, b) := by
  induction chunks generalizing s with
  | nil =>
      rw [List.isEmpty_nil, Bool.not_true, Bool.or_false] at h
      exact h
  | cons chunk rest ih =>
      refine wp_sendBytes hex hfd (ih hfd ?_)
      simpa using h

theorem readWhole_settled (fileFd sfile : ℕ) :
    (fifoCalls.watch (readFExcluded lineNumber)).wp Settled (readWhole fileFd clientFd sfile)
      (⟨[clientFd], false⟩, False) := by
  have hex := readFExcluded_input lineNumber
  refine Monitor.wp_perform_bind.2 ?_
  intro (result : Reads 4096) _
  have hexcluded : readFExcluded lineNumber ⟨.reads fileFd 4096, result⟩ ↔
      result.chunks = [] ∧ result.failed = false := Iff.rfl
  show Monitor.wp _ _ _ ((⟨[clientFd], false⟩ : Ledger), False ∨ readFExcluded lineNumber _)
  rw [hexcluded, false_or]
  refine Monitor.wp_bind.2 (wp_sendChunks hex (by simp) fileFd result.chunks ?_)
  show Monitor.wp _ _ (if _ then _ else _) _
  by_cases hfailed : result.failed = true
  · rw [if_pos hfailed]
    refine wp_close hex (wp_respond hex ?_)
    exact wp_readEnd hex (erase_cases (.inr rfl) fileFd) (by simp [hfailed]) _ _
  · rw [if_neg hfailed]
    exact wp_readEnd hex (.inr rfl) (by simp [hfailed]) _ _

theorem readLine_settled (fileFd sfile : ℕ) :
    (fifoCalls.watch (readFExcluded lineNumber)).wp Settled
      (readLine fileFd clientFd sfile lineNumber) (⟨[clientFd], false⟩, False) := by
  have hex := readFExcluded_input lineNumber
  refine Monitor.wp_perform_bind.2 ?_
  intro (result : Reads 1) _
  have hexcluded : readFExcluded lineNumber ⟨.reads fileFd 1, result⟩ ↔
      lineNumber = result.chunks.flatten.count '\n' + 1 ∨
        ¬ LinesFit (lineNumber - 1) (lines result.chunks.flatten) := Iff.rfl
  show Monitor.wp _ _ _ ((⟨[clientFd], false⟩ : Ledger), False ∨ readFExcluded lineNumber _)
  rw [hexcluded, false_or]
  refine Monitor.wp_bind_of (wp_lineLoop hex (by simp) fileFd sfile lineNumber 1 List.not_mem_nil
    (Nat.zero_le _) result.chunks.flatten) ?_ ?_ ?_
  · rintro ⟨s', flag⟩ currentLine ⟨rfl, hend⟩
    show Monitor.wp _ _ (if _ then _ else _) _
    cases hend with
    | sent hfit hline =>
        rw [if_neg (by omega)]
        exact wp_readEnd hex (.inr rfl) (iff_of_true rfl (by simp [lines, hfit]; omega)) _ _
    | absent hfit hline =>
        have hexcluded : lineNumber = result.chunks.flatten.count '\n' + 1 ∨
            ¬ LinesFit (lineNumber - 1) (lines result.chunks.flatten) ↔
            ¬ (1 + (result.chunks.flatten.count '\n' : ℤ) < lineNumber ∨ lineNumber < 1) := by
          have hlines : LinesFit (lineNumber - 1) (lines result.chunks.flatten) := hfit
          rw [or_iff_left (not_not.2 hlines)]
          omega
        rw [hexcluded]
        by_cases hmissing : 1 + (result.chunks.flatten.count '\n' : ℤ) < lineNumber ∨ lineNumber < 1
        · rw [if_pos hmissing]
          refine wp_sendBytes hex (by simp) ?_
          exact wp_readEnd hex (.inr rfl) (iff_of_true rfl (not_not.2 hmissing)) _ _
        · rw [if_neg hmissing]
          exact wp_readEnd hex (.inr rfl) (iff_of_false (by simp) (not_not.2 hmissing)) _ _
  · rintro ⟨s', flag⟩ ⟨rfl, hend⟩
    cases hend
  · rintro ⟨s', flag⟩ ⟨rfl, hend⟩
    cases hend with
    | overrun hfit => exact settled_undefined (.inr hfit)

theorem readF_settled (rest : Text) (locals : Locals) :
    (fifoCalls.watch (readFExcluded (readFLine rest locals))).wp Settled (readF rest locals)
      (.empty, False) := by
  unfold readF readFLine
  rcases readFArgs rest locals with ⟨valid, fileName, lineNumber⟩
  have hex := readFExcluded_input lineNumber
  refine wp_fileEntry hex (fun _ => settled_exited) trivial (fun _ => id) ?_
  intro sfile
  refine wp_neutral hex rfl fun _ => wp_neutral hex rfl ?_
  intro (file : Option ℕ)
  cases file with
  | none => exact wp_respond hex (wp_neutral_settled hex id)
  | some fileFd =>
      refine wp_openClient hex fun clientFd => ?_
      by_cases hvalid : valid = false
      · rw [if_pos hvalid]
        refine wp_sendBytes hex List.mem_cons_self (wp_close hex ?_)
        rw [List.erase_cons_head]
        exact wp_neutral_settled hex id
      · rw [if_neg hvalid]
        by_cases hline : lineNumber = -1
        · rw [if_pos hline]
          exact readWhole_settled fileFd sfile
        · rw [if_neg hline]
          exact readLine_settled fileFd sfile

end ReadF

end SystemProgramming.Server
