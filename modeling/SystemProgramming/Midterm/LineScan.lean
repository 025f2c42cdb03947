import SystemProgramming.Lib.Lines
import SystemProgramming.Midterm.Request

set_option autoImplicit false

/-! # The search for a line

The loop with which `readF` looks for a line, without what it does once it has the line: it finds
the line, or gets to the end of the file, or stores a character outside its array. -/

namespace SystemProgramming.Server

open Handler

/-! ## The lines and the array -/

/-- The characters of a line without its newline. -/
def lineLength (line : Text) : ℕ := line.countP (· ≠ '\n')

/-- The lines that `readF` goes through fit in its array, where `k` of them come before the one that
    it looks for. That one is stored with its newline. -/
def LinesFit : ℤ → List Text → Prop
  | _, [] => True
  | k, line :: rest =>
      if k = 0 ∧ '\n' ∈ line then lineLength line ≤ 4095
      else lineLength line ≤ 4096 ∧ LinesFit (k - 1) rest

theorem lineLength_of_not_mem {line : Text} (h : '\n' ∉ line) : lineLength line = line.length := by
  refine List.countP_eq_length.2 ?_
  intro c hc
  simpa using fun hnewline : c = '\n' => h (hnewline ▸ hc)

theorem lineLength_line {line : Text} (h : '\n' ∉ line) :
    lineLength (line ++ ['\n']) = line.length := by
  rw [lineLength, List.countP_append, ← lineLength, lineLength_of_not_mem h]
  rfl

/-- What the loop holds of a line that it has not read to its end fits in the array. -/
theorem LinesFit.start {k : ℤ} {line text : Text} (h : LinesFit k (linesFrom line text))
    (hline : '\n' ∉ line) : line.length ≤ 4096 := by
  induction text generalizing line with
  | nil =>
      rw [linesFrom] at h
      by_cases hempty : line = []
      · simp [hempty]
      · rw [if_neg hempty, LinesFit, if_neg (fun h => hline h.2), lineLength_of_not_mem hline] at h
        exact h.1
  | cons c text ih =>
      rw [linesFrom] at h
      by_cases hc : c = '\n'
      · rw [if_pos hc, hc, LinesFit, lineLength_line hline] at h
        split at h
        · omega
        · exact h.1
      · rw [if_neg hc] at h
        have hlonger := ih h (by simp [hline, Ne.symm hc])
        rw [List.length_append, List.length_singleton] at hlonger
        omega

/-! ## The loop -/

/-- How the loop ends: with the line in its array, or with the number of the line that it has not
    read to its end, or outside the array. -/
inductive LineScan
  | found (line : Text)
  | passed (currentLine : ℤ)
  | overrun

/-- `lineLoop` without its calls. -/
def scanLines (lineNumber : ℤ) : ℤ → Text → Text → LineScan
  | currentLine, _, [] => .passed currentLine
  | currentLine, line, ch :: rest =>
      if ch = '\n' then
        if currentLine = lineNumber then
          if line.length < 4096 then .found (line ++ [ch]) else .overrun
        else scanLines lineNumber (currentLine + 1) [] rest
      else if line.length < 4096 then scanLines lineNumber currentLine (line ++ [ch]) rest
      else .overrun

/-- What `lineLoop` does where the search ends. -/
def afterScan (fileFd clientFd sfile : ℕ) (lineNumber : ℤ) : LineScan → Handler ℤ
  | .found line => do
      sendBytes clientFd line [fileFd, clientFd] true
      lock .readerExit sfile
      pure lineNumber
  | .passed currentLine => pure currentLine
  | .overrun => Prog.undefined

theorem lineLoop_eq (fileFd clientFd sfile : ℕ) (lineNumber currentLine : ℤ) (line text : Text) :
    lineLoop fileFd clientFd sfile lineNumber currentLine line text
      = afterScan fileFd clientFd sfile lineNumber
          (scanLines lineNumber currentLine line text) := by
  induction text generalizing currentLine line with
  | nil => rfl
  | cons c text ih =>
      rw [lineLoop, scanLines]
      by_cases hc : c = '\n'
      · rw [if_pos hc, if_pos hc]
        by_cases hnumber : currentLine = lineNumber
        · rw [if_pos hnumber, if_pos hnumber, hnumber]
          by_cases hroom : line.length < 4096
          · rw [if_pos hroom, if_pos hroom]
            rfl
          · rw [if_neg hroom, if_neg hroom]
            rfl
        · rw [if_neg hnumber, if_neg hnumber]
          exact ih (currentLine + 1) []
      · rw [if_neg hc, if_neg hc]
        by_cases hroom : line.length < 4096
        · rw [if_pos hroom, if_pos hroom]
          exact ih currentLine (line ++ [c])
        · rw [if_neg hroom, if_neg hroom]
          rfl

/-- What the end of the search says about the lines that are still to be read. -/
inductive ScanEnd (lineNumber currentLine : ℤ) (line text : Text) : LineScan → Prop
  | overrun (h : ¬ LinesFit (lineNumber - currentLine) (linesFrom line text)) :
      ScanEnd lineNumber currentLine line text .overrun
  | found {k : ℕ} {l : Text} (h : LinesFit (lineNumber - currentLine) (linesFrom line text))
      (hnumber : lineNumber = currentLine + k) (hcount : k < text.count '\n')
      (hl : (linesFrom line text)[k]? = some l) : ScanEnd lineNumber currentLine line text (.found l)
  | passed (h : LinesFit (lineNumber - currentLine) (linesFrom line text))
      (hnumber : ¬ (currentLine ≤ lineNumber ∧ lineNumber < currentLine + text.count '\n')) :
      ScanEnd lineNumber currentLine line text (.passed (currentLine + text.count '\n'))

/-- A newline before the line that is looked for. -/
theorem ScanEnd.newline {lineNumber currentLine : ℤ} {line text : Text} {scan : LineScan}
    (h : ScanEnd lineNumber (currentLine + 1) [] text scan) (hnumber : currentLine ≠ lineNumber)
    (hline : '\n' ∉ line) (hroom : line.length ≤ 4096) :
    ScanEnd lineNumber currentLine line ('\n' :: text) scan := by
  have hlines : linesFrom line ('\n' :: text) = (line ++ ['\n']) :: linesFrom [] text := rfl
  have hfit : LinesFit (lineNumber - currentLine) (linesFrom line ('\n' :: text)) ↔
      LinesFit (lineNumber - (currentLine + 1)) (linesFrom [] text) := by
    rw [hlines, LinesFit, if_neg (by omega), lineLength_line hline, ← Int.sub_sub]
    exact and_iff_right hroom
  have hcount : ('\n' :: text).count '\n' = text.count '\n' + 1 := List.count_cons_self
  cases h with
  | overrun h => exact .overrun (mt hfit.1 h)
  | @found k l h hk hlast hl =>
      refine .found (k := k + 1) (hfit.2 h) (by push_cast; omega) (by omega) ?_
      rw [hlines, List.getElem?_cons_succ]
      exact hl
  | passed h hk =>
      have hpassed : currentLine + 1 + (text.count '\n' : ℤ)
          = currentLine + (('\n' :: text).count '\n' : ℕ) := by
        rw [hcount]
        push_cast
        omega
      rw [hpassed]
      exact .passed (hfit.2 h) (by omega)

/-- A character of a line. -/
theorem ScanEnd.char {lineNumber currentLine : ℤ} {line text : Text} {scan : LineScan} {c : Char}
    (hc : c ≠ '\n') (h : ScanEnd lineNumber currentLine (line ++ [c]) text scan) :
    ScanEnd lineNumber currentLine line (c :: text) scan := by
  have hlines : linesFrom line (c :: text) = linesFrom (line ++ [c]) text := if_neg hc
  have hcount : (c :: text).count '\n' = text.count '\n' := List.count_cons_of_ne hc
  cases h with
  | overrun h => exact .overrun (hlines ▸ h)
  | found h hnumber hlast hl => exact .found (hlines ▸ h) hnumber (hcount ▸ hlast) (hlines ▸ hl)
  | passed h hnumber =>
      rw [← hcount]
      exact .passed (hlines ▸ h) (hcount ▸ hnumber)

theorem scanLines_end (lineNumber currentLine : ℤ) {line : Text} (hline : '\n' ∉ line)
    (hroom : line.length ≤ 4096) (text : Text) :
    ScanEnd lineNumber currentLine line text (scanLines lineNumber currentLine line text) := by
  induction text generalizing currentLine line with
  | nil =>
      -- a line that is only gone through may fill the array: nothing terminates it
      have hfit : LinesFit (lineNumber - currentLine) (linesFrom line []) := by
        rw [linesFrom]
        split
        · trivial
        · rw [LinesFit, if_neg (fun h => hline h.2), lineLength_of_not_mem hline]
          exact ⟨hroom, trivial⟩
      have hend := ScanEnd.passed hfit (by simp)
      rw [List.count_nil, Int.natCast_zero, Int.add_zero] at hend
      exact hend
  | cons c text ih =>
      rw [scanLines]
      by_cases hc : c = '\n'
      · rw [if_pos hc]
        subst hc
        by_cases hnumber : currentLine = lineNumber
        · rw [if_pos hnumber]
          have hlines : linesFrom line ('\n' :: text) = (line ++ ['\n']) :: linesFrom [] text := rfl
          have hfit : LinesFit (lineNumber - currentLine) (linesFrom line ('\n' :: text)) ↔
              line.length ≤ 4095 := by
            rw [hlines, LinesFit, if_pos ⟨by omega, by simp⟩, lineLength_line hline]
          by_cases hlast : line.length < 4096
          · rw [if_pos hlast]
            have hcount : 0 < ('\n' :: text).count '\n' := List.count_pos_iff.2 List.mem_cons_self
            exact .found (k := 0) (hfit.2 (by omega)) (by omega) hcount rfl
          · rw [if_neg hlast]
            exact .overrun (mt hfit.1 (by omega))
        · rw [if_neg hnumber]
          exact (ih (currentLine + 1) List.not_mem_nil (Nat.zero_le _)).newline hnumber hline hroom
      · rw [if_neg hc]
        by_cases hlast : line.length < 4096
        · rw [if_pos hlast]
          refine (ih currentLine (by simp [hline, Ne.symm hc]) ?_).char hc
          rw [List.length_append, List.length_singleton]
          omega
        · rw [if_neg hlast]
          refine .overrun fun hfit => ?_
          rw [linesFrom, if_neg hc] at hfit
          have hlonger := hfit.start (by simp [hline, Ne.symm hc])
          rw [List.length_append, List.length_singleton] at hlonger
          omega

end SystemProgramming.Server
