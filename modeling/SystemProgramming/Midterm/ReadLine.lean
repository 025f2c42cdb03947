import SystemProgramming.Midterm.HostRuns
import SystemProgramming.Midterm.LineScan

set_option autoImplicit false

/-! # Reading a line

What `readF` with a line number sends, in a host where nothing goes wrong. -/

namespace SystemProgramming.Server

open Function Prog Sync Handler

/-- The response to `readF` of line `k`, counted from 1: the line, or an error. -/
def lineResponse (k : ℕ) (content : Text) : Text :=
  (lines content)[k - 1]?.getD
    ("Line number exceeds the number of lines in the file.\n".toList ++ [nul])

/-- A lock that can be taken can also be left, once too often. -/
theorem readerExit_of_free {f g : File} (h : (enter .reader).apply f = some g) :
    ∃ g', (exit .reader).apply f = some g' := by
  obtain ⟨m, wm, hm, -, -⟩ := readerEnter_eq_some.1 h
  show ∃ g', Sync.readerExit f = some g'
  rw [Sync.readerExit, hm]
  exact ⟨_, rfl⟩

section

variable {w : Host} {path : Path} {f : File} {fileFd clientFd entry : ℕ}

/-- The end of `readF`. -/
theorem returns_readEnd {g : File} {responses : List Text}
    (hexit : (exit .reader).apply (w.sd.files entry) = some g) (hsent : w.responses = responses) :
    Returns Host.answer
      (do
        close fileFd
        close clientFd
        lock .readerExit entry) w fun _ w' => w'.responses = responses := by
  refine returns_perform_bind Host.answer_close (returns_perform_bind Host.answer_close ?_)
  exact returns_perform (Host.answer_lock (by exact hexit)) hsent

theorem returns_readLine_iff (h : w.Calm) {g : File} {content : Text}
    (hfile : w.opened fileFd = some (.file path (some 0))) (hcontent : w.files path = some content)
    (hclient : w.opened clientFd = some .fifo)
    (hlock : (enter .reader).apply f = some g) (hentry : w.sd.files entry = g) {k : ℕ}
    (hk : 1 ≤ k) :
    Returns Host.answer (readLine fileFd clientFd entry k) w (fun _ w' =>
      w'.responses = w.responses ++ [lineResponse k content]) ↔
      k ≠ content.count '\n' + 1 ∧ LinesFit (k - 1) (lines content) := by
  have hleave : (exit .reader).apply (w.sd.files entry) = some f := by
    rw [hentry]
    exact exit_of_enter hlock
  obtain ⟨result, hflat, hreads⟩ := Host.answer_readChars h hfile hcontent
  refine (returns_perform_bind_iff hreads).trans ?_
  dsimp only
  rw [hflat, lineLoop_eq]
  have hscan := scanLines_end (k : ℤ) 1 List.not_mem_nil (Nat.zero_le _) content
  generalize scanLines (k : ℤ) 1 [] content = scan at hscan ⊢
  cases hscan with
  | overrun hfit =>
      refine iff_of_false (not_returns_of_undefined (runIn_bind_undefined rfl)) ?_
      exact fun hgood => hfit hgood.2
  | @found n l hfit hnumber hcount hl =>
      have hresponse : lineResponse k content = l := by
        rw [lineResponse, show k - 1 = n by omega, lines, hl, Option.getD_some]
      refine iff_of_true ?_ ⟨by omega, hfit⟩
      rw [hresponse]
      -- the lock is released where the line is found and again at the end, where it is free
      obtain ⟨g', hagain⟩ := readerExit_of_free hlock
      refine returns_bind (returns_bind ⟨_, _, Host.runIn_sendBytes (w := w.tick) h hclient, ?_⟩)
      refine returns_perform_bind (Host.answer_lock (by exact hleave)) (returns_pure ?_)
      show Returns _ (if _ then _ else _) _ _
      rw [if_neg (by omega)]
      refine returns_readEnd (g := g') ?_ rfl
      rw [← hagain]
      exact congrArg _ (update_self _ _ _)
  | passed hfit hnumber =>
      have hlength := length_linesFrom_le [] content
      show Returns _ (if _ then _ else _) _ _ ↔ _
      by_cases hmissing : 1 + (content.count '\n' : ℤ) < k
      · have hresponse : lineResponse k content
            = "Line number exceeds the number of lines in the file.\n".toList ++ [nul] := by
          rw [lineResponse, List.getElem?_eq_none (by show (linesFrom [] content).length ≤ _; omega),
            Option.getD_none]
        refine iff_of_true ?_ ⟨by omega, hfit⟩
        rw [hresponse, if_pos (.inl (by exact hmissing))]
        refine returns_bind ⟨_, _, Host.runIn_sendBytes (w := w.tick) h hclient, ?_⟩
        exact returns_readEnd (by exact hleave) rfl
      -- one newline less than the number: nothing at all is sent
      · refine iff_of_false ?_ (fun hgood => hgood.1 (by omega))
        rw [if_neg (by omega)]
        intro hsent
        obtain ⟨-, w', -, hone, hnone⟩ := hsent.and (returns_readEnd (by exact hleave) rfl)
        rw [hnone] at hone
        simp [Host.tick] at hone

end

/-- **Reading a line.** `readF` with the number `k` sends line `k`, or the error if there is no such
    line, exactly if the file does not hold one newline less than `k` and the lines that it goes
    through fit in its array. -/
theorem readF_line_iff {w : Host} {rest fileName content : Text} {locals : Locals} {k : ℕ}
    (hk : 1 ≤ k) (hargs : readFArgs rest locals = (true, fileName, (k : ℤ)))
    (hready : w.Ready .reader fileName) (hcontent : w.files (.file fileName) = some content) :
    Returns Host.answer (readF rest locals) w (fun _ w' =>
      w'.responses = w.responses ++ [lineResponse k content]) ↔
      k ≠ content.count '\n' + 1 ∧ LinesFit (k - 1) (lines content) := by
  obtain ⟨g, hlock⟩ := hready.enter
  have hcalm : (w.located fileName).Calm := hready.calm.located fileName
  have hcontent' : (w.located fileName).files (.file fileName) = some content := by
    rw [Host.located_files, hcontent]
  have hnumber : (k : ℤ) ≠ -1 := by omega
  unfold readF
  rw [hargs]
  dsimp only
  refine (returns_bind_iff hready.runIn_fileEntry).trans ?_
  refine (returns_perform_bind_iff (Host.answer_lock hlock)).trans ?_
  refine (returns_perform_bind_iff (Host.answer_openRead (by exact hcalm)
    (by exact hcontent'))).trans ?_
  refine (returns_bind_iff (Host.runIn_openClient (by exact hcalm))).trans ?_
  rw [if_neg (by simp), if_neg hnumber, ← w.located_responses fileName]
  refine returns_readLine_iff (by exact hcalm) ?_ (by exact hcontent') (update_self _ _ _) hlock
    (update_self _ _ _) hk
  exact (update_of_ne (Nat.ne_of_lt (Nat.lt_succ_self _)) _ _).trans (update_self _ _ _)

/-- The first line of a file of two. -/
theorem readF_line_first :
    Returns Host.answer (readF "f 1".toList ⟨[], []⟩)
      (Host.fresh (Host.oneFile ['f'] "ab\ncd".toList)) fun _ w' =>
        w'.responses = ["ab\n".toList] := by
  have hargs : readFArgs "f 1".toList ⟨[], []⟩ = (true, ['f'], ((1 : ℕ) : ℤ)) := by decide
  have hcontent := Host.fresh_oneFile ['f'] "ab\ncd".toList
  have hlines : LinesFit ((1 : ℕ) - 1) (lines "ab\ncd".toList) := by
    simp [lines, linesFrom, LinesFit, lineLength]
  exact (readF_line_iff (Nat.le_refl 1) hargs (Host.ready_fresh _ .reader ['f']) hcontent).2
    ⟨by decide, hlines⟩

/-- The only line of a file without a newline is not sent. -/
theorem readF_line_not_always :
    ¬ ∀ (w : Host) (rest fileName content : Text) (locals : Locals) (k : ℕ), 1 ≤ k →
      readFArgs rest locals = (true, fileName, (k : ℤ)) → w.Ready .reader fileName →
      w.files (.file fileName) = some content →
      Returns Host.answer (readF rest locals) w fun _ w' =>
        w'.responses = w.responses ++ [lineResponse k content] := by
  intro h
  obtain ⟨_, w', hrun, hresponses⟩ := h (Host.fresh (Host.oneFile ['f'] ['a'])) "f 1".toList ['f']
    ['a'] ⟨[], []⟩ 1 (Nat.le_refl 1) (by decide) (Host.ready_fresh _ .reader ['f'])
    (Host.fresh_oneFile _ _)
  have hsilent : (runIn Host.answer (readF "f 1".toList ⟨[], []⟩)
      (Host.fresh (Host.oneFile ['f'] ['a']))).2.responses = [] := rfl
  rw [hrun] at hsilent
  rw [hsilent] at hresponses
  cases hresponses

end SystemProgramming.Server
