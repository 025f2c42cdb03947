import SystemProgramming.Lib.CText

set_option autoImplicit false

/-! # The lines of a text

Every line but possibly the last ends in its newline, so the lines put together are the text.
`IsLines` says so of a list of texts; the lines of a text are the only such list. `fgets` delivers
them one by one as long as they fit in its buffer. -/

namespace SystemProgramming

/-- The lines of a text behind the beginning of the first. -/
def linesFrom (line : Text) : Text → List Text
  | [] => if line = [] then [] else [line]
  | c :: s => if c = '\n' then (line ++ [c]) :: linesFrom [] s else linesFrom (line ++ [c]) s

/-- The lines of a text, each with its newline; the last may have none. -/
def lines (s : Text) : List Text := linesFrom [] s

/-- The texts are the lines of a text. -/
inductive IsLines : List Text → Prop
  | nil : IsLines []
  | last {l : Text} (hne : l ≠ []) (hl : '\n' ∉ l) : IsLines [l]
  | cons {l : Text} {ls : List Text} (hl : '\n' ∉ l) (h : IsLines ls) :
      IsLines ((l ++ ['\n']) :: ls)

theorem linesFrom_flatten (line s : Text) : (linesFrom line s).flatten = line ++ s := by
  induction s generalizing line with
  | nil =>
      rw [linesFrom]
      split <;> simp_all
  | cons c s ih =>
      rw [linesFrom]
      split
      · rw [List.flatten_cons, ih, List.append_assoc, List.nil_append, List.singleton_append]
      · rw [ih, List.append_assoc, List.singleton_append]

@[simp] theorem lines_flatten (s : Text) : (lines s).flatten = s := linesFrom_flatten [] s

theorem isLines_linesFrom (line s : Text) (hline : '\n' ∉ line) : IsLines (linesFrom line s) := by
  induction s generalizing line with
  | nil =>
      rw [linesFrom]
      split
      · exact .nil
      · exact .last ‹_› hline
  | cons c s ih =>
      rw [linesFrom]
      split
      · rename_i hc
        rw [hc]
        exact .cons hline (ih [] (by simp))
      · rename_i hc
        exact ih (line ++ [c]) (by simp [hline, Ne.symm hc])

theorem isLines_lines (s : Text) : IsLines (lines s) := isLines_linesFrom [] s (by simp)

theorem linesFrom_append {line l s : Text} (hl : '\n' ∉ l) :
    linesFrom line (l ++ s) = linesFrom (line ++ l) s := by
  induction l generalizing line with
  | nil => rw [List.nil_append, List.append_nil]
  | cons c l ih =>
      have hc : c ≠ '\n' := fun h => hl (by rw [h]; exact List.mem_cons_self)
      rw [List.cons_append, linesFrom, if_neg hc, ih fun h => hl (List.mem_cons_of_mem c h),
        List.append_assoc, List.singleton_append]

/-- A list of lines is read back from the text. -/
theorem IsLines.lines_flatten {ls : List Text} (h : IsLines ls) : lines ls.flatten = ls := by
  induction h with
  | nil => rfl
  | @last l hne hl =>
      have hread := @linesFrom_append [] l [] hl
      rw [List.append_nil, List.nil_append] at hread
      rw [List.flatten_singleton, lines, hread, linesFrom, if_neg hne]
  | @cons l ls hl _ ih =>
      rw [List.flatten_cons, lines, List.append_assoc, linesFrom_append hl, List.nil_append,
        List.singleton_append, linesFrom, if_pos rfl]
      exact congrArg _ ih

/-- Every line but possibly the last has its newline. -/
theorem length_linesFrom_le (line s : Text) : (linesFrom line s).length ≤ s.count '\n' + 1 := by
  induction s generalizing line with
  | nil =>
      rw [linesFrom]
      split <;> simp
  | cons c s ih =>
      rw [linesFrom]
      by_cases hc : c = '\n'
      · rw [if_pos hc, hc, List.length_cons, List.count_cons_self]
        exact Nat.succ_le_succ (ih [])
      · rw [if_neg hc, List.count_cons_of_ne hc]
        exact ih (line ++ [c])

/-- Replacing a line by another with its newline leaves lines. -/
theorem IsLines.set {ls : List Text} (h : IsLines ls) {s : Text} (hs : '\n' ∉ s) (k : ℕ) :
    IsLines (ls.set k (s ++ ['\n'])) := by
  induction h generalizing k with
  | nil => exact .nil
  | last hne hl =>
      cases k with
      | zero => exact .cons hs .nil
      | succ k => exact .last hne hl
  | cons hl h ih =>
      cases k with
      | zero => exact .cons hs h
      | succ k => exact .cons hl (ih k)

/-! ## Some of the lines -/

/-- The number of the line behind a character of line `n`. -/
def lineAfter (n : ℕ) (c : Char) : ℕ := if c = '\n' then n + 1 else n

theorem lineAfter_newline (n : ℕ) : lineAfter n '\n' = n + 1 := rfl

theorem lineAfter_of_ne {c : Char} (hc : c ≠ '\n') (n : ℕ) : lineAfter n c = n := if_neg hc

theorem le_lineAfter (n : ℕ) (c : Char) : n ≤ lineAfter n c := by
  unfold lineAfter
  split <;> omega

/-- The characters of the lines from number `a` to before `b`, counted from 0, of a text that begins
    in line `n`. -/
def lineWindow (a b : ℕ) : ℕ → Text → Text
  | _, [] => []
  | n, c :: s =>
      (if a ≤ n ∧ n < b then [c] else []) ++ lineWindow a b (lineAfter n c) s

/-- What is in one line is in the window or not. -/
theorem lineWindow_append {l : Text} (hl : '\n' ∉ l) (a b n : ℕ) (s : Text) :
    lineWindow a b n (l ++ s) = (if a ≤ n ∧ n < b then l else []) ++ lineWindow a b n s := by
  induction l with
  | nil =>
      rw [ite_self]
      rfl
  | cons c l ih =>
      have hc : c ≠ '\n' := fun h => hl (h ▸ List.mem_cons_self)
      rw [List.cons_append, lineWindow, lineAfter_of_ne hc,
        ih fun h => hl (List.mem_cons_of_mem c h), ← List.append_assoc]
      congr 1
      split <;> rfl

theorem lineWindow_newline (a b n : ℕ) (s : Text) :
    lineWindow a b n ('\n' :: s) =
      (if a ≤ n ∧ n < b then ['\n'] else []) ++ lineWindow a b (n + 1) s := rfl

theorem IsLines.lineWindow_flatten {ls : List Text} (h : IsLines ls) (a b n : ℕ) :
    lineWindow a b n ls.flatten = ((ls.take (b - n)).drop (a - n)).flatten := by
  induction h generalizing n with
  | nil => simp [lineWindow]
  | @last l hne hl =>
      have hline := lineWindow_append hl a b n []
      rw [List.append_nil, lineWindow, List.append_nil] at hline
      rw [List.flatten_singleton, hline]
      by_cases hb : n < b
      · rw [List.take_of_length_le (by rw [List.length_singleton]; omega)]
        by_cases ha : a ≤ n
        · rw [if_pos ⟨ha, hb⟩, Nat.sub_eq_zero_of_le ha, List.drop_zero, List.flatten_singleton]
        · rw [if_neg fun h => ha h.1, List.drop_of_length_le (by rw [List.length_singleton]; omega)]
          rfl
      · rw [if_neg fun h => hb h.2, Nat.sub_eq_zero_of_le (not_lt.1 hb), List.take_zero]
        simp
  | @cons l ls hl _ ih =>
      rw [List.flatten_cons, List.append_assoc, lineWindow_append hl, List.singleton_append,
        lineWindow_newline, ih, ← List.append_assoc]
      by_cases hb : n < b
      · obtain ⟨k, hk⟩ : ∃ k, b - n = k + 1 := ⟨b - n - 1, by omega⟩
        rw [hk, List.take_succ_cons, show b - (n + 1) = k by omega]
        by_cases ha : a ≤ n
        · rw [if_pos ⟨ha, hb⟩, if_pos ⟨ha, hb⟩, Nat.sub_eq_zero_of_le ha,
            Nat.sub_eq_zero_of_le (by omega), List.drop_zero, List.drop_zero, List.flatten_cons]
        · obtain ⟨j, hj⟩ : ∃ j, a - n = j + 1 := ⟨a - n - 1, by omega⟩
          rw [if_neg fun h => ha h.1, if_neg fun h => ha h.1, hj, List.drop_succ_cons,
            show a - (n + 1) = j by omega]
          rfl
      · rw [if_neg fun h => hb h.2, if_neg fun h => hb h.2, Nat.sub_eq_zero_of_le (not_lt.1 hb),
          show b - (n + 1) = 0 by omega]
        simp

/-- The window holds the lines of the text with these numbers. -/
theorem lineWindow_eq (a b : ℕ) (s : Text) :
    lineWindow a b 0 s = (((lines s).take b).drop a).flatten := by
  have hwindow := (isLines_lines s).lineWindow_flatten a b 0
  rwa [lines_flatten] at hwindow

/-- Behind the window there is nothing of it. -/
theorem lineWindow_of_le {a b n : ℕ} (h : b ≤ n) (s : Text) : lineWindow a b n s = [] := by
  induction s generalizing n with
  | nil => rfl
  | cons c s ih =>
      rw [lineWindow, if_neg fun hn => absurd hn.2 (not_lt.2 h), List.nil_append]
      exact ih (h.trans (le_lineAfter n c))

/-- A text that ends in front of the window has nothing of it. -/
theorem lineWindow_of_lt {a b n : ℕ} {s : Text} (h : n + s.count '\n' < a) :
    lineWindow a b n s = [] := by
  induction s generalizing n with
  | nil => rfl
  | cons c s ih =>
      rw [lineWindow, if_neg fun hn => absurd hn.1 (by omega), List.nil_append]
      by_cases hc : c = '\n'
      · rw [hc, List.count_cons_self] at h
        rw [hc, lineAfter_newline]
        exact ih (by omega)
      · rw [List.count_cons_of_ne hc] at h
        rw [lineAfter_of_ne hc]
        exact ih h

/-- `t` is the text `s` up to and including its newline number `k`, or all of it if it has fewer. -/
def IsThroughNewline (k : ℕ) (s t : Text) : Prop :=
  (s.count '\n' < k ∧ t = s) ∨
    ∃ u rest, s = u ++ '\n' :: rest ∧ u.count '\n' + 1 = k ∧ t = u ++ ['\n']

/-- Two newlines of a text with as many in front of them are the same. -/
theorem eq_of_count_eq {u u' rest rest' : Text} (h : u ++ '\n' :: rest = u' ++ '\n' :: rest')
    (hcount : u.count '\n' = u'.count '\n') : u = u' := by
  have hnil : ∀ {u w rest rest' : Text}, '\n' :: rest = w ++ '\n' :: rest' →
      (u ++ w).count '\n' = u.count '\n' → w = [] := by
    intro u w rest rest' hw hcount
    cases w with
    | nil => rfl
    | cons c w =>
        obtain rfl : '\n' = c := (List.cons.inj hw).1
        rw [List.count_append, List.count_cons_self] at hcount
        omega
  rcases List.append_eq_append_iff.1 h with ⟨w, rfl, hw⟩ | ⟨w, rfl, hw⟩
  · rw [hnil hw hcount.symm, List.append_nil]
  · rw [hnil hw hcount, List.append_nil]

theorem IsThroughNewline.unique {k : ℕ} {s t t' : Text} (h : IsThroughNewline k s t)
    (h' : IsThroughNewline k s t') : t = t' := by
  rcases h with ⟨hfew, rfl⟩ | ⟨u, rest, hs, hu, rfl⟩ <;>
    rcases h' with ⟨hfew', rfl⟩ | ⟨u', rest', hs', hu', rfl⟩
  · rfl
  · rw [hs', List.count_append, List.count_cons_self] at hfew
    omega
  · rw [hs, List.count_append, List.count_cons_self] at hfew'
    omega
  · rw [eq_of_count_eq (hs.symm.trans hs') (by omega)]

theorem IsLines.isThroughNewline {ls : List Text} (h : IsLines ls) (k : ℕ) :
    IsThroughNewline (k + 1) ls.flatten (ls.take (k + 1)).flatten := by
  induction h generalizing k with
  | nil => exact .inl ⟨Nat.succ_pos k, rfl⟩
  | @last l hne hl =>
      refine .inl ⟨?_, by rw [List.take_of_length_le (by rw [List.length_singleton]; omega)]⟩
      rw [List.flatten_singleton, List.count_eq_zero_of_not_mem hl]
      exact Nat.succ_pos k
  | @cons l ls hl _ ih =>
      have hcount : l.count '\n' = 0 := List.count_eq_zero_of_not_mem hl
      rw [List.flatten_cons, List.append_assoc, List.singleton_append, List.take_succ_cons,
        List.flatten_cons]
      cases k with
      | zero => exact .inr ⟨l, ls.flatten, rfl, by rw [hcount], List.append_nil _⟩
      | succ k =>
          rcases ih k with ⟨hfew, hall⟩ | ⟨u, rest, hls, hu, htake⟩
          · refine .inl ⟨?_, by rw [hall, List.append_assoc, List.singleton_append]⟩
            rw [List.count_append, hcount, List.count_cons_self]
            omega
          · refine .inr ⟨l ++ '\n' :: u, rest, ?_, ?_, ?_⟩
            · rw [hls, List.append_assoc, List.cons_append]
            · rw [List.count_append, hcount, List.count_cons_self]
              omega
            · rw [htake, List.append_assoc, List.append_assoc, List.singleton_append,
                List.cons_append]

/-- The first lines of a text are the text up to a newline. -/
theorem isThroughNewline_lines (k : ℕ) (s : Text) :
    IsThroughNewline (k + 1) s ((lines s).take (k + 1)).flatten := by
  have hthrough := (isLines_lines s).isThroughNewline k
  rwa [lines_flatten] at hthrough

/-! ## Replacing lines -/

/-- The text with its line `k`, counted from 0, replaced by `s` and a newline. -/
def setLine (k : ℕ) (s content : Text) : Text := ((lines content).set k (s ++ ['\n'])).flatten

theorem lines_setLine {s : Text} (hs : '\n' ∉ s) (k : ℕ) (content : Text) :
    lines (setLine k s content) = (lines content).set k (s ++ ['\n']) :=
  ((isLines_lines content).set hs k).lines_flatten

theorem setLine_comm {k k' : ℕ} (hk : k ≠ k') {s s' : Text} (hs : '\n' ∉ s) (hs' : '\n' ∉ s')
    (content : Text) :
    setLine k s (setLine k' s' content) = setLine k' s' (setLine k s content) := by
  rw [setLine, lines_setLine hs', setLine, lines_setLine hs, List.set_comm _ _ hk.symm]

/-! ## What fgets delivers -/

theorem fgetsFrom_flatten (room : ℕ) (buffer s : Text) :
    (fgetsFrom room buffer s).flatten = buffer ++ s := by
  induction s generalizing buffer with
  | nil =>
      rw [fgetsFrom]
      split <;> simp_all
  | cons c s ih =>
      rw [fgetsFrom]
      split
      · rw [List.flatten_cons, ih, List.append_assoc, List.nil_append, List.singleton_append]
      · rw [ih, List.append_assoc, List.singleton_append]

/-- Copying a text without NUL buffer by buffer. -/
theorem flatMap_cString_fgetsFrom {room : ℕ} {s : Text} (hs : nul ∉ s) :
    (fgetsFrom room [] s).flatMap cString = s := by
  have hflat : (fgetsFrom room [] s).flatten = s := fgetsFrom_flatten room [] s
  rw [flatMap_cString (by rwa [hflat]), hflat]

theorem fgetsFrom_append {room : ℕ} {buffer l : Text} {c : Char} {s : Text} (hl : '\n' ∉ l)
    (hroom : buffer.length + l.length + 1 ≤ room) :
    fgetsFrom room buffer (l ++ c :: s) = fgetsFrom room (buffer ++ l) (c :: s) := by
  induction l generalizing buffer with
  | nil => rw [List.nil_append, List.append_nil]
  | cons d l ih =>
      have hd : d ≠ '\n' := fun h => hl (by rw [h]; exact List.mem_cons_self)
      rw [List.length_cons] at hroom
      rw [List.cons_append, fgetsFrom, if_neg (by rintro (h | h) <;> [exact hd h; omega]),
        ih (fun h => hl (List.mem_cons_of_mem d h)) (by simp; omega), List.append_assoc,
        List.singleton_append]

/-- A line that fits is delivered whole. -/
theorem fgetsFrom_line {room : ℕ} {l : Text} (hl : '\n' ∉ l) (hroom : l.length + 1 ≤ room)
    (s : Text) :
    fgetsFrom room [] ((l ++ ['\n']) ++ s) = (l ++ ['\n']) :: fgetsFrom room [] s := by
  rw [List.append_assoc, List.singleton_append, fgetsFrom_append hl (by simpa using hroom),
    List.nil_append, fgetsFrom, if_pos (.inl rfl)]

/-- So is a last line without a newline. -/
theorem fgetsFrom_last {room : ℕ} {buffer l : Text} (hl : '\n' ∉ l)
    (hroom : buffer.length + l.length ≤ room) (hne : buffer ++ l ≠ []) :
    fgetsFrom room buffer l = [buffer ++ l] := by
  induction l generalizing buffer with
  | nil =>
      rw [List.append_nil] at hne ⊢
      rw [fgetsFrom, if_neg hne]
  | cons c l ih =>
      have hc : c ≠ '\n' := fun h => hl (by rw [h]; exact List.mem_cons_self)
      rw [List.length_cons] at hroom
      rw [fgetsFrom]
      by_cases hfull : buffer.length + 1 = room
      · have hnil : l = [] := List.length_eq_zero_iff.1 (by omega)
        rw [if_pos (.inr hfull), hnil]
        rfl
      · rw [if_neg (by rintro (h | h) <;> [exact hc h; exact hfull h]),
          ih (fun h => hl (List.mem_cons_of_mem c h)) (by simp; omega) (by simp),
          List.append_assoc, List.singleton_append]

/-! ## Lines that do not fit -/

/-- A newline ends what is in the buffer. -/
theorem fgetsFrom_newline (room : ℕ) (buffer t s : Text) :
    fgetsFrom room buffer (t ++ '\n' :: s)
      = fgetsFrom room buffer (t ++ ['\n']) ++ fgetsFrom room [] s := by
  induction t generalizing buffer with
  | nil =>
      rw [List.nil_append, List.nil_append, fgetsFrom, fgetsFrom, if_pos (.inl rfl),
        if_pos (.inl rfl)]
      rfl
  | cons c t ih =>
      rw [List.cons_append, List.cons_append, fgetsFrom, fgetsFrom]
      split
      · rw [ih, List.cons_append]
      · exact ih _

/-- `fgets` delivers the lines in pieces. -/
theorem IsLines.fgetsFrom_flatten {ls : List Text} (h : IsLines ls) (room : ℕ) :
    fgetsFrom room [] ls.flatten = ls.flatMap (fgetsFrom room []) := by
  induction h with
  | nil => rfl
  | last hne hl => simp
  | @cons l ls hl _ ih =>
      rw [List.flatten_cons, List.append_assoc, List.singleton_append, fgetsFrom_newline, ih,
        List.flatMap_cons]

end SystemProgramming
