import Mathlib.Data.Int.Notation
import Mathlib.Data.List.TakeWhile

set_option autoImplicit false

/-! # Text as C sees it

Memory and file contents are lists of characters, one a byte. These are the functions of the C
library on them, with the behaviour of glibc where the standard leaves it open. -/

namespace SystemProgramming

/-- A text, character by character. -/
abbrev Text := List Char

/-- The NUL character. -/
def nul : Char := Char.ofNat 0

/-- The string at the start of a memory: everything before the first NUL. -/
def cString (memory : Text) : Text := memory.takeWhile (· ≠ nul)

theorem cString_of_not_mem {s : Text} (h : nul ∉ s) : cString s = s :=
  List.takeWhile_eq_self_iff.2 fun c hc => by
    simp only [decide_eq_true_eq]
    rintro rfl
    exact h hc

theorem nul_not_mem_cString (memory : Text) : nul ∉ cString memory := fun h => by
  simpa using List.mem_takeWhile_imp h

theorem flatMap_cString {buffers : List Text} (h : nul ∉ buffers.flatten) :
    buffers.flatMap cString = buffers.flatten := by
  have hid : buffers.map cString = buffers.map id :=
    List.map_congr_left fun b hb => cString_of_not_mem fun hc => h (List.mem_flatten.2 ⟨b, hb, hc⟩)
  rw [List.flatMap_def, hid, List.map_id]

/-- `strtok_r` on the string where it left off: the token (or `NULL`), and where it leaves off. -/
def strtok (delimiters : Text) (s : Text) : Option Text × Text :=
  let s := s.dropWhile (· ∈ delimiters)
  if s = [] then (none, [])
  else (some (s.takeWhile (· ∉ delimiters)), (s.dropWhile (· ∉ delimiters)).drop 1)

theorem strtok_sublist {delimiters s token rest : Text}
    (h : strtok delimiters s = (some token, rest)) : token.Sublist s ∧ rest.Sublist s := by
  have hskip : (s.dropWhile (· ∈ delimiters)).Sublist s := List.dropWhile_sublist _
  unfold strtok at h
  dsimp only at h
  split at h
  · cases h
  · cases h
    refine ⟨(List.takeWhile_sublist _).trans hskip, ?_⟩
    exact ((List.drop_sublist 1 _).trans (List.dropWhile_sublist _)).trans hskip

/-- A token is not empty. -/
theorem ne_nil_of_strtok {delimiters s token rest : Text}
    (h : strtok delimiters s = (some token, rest)) : token ≠ [] := by
  unfold strtok at h
  dsimp only at h
  split at h
  · cases h
  · next hne =>
      cases h
      intro hempty
      obtain ⟨c, t, heq⟩ := List.exists_cons_of_ne_nil hne
      have hhead := List.head_dropWhile_not _ hne
      simp only [heq, List.head_cons] at hhead
      rw [heq, List.takeWhile_cons_of_pos (by simpa using hhead)] at hempty
      cases hempty

/-- A token has no delimiter. -/
theorem not_mem_of_strtok {delimiters s token rest : Text}
    (h : strtok delimiters s = (some token, rest)) : ∀ c ∈ token, c ∉ delimiters := by
  unfold strtok at h
  dsimp only at h
  split at h
  · cases h
  · cases h
    intro c hc
    simpa using List.mem_takeWhile_imp hc

/-- `strtok` skips the delimiters in front of a token. -/
theorem strtok_cons_delimiter {delimiters : Text} {d : Char} (hd : d ∈ delimiters) (s : Text) :
    strtok delimiters (d :: s) = strtok delimiters s := by
  unfold strtok
  rw [List.dropWhile_cons_of_pos (by simpa using hd)]

theorem forall_not_mem_singleton {d : Char} {token : Text} (h : d ∉ token) :
    ∀ c ∈ token, c ∉ [d] := by
  intro c hc hd
  rw [List.mem_singleton.1 hd] at hc
  exact h hc

/-- A token up to a delimiter, and where it leaves off. -/
theorem strtok_append {delimiters token : Text} {d : Char} (hne : token ≠ [])
    (htoken : ∀ c ∈ token, c ∉ delimiters) (hd : d ∈ delimiters) (rest : Text) :
    strtok delimiters (token ++ d :: rest) = (some token, rest) := by
  have hkeep : ∀ c ∈ token, decide (c ∉ delimiters) = true := by simpa using htoken
  have hskip : (token ++ d :: rest).dropWhile (· ∈ delimiters) = token ++ d :: rest := by
    cases token with
    | nil => exact absurd rfl hne
    | cons c token => exact List.dropWhile_cons_of_neg (by simpa using hkeep c List.mem_cons_self)
  unfold strtok
  rw [hskip]
  dsimp only
  rw [if_neg (by simp), List.takeWhile_append_of_pos hkeep, List.dropWhile_append_of_pos hkeep]
  simp [hd]

/-- A token that ends the string. -/
theorem strtok_whole {delimiters token : Text} (hne : token ≠ [])
    (htoken : ∀ c ∈ token, c ∉ delimiters) : strtok delimiters token = (some token, []) := by
  have hkeep : ∀ c ∈ token, decide (c ∉ delimiters) = true := by simpa using htoken
  have hskip : token.dropWhile (· ∈ delimiters) = token := by
    cases token with
    | nil => exact absurd rfl hne
    | cons c token => exact List.dropWhile_cons_of_neg (by simpa using hkeep c List.mem_cons_self)
  unfold strtok
  rw [hskip]
  dsimp only
  rw [if_neg hne, List.takeWhile_eq_self_iff.2 hkeep, List.dropWhile_eq_nil_iff.2 hkeep]
  rfl

theorem strtok_token {token rest : Text} (hne : token ≠ []) (hspace : ' ' ∉ token) :
    strtok [' '] (token ++ ' ' :: rest) = (some token, rest) :=
  strtok_append hne (forall_not_mem_singleton hspace) List.mem_cons_self rest

theorem strtok_last {token : Text} (hne : token ≠ []) (hspace : ' ' ∉ token) :
    strtok [' '] token = (some token, []) :=
  strtok_whole hne (forall_not_mem_singleton hspace)

/-- The rest of the string. -/
theorem strtok_rest {s : Text} (hne : s ≠ []) : strtok [] s = (some s, []) :=
  strtok_whole hne fun _ _ => List.not_mem_nil

/-- What calls of `strtok` deliver of a string, up to the `NULL` at its end. -/
def tokens (delimiter : Char) (s : Text) : List Text := (s.splitOn delimiter).filter (· ≠ [])

theorem tokens_cons_delimiter (d : Char) (s : Text) : tokens d (d :: s) = tokens d s := by
  have hsplit : (d :: s).splitOn d = [] :: s.splitOn d :=
    List.splitOn_append_cons_self_of_not_mem List.not_mem_nil s
  rw [tokens, hsplit, List.filter_cons_of_neg (by simp), tokens]

theorem tokens_append {d : Char} {token : Text} (hne : token ≠ []) (htoken : d ∉ token)
    (rest : Text) : tokens d (token ++ d :: rest) = token :: tokens d rest := by
  rw [tokens, List.splitOn_append_cons_self_of_not_mem htoken,
    List.filter_cons_of_pos (by simpa using hne), tokens]

theorem tokens_whole {d : Char} {token : Text} (hne : token ≠ []) (htoken : d ∉ token) :
    tokens d token = [token] := by
  rw [tokens, List.splitOn_eq_singleton htoken, List.filter_cons_of_pos (by simpa using hne),
    List.filter_nil]

theorem strtok_tokens (d : Char) (s : Text) :
    (strtok [d] s).1 = (tokens d s).head? ∧ tokens d (strtok [d] s).2 = (tokens d s).tail := by
  induction s with
  | nil =>
      have hnone : tokens d [] = [] := by simp [tokens]
      rw [hnone]
      exact ⟨rfl, hnone⟩
  | cons c s ih =>
      by_cases hc : c = d
      · rw [hc, strtok_cons_delimiter List.mem_cons_self, tokens_cons_delimiter]
        exact ih
      · by_cases hd : d ∈ c :: s
        · obtain ⟨token, rest, heq, hnot⟩ := List.eq_append_cons_of_mem hd
          have hne : token ≠ [] := by
            rintro rfl
            exact hc (List.cons.inj heq).1
          rw [heq, tokens_append hne hnot,
            strtok_append hne (forall_not_mem_singleton hnot) List.mem_cons_self]
          exact ⟨rfl, rfl⟩
        · rw [tokens_whole (List.cons_ne_nil c s) hd,
            strtok_whole (List.cons_ne_nil c s) (forall_not_mem_singleton hd)]
          exact ⟨rfl, by simp [tokens]⟩

/-- A call of `strtok` delivers the first of the tokens. -/
theorem strtok_fst (d : Char) (s : Text) : (strtok [d] s).1 = (tokens d s).head? :=
  (strtok_tokens d s).1

/-- The calls behind it deliver the others. -/
theorem tokens_strtok (d : Char) (s : Text) : tokens d (strtok [d] s).2 = (tokens d s).tail :=
  (strtok_tokens d s).2

/-- `isspace` in the C locale. -/
def isSpace (c : Char) : Bool := c = ' ' || ('\t' ≤ c && c ≤ '\r')

/-- The value of a string of digits. -/
def digitsValue (s : Text) : ℕ := s.foldl (fun n c => 10 * n + (c.toNat - '0'.toNat)) 0

/-- The nearest value of a `long` of 64 bits. -/
def clampLong (n : ℤ) : ℤ :=
  if n < -9223372036854775808 then -9223372036854775808
  else if 9223372036854775807 < n then 9223372036854775807
  else n

/-- `strtol` in base 10: it stops at the first character that is no digit, and at the bounds of a
    `long`. -/
def strtol (s : Text) : ℤ :=
  match s.dropWhile isSpace with
  | '-' :: digits => clampLong (-digitsValue (digits.takeWhile Char.isDigit))
  | '+' :: digits => clampLong (digitsValue (digits.takeWhile Char.isDigit))
  | digits => clampLong (digitsValue (digits.takeWhile Char.isDigit))

/-- `atoi`: the result of `strtol` as an `int` of 32 bits. -/
def atoi (s : Text) : ℤ := (strtol s).bmod 4294967296

theorem not_isSpace_of_isDigit {c : Char} (h : c.isDigit = true) :
    isSpace c = false ∧ c ≠ '-' ∧ c ≠ '+' := by
  have hrange : 48 ≤ c.toNat ∧ c.toNat ≤ 57 := by
    simp only [Char.isDigit, Bool.and_eq_true, decide_eq_true_eq, ge_iff_le,
      UInt32.le_iff_toNat_le] at h
    exact h
  refine ⟨?_, ?_, ?_⟩
  · have hne : c ≠ ' ' := by
      rintro rfl
      exact absurd hrange.1 (by decide)
    have hbig : ¬ c ≤ '\r' := by
      rw [Char.le_def, UInt32.le_iff_toNat_le]
      exact fun hle => absurd (hrange.1.trans hle) (by decide)
    simp [isSpace, hne, hbig]
  · rintro rfl
    exact absurd hrange.1 (by decide)
  · rintro rfl
    exact absurd hrange.1 (by decide)

theorem atoi_digits {s : Text} (hdigits : s.all Char.isDigit = true)
    (hmax : digitsValue s ≤ 2147483647) : atoi s = digitsValue s := by
  have hvalue : strtol s = digitsValue s := by
    have hall : s.takeWhile Char.isDigit = s := List.takeWhile_eq_self_iff.2 (by simpa using hdigits)
    have hclamp : clampLong (digitsValue s) = digitsValue s := by
      unfold clampLong
      rw [if_neg (by omega), if_neg (by omega)]
    cases s with
    | nil => rfl
    | cons c s =>
        have hc : c.isDigit = true := by
          rw [List.all_cons, Bool.and_eq_true] at hdigits
          exact hdigits.1
        obtain ⟨hspace, hminus, hplus⟩ := not_isSpace_of_isDigit hc
        unfold strtol
        rw [List.dropWhile_cons_of_neg (by rw [hspace]; decide)]
        split
        · rename_i heq
          exact absurd (List.cons.inj heq).1 hminus
        · rename_i heq
          exact absurd (List.cons.inj heq).1 hplus
        · rw [hall, hclamp]
  rw [atoi, hvalue]
  exact Int.bmod_eq_of_le (by omega) (by omega)

/-- What successive calls of `fgets` return whose buffer has room for `room` characters: `buffer` is
    filled so far, the text is still to be read. -/
def fgetsFrom (room : ℕ) (buffer : Text) : Text → List Text
  | [] => if buffer = [] then [] else [buffer]
  | c :: s =>
      if c = '\n' ∨ buffer.length + 1 = room then (buffer ++ [c]) :: fgetsFrom room [] s
      else fgetsFrom room (buffer ++ [c]) s

/-- What the calls `fgets(buffer, size, file)` return, up to the `NULL` at the end. -/
def fgetsAll (size : ℕ) (s : Text) : List Text := fgetsFrom (size - 1) [] s

example : strtok [' '] "  f 12 some text".toList = (some ['f'], "12 some text".toList) := by decide

example : fgetsAll 4 "ab\ncdefg".toList = ["ab\n".toList, "cde".toList, "fg".toList] := by decide

end SystemProgramming
