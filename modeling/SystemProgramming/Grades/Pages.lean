import SystemProgramming.Lib.Lines
import SystemProgramming.Lib.Stream

set_option autoImplicit false

/-! # The pages of a file

`listSome` prints the lines of one page of the file, which it reads in chunks of at most 35 bytes.
It counts a newline before it decides whether to print it, so that every page but the first begins
with the newline of the line in front of it (`pageChunk_before`). How the file is split into chunks
does not matter (`pageOutput_eq`).

`listGrades` prints a character before it counts it. Its loops are those of the first page of five
entries (`firstLoop_eq`).

Both run in a child, and call `logFile` before they exit. This forks a child of its own, which exits
with a copy of the buffer of standard output: what the loops have printed and `printf` has not yet
written is written twice (`childPrints_eq`). -/

namespace SystemProgramming.Grades

/-- The reads of a file into the buffer of 35 bytes, one chunk each, up to the one that answers 0.
    -/
structure FileReads (file : Text) where
  chunks : List Text
  chunk_size : ∀ c ∈ chunks, c ≠ [] ∧ c.length ≤ 35
  content : chunks.flatten = file

/-- The inner loop of `listSome` over a chunk: what it prints, and the line number behind it. -/
def pageChunk (numofEntries pageNumber : ℕ) : ℕ → Text → Text × ℕ
  | lineNumber, [] => ([], lineNumber)
  | lineNumber, ch :: buffer =>
      if lineNumber < numofEntries * pageNumber then
        let lineNumber := lineAfter lineNumber ch
        let (printed, last) := pageChunk numofEntries pageNumber lineNumber buffer
        if lineNumber ≥ numofEntries * pageNumber - numofEntries then (ch :: printed, last)
        else (printed, last)
      else ([], lineNumber)

/-- The outer loop of `listSome`, over the chunks. -/
def pageLoop (numofEntries pageNumber : ℕ) : ℕ → List Text → Text
  | _, [] => []
  | lineNumber, chunk :: chunks =>
      if lineNumber < numofEntries * pageNumber then
        let (printed, lineNumber) := pageChunk numofEntries pageNumber lineNumber chunk
        printed ++ pageLoop numofEntries pageNumber lineNumber chunks
      else []

/-- What the loops of `listSome` print of a file. -/
def pageOutput (numofEntries pageNumber : ℕ) {file : Text} (reads : FileReads file) : Text :=
  pageLoop numofEntries pageNumber 0 reads.chunks

/-- `logFile`, as far as standard output is concerned: its child prints nothing, and exits. -/
def afterLog (stdout : Stream Char) : Stream Char := stdout.wait stdout.fork.exit

/-- What a child prints that hands a text to `printf`, calls `logFile` and exits. -/
def childPrints (stdout : Stream Char) (text : Text) : Text :=
  (afterLog (stdout.fork.puts text)).exit

/-- What `listSome` prints of a file; `stdout` is the stream of its parent. -/
def listSome (numofEntries pageNumber : ℕ) (stdout : Stream Char) {file : Text}
    (reads : FileReads file) : Text :=
  childPrints stdout (pageOutput numofEntries pageNumber reads)

/-- The lines of a page: number `(p - 1) n + 1` to `p n`, or as many of them as there are. -/
def pageText (numofEntries pageNumber : ℕ) (file : Text) : Text :=
  (((lines file).take (numofEntries * pageNumber)).drop ((pageNumber - 1) * numofEntries)).flatten

/-! ## What is printed -/

section Page

variable {n p : ℕ}

theorem pageChunk_of_le {k : ℕ} (h : n * p ≤ k) (s : Text) : pageChunk n p k s = ([], k) := by
  cases s with
  | nil => rfl
  | cons ch s => rw [pageChunk, if_neg (not_lt.2 h)]

/-- The inner loop goes on in the next chunk where it left off. -/
theorem pageChunk_append (k : ℕ) (s t : Text) :
    pageChunk n p k (s ++ t) =
      ((pageChunk n p k s).1 ++ (pageChunk n p (pageChunk n p k s).2 t).1,
        (pageChunk n p (pageChunk n p k s).2 t).2) := by
  induction s generalizing k with
  | nil => rfl
  | cons ch s ih =>
      by_cases hk : k < n * p
      · rw [List.cons_append, pageChunk, if_pos hk, pageChunk, if_pos hk]
        dsimp only
        rw [ih]
        by_cases hpage : lineAfter k ch ≥ n * p - n
        · rw [if_pos hpage, if_pos hpage]
          rfl
        · rw [if_neg hpage, if_neg hpage]
      · rw [pageChunk_of_le (not_lt.1 hk), pageChunk_of_le (not_lt.1 hk), List.nil_append,
          pageChunk_of_le (not_lt.1 hk)]

/-- The split into chunks does not matter. -/
theorem pageLoop_eq (k : ℕ) (chunks : List Text) :
    pageLoop n p k chunks = (pageChunk n p k chunks.flatten).1 := by
  induction chunks generalizing k with
  | nil => rfl
  | cons chunk chunks ih =>
      rw [pageLoop, List.flatten_cons, pageChunk_append]
      by_cases hk : k < n * p
      · rw [if_pos hk]
        dsimp only
        rw [ih]
      · rw [if_neg hk, pageChunk_of_le (not_lt.1 hk)]
        dsimp only
        rw [pageChunk_of_le (not_lt.1 hk), List.append_nil]

/-- From the first line of the page on, its lines are printed. -/
theorem pageChunk_window {k : ℕ} (h : n * p - n ≤ k) (s : Text) :
    (pageChunk n p k s).1 = lineWindow (n * p - n) (n * p) k s := by
  induction s generalizing k with
  | nil => rfl
  | cons ch s ih =>
      by_cases hk : k < n * p
      · have hnext : lineAfter k ch ≥ n * p - n := h.trans (le_lineAfter k ch)
        rw [pageChunk, if_pos hk]
        dsimp only
        rw [if_pos hnext, ih hnext, lineWindow, if_pos ⟨h, hk⟩]
        rfl
      · rw [pageChunk_of_le (not_lt.1 hk), lineWindow_of_le (not_lt.1 hk)]

/-- In front of the page, nothing is printed up to the newline that ends the last line before it. -/
theorem pageChunk_before {k : ℕ} (h : k < n * p - n) (s : Text) :
    (pageChunk n p k s).1 =
      if k + s.count '\n' < n * p - n then []
      else '\n' :: lineWindow (n * p - n) (n * p) k s := by
  induction s generalizing k with
  | nil => rw [List.count_nil, Nat.add_zero, if_pos h]; rfl
  | cons ch s ih =>
      have hwindow : lineWindow (n * p - n) (n * p) k (ch :: s) =
          lineWindow (n * p - n) (n * p) (lineAfter k ch) s := by
        rw [lineWindow, if_neg fun hn => absurd hn.1 (not_le.2 h), List.nil_append]
      rw [pageChunk, if_pos (by omega), hwindow]
      dsimp only
      by_cases hch : ch = '\n'
      · rw [hch, lineAfter_newline, List.count_cons_self]
        by_cases hnext : k + 1 ≥ n * p - n
        · rw [if_pos hnext, if_neg (by omega)]
          dsimp only
          rw [pageChunk_window hnext]
        · rw [if_neg hnext]
          dsimp only
          rw [ih (not_le.1 hnext), show k + (s.count '\n' + 1) = k + 1 + s.count '\n' by omega]
      · rw [lineAfter_of_ne hch, if_neg (not_le.2 h), List.count_cons_of_ne hch]
        exact ih h

theorem pageText_eq (n p : ℕ) (file : Text) :
    pageText n p file = lineWindow (n * p - n) (n * p) 0 file := by
  rw [lineWindow_eq, pageText, Nat.sub_mul, Nat.one_mul, Nat.mul_comm p n]

/-- The page, with the newline of the line in front of it if there is one. -/
theorem pageOutput_eq (hn : 1 ≤ n) (hp : 1 ≤ p) {file : Text} (reads : FileReads file) :
    pageOutput n p reads =
      (if p = 1 ∨ file.count '\n' < (p - 1) * n then [] else ['\n']) ++ pageText n p file := by
  have hfirst : (p - 1) * n = n * p - n := by rw [Nat.sub_mul, Nat.one_mul, Nat.mul_comm]
  rw [pageOutput, pageLoop_eq, reads.content, pageText_eq, hfirst]
  by_cases hone : p = 1
  · rw [if_pos (.inl hone), List.nil_append]
    exact pageChunk_window (by rw [hone]; omega) file
  · have hlater : 0 < n * p - n := by
      rw [← hfirst]
      exact Nat.mul_pos (by omega) hn
    rw [pageChunk_before hlater, Nat.zero_add]
    by_cases hshort : file.count '\n' < n * p - n
    · rw [if_pos hshort, if_pos (.inr hshort), lineWindow_of_lt (by rwa [Nat.zero_add])]
      rfl
    · rw [if_neg hshort, if_neg (by simp [hone, hshort])]
      rfl

end Page

/-! ## What the child prints -/

section Child

variable {stdout : Stream Char} {text : Text}

theorem childPrints_eq (stdout : Stream Char) (text : Text) :
    childPrints stdout text = stdout.buffer ++ text ++ (stdout.fork.puts text).buffer :=
  stdout.exit_child text

/-- With an empty buffer, a text is printed once if nothing of it stays there. -/
theorem childPrints_flushes (hempty : stdout.buffer = []) (htext : stdout.Flushes text) :
    childPrints stdout text = text := by
  have hrest : (stdout.fork.puts text).buffer = [] :=
    (Stream.puts_buffer_eq_nil (s := stdout.fork) hempty).2 htext
  rw [childPrints_eq, hempty, hrest, List.nil_append, List.append_nil]

/-- A text with something in front of it is printed as the text alone only if there is nothing in
    front of it, in the parent's buffer either, and nothing of the text stays in the buffer. -/
theorem childPrints_append_eq_iff (stdout : Stream Char) (extra text : Text) :
    childPrints stdout (extra ++ text) = text ↔
      stdout.buffer = [] ∧ extra = [] ∧ stdout.Flushes text := by
  constructor
  · intro heq
    have hlength := congrArg List.length ((childPrints_eq _ _).symm.trans heq)
    simp only [List.length_append] at hlength
    have hempty : stdout.buffer = [] := List.eq_nil_of_length_eq_zero (by omega)
    have hextra : extra = [] := List.eq_nil_of_length_eq_zero (by omega)
    have hrest : (stdout.fork.puts (extra ++ text)).buffer = [] :=
      List.eq_nil_of_length_eq_zero (by omega)
    rw [hextra, List.nil_append] at hrest
    exact ⟨hempty, hextra, (Stream.puts_buffer_eq_nil (s := stdout.fork) hempty).1 hrest⟩
  · rintro ⟨hempty, rfl, htext⟩
    exact childPrints_flushes hempty htext

end Child

/-! ## Several pages -/

/-- The first pages put together are the first lines. -/
theorem pageText_flatMap (n m : ℕ) (file : Text) :
    ((List.range m).flatMap fun k => pageText n (k + 1) file) =
      ((lines file).take (n * m)).flatten := by
  induction m with
  | zero => simp
  | succ m ih =>
      have hsplit : (lines file).take (n * (m + 1)) =
          (lines file).take (n * m) ++ ((lines file).take (n * (m + 1))).drop (n * m) := by
        have htake := List.take_append_drop (n * m) ((lines file).take (n * (m + 1)))
        rw [List.take_take, Nat.min_eq_left (Nat.mul_le_mul_left n (Nat.le_succ m))] at htake
        exact htake.symm
      rw [List.range_succ, List.flatMap_append, ih, List.flatMap_singleton, hsplit,
        List.flatten_append, pageText, Nat.add_sub_cancel, Nat.mul_comm m n]

theorem length_flatMap_le {ι α : Type*} {f g : ι → List α}
    (hle : ∀ k, (g k).length ≤ (f k).length) (items : List ι) :
    (items.flatMap g).length ≤ (items.flatMap f).length := by
  induction items with
  | nil => exact Nat.le_refl 0
  | cons k items ih =>
      rw [List.flatMap_cons, List.flatMap_cons, List.length_append, List.length_append]
      exact Nat.add_le_add (hle k) ih

/-- Texts that are at least as long as others give the same only if each is the other. -/
theorem flatMap_eq_iff_of_le {ι α : Type*} {f g : ι → List α}
    (hle : ∀ k, (g k).length ≤ (f k).length) (items : List ι) :
    items.flatMap f = items.flatMap g ↔ ∀ k ∈ items, f k = g k := by
  constructor
  · intro heq
    induction items with
    | nil => exact List.forall_mem_nil _
    | cons k items ih =>
        rw [List.flatMap_cons, List.flatMap_cons] at heq
        have hlength := congrArg List.length heq
        rw [List.length_append, List.length_append] at hlength
        have hfirst := hle k
        have hrest := length_flatMap_le hle items
        obtain ⟨hk, hitems⟩ := List.append_inj heq (by omega)
        exact List.forall_mem_cons.2 ⟨hk, ih hitems⟩
  · intro hall
    exact congrArg List.flatten (List.map_congr_left hall)

/-- A page is printed exactly if it is the first, or no line ends in front of it, and nothing of it
    is written twice. -/
theorem listSome_eq_pageText_iff {n p : ℕ} (hn : 1 ≤ n) (hp : 1 ≤ p) (stdout : Stream Char)
    {file : Text} (reads : FileReads file) :
    listSome n p stdout reads = pageText n p file ↔
      (p = 1 ∨ file.count '\n' < (p - 1) * n) ∧
        stdout.buffer = [] ∧ stdout.Flushes (pageText n p file) := by
  rw [listSome, pageOutput_eq hn hp, childPrints_append_eq_iff, and_left_comm]
  refine and_congr_left fun _ => ?_
  by_cases h : p = 1 ∨ file.count '\n' < (p - 1) * n
  · rw [if_pos h]
    exact iff_of_true rfl h
  · rw [if_neg h]
    exact iff_of_false nofun h

theorem length_pageText_le {n p : ℕ} (hn : 1 ≤ n) (hp : 1 ≤ p) (stdout : Stream Char) {file : Text}
    (reads : FileReads file) :
    (pageText n p file).length ≤ (listSome n p stdout reads).length := by
  rw [listSome, pageOutput_eq hn hp, childPrints_eq]
  simp only [List.length_append]
  omega

/-- **What the pages are.** A page is printed exactly if it is the first, or the file has no line
    that ends in front of it, and nothing of it stays in the buffer of the stream, where nothing was
    before; and the first `m` pages give the first lines of the file exactly if there is only one or
    the file has fewer than `n` newlines, and nothing of them stays there. -/
theorem listSome_pages_iff {n : ℕ} (hn : 1 ≤ n) (file : Text) :
    (∀ p, 1 ≤ p → n * p ≤ 2147483647 → ∀ (stdout : Stream Char) (reads : FileReads file),
      listSome n p stdout reads = pageText n p file ↔
        (p = 1 ∨ file.count '\n' < (p - 1) * n) ∧
          stdout.buffer = [] ∧ stdout.Flushes (pageText n p file)) ∧
    ∀ m, n * m ≤ 2147483647 → ∀ (stdout : ℕ → Stream Char) (reads : ℕ → FileReads file),
      ((List.range m).flatMap fun k => listSome n (k + 1) (stdout k) (reads k)) =
          ((lines file).take (n * m)).flatten ↔
        (m ≤ 1 ∨ file.count '\n' < n) ∧
          ∀ k < m, (stdout k).buffer = [] ∧ (stdout k).Flushes (pageText n (k + 1) file) := by
  refine ⟨fun p hp _ stdout reads => listSome_eq_pageText_iff hn hp stdout reads,
    fun m _ stdout reads => ?_⟩
  rw [← pageText_flatMap, flatMap_eq_iff_of_le fun k =>
    length_pageText_le hn (Nat.le_add_left 1 k) (stdout k) (reads k)]
  simp only [List.mem_range, listSome_eq_pageText_iff hn (Nat.le_add_left 1 _),
    Nat.add_sub_cancel, Nat.add_eq_right]
  constructor
  · intro hall
    refine ⟨?_, fun k hk => (hall k hk).2⟩
    -- the second page is the one that tells
    refine or_iff_not_imp_left.2 fun hm => ?_
    have hsecond := (hall 1 (by omega)).1
    omega
  · rintro ⟨hshort, hflushes⟩ k hk
    refine ⟨or_iff_not_imp_left.2 fun hzero => ?_, hflushes k hk⟩
    exact (hshort.resolve_left (by omega)).trans_le (Nat.le_mul_of_pos_left n (by omega))

/-- Standard output on a terminal: it is written line by line. -/
def terminalStream : Stream Char := ⟨fun c => c = '\n', 1024, [], []⟩

/-- A file of two lines, in one read. -/
def twoLines : FileReads "a\nb\n".toList :=
  ⟨["a\nb\n".toList], List.forall_mem_singleton.2 ⟨nofun, Nat.le_of_ble_eq_true rfl⟩, rfl⟩

theorem listSome_pages_iff_first :
    (listSome 1 1 terminalStream twoLines = pageText 1 1 "a\nb\n".toList ↔
      (1 = 1 ∨ "a\nb\n".toList.count '\n' < (1 - 1) * 1) ∧ terminalStream.buffer = [] ∧
        terminalStream.Flushes (pageText 1 1 "a\nb\n".toList)) ∧
    (((List.range 2).flatMap fun k => listSome 1 (k + 1) terminalStream twoLines) =
        ((lines "a\nb\n".toList).take (1 * 2)).flatten ↔
      (2 ≤ 1 ∨ "a\nb\n".toList.count '\n' < 1) ∧
        ∀ k < 2, terminalStream.buffer = [] ∧
          terminalStream.Flushes (pageText 1 (k + 1) "a\nb\n".toList)) :=
  have hpages := listSome_pages_iff (le_refl 1) "a\nb\n".toList
  ⟨hpages.1 1 (le_refl 1) (by decide) terminalStream twoLines,
    hpages.2 2 (by decide) (fun _ => terminalStream) fun _ => twoLines⟩

/-- The second page of one line begins with the newline of the first. -/
theorem listSome_not_always_page :
    ¬ ∀ n p, 1 ≤ n → 1 ≤ p → n * p ≤ 2147483647 → ∀ (stdout : Stream Char) (file : Text)
      (reads : FileReads file), listSome n p stdout reads = pageText n p file := by
  intro hall
  exact absurd (hall 1 2 (by decide) (by decide) (by decide) terminalStream _ twoLines) (by decide)

/-! ## The first five lines -/

/-- The inner loop of `listGrades` over a chunk: what it prints, and the line number behind it. -/
def firstChunk : ℕ → Text → Text × ℕ
  | lineNumber, [] => ([], lineNumber)
  | lineNumber, ch :: buffer =>
      if lineNumber < 5 then
        let (printed, last) := firstChunk (lineAfter lineNumber ch) buffer
        (ch :: printed, last)
      else ([], lineNumber)

/-- The outer loop, over the chunks. -/
def firstLoop : ℕ → List Text → Text
  | _, [] => []
  | lineNumber, chunk :: chunks =>
      if lineNumber < 5 then
        let (printed, lineNumber) := firstChunk lineNumber chunk
        printed ++ firstLoop lineNumber chunks
      else []

/-- What the loops of `listGrades` print of a file. -/
def firstOutput {file : Text} (reads : FileReads file) : Text := firstLoop 0 reads.chunks

/-- What `listGrades` prints of a file; `stdout` is the stream of its parent. -/
def listGrades (stdout : Stream Char) {file : Text} (reads : FileReads file) : Text :=
  childPrints stdout (firstOutput reads)

/-- On the first page nothing is in front of the page, and the two orders come to the same. -/
theorem firstChunk_eq (k : ℕ) (s : Text) : firstChunk k s = pageChunk 5 1 k s := by
  induction s generalizing k with
  | nil => rfl
  | cons ch s ih =>
      have hpage : lineAfter k ch ≥ 5 * 1 - 5 := Nat.zero_le _
      rw [firstChunk, pageChunk, ih]
      dsimp only
      rw [if_pos hpage]

theorem firstLoop_eq (k : ℕ) (chunks : List Text) : firstLoop k chunks = pageLoop 5 1 k chunks := by
  induction chunks generalizing k with
  | nil => rfl
  | cons chunk chunks ih =>
      rw [firstLoop, pageLoop, firstChunk_eq]
      dsimp only
      rw [ih]

/-- However the file is split into reads, the loops print its first five lines. -/
theorem firstOutput_eq {file : Text} (reads : FileReads file) :
    firstOutput reads = pageText 5 1 file := by
  have hfirst := pageOutput_eq (by decide : 1 ≤ 5) (le_refl 1) reads
  rw [if_pos (.inl rfl), List.nil_append] at hfirst
  exact (firstLoop_eq 0 reads.chunks).trans hfirst

/-- The first page of five entries is the text up to the fifth newline. -/
theorem pageText_first (file : Text) : IsThroughNewline 5 file (pageText 5 1 file) :=
  isThroughNewline_lines 4 file

/-- **`listGrades` is the first page.** It prints the file up to and including the fifth newline
    exactly if nothing of this stays in the buffer of the stream, where nothing was before; and
    `listSome 5 1` always prints the same, from any split. -/
theorem listGrades_first_iff (stdout : Stream Char) {file : Text} (reads : FileReads file) :
    IsThroughNewline 5 file (listGrades stdout reads) ∧
        (∀ reads' : FileReads file, listSome 5 1 stdout reads' = listGrades stdout reads) ↔
      stdout.buffer = [] ∧ stdout.Flushes (pageText 5 1 file) := by
  have hsame : ∀ reads' : FileReads file, listSome 5 1 stdout reads' = listGrades stdout reads := by
    intro reads'
    rw [listSome, listGrades, firstOutput_eq, ← firstOutput_eq reads']
    exact congrArg (childPrints stdout) (firstLoop_eq 0 reads'.chunks).symm
  rw [and_iff_left hsame]
  have hpage : IsThroughNewline 5 file (listGrades stdout reads) ↔
      listGrades stdout reads = pageText 5 1 file :=
    ⟨fun h => h.unique (pageText_first file), fun h => by rw [h]; exact pageText_first file⟩
  have hchild := childPrints_append_eq_iff stdout [] (pageText 5 1 file)
  rw [List.nil_append] at hchild
  rw [hpage, listGrades, firstOutput_eq, hchild, and_iff_right (rfl : ([] : Text) = [])]

/-- A file without a newline at its end, in one read. -/
def unended : FileReads "a\nb".toList :=
  ⟨["a\nb".toList], List.forall_mem_singleton.2 ⟨nofun, Nat.le_of_ble_eq_true rfl⟩, rfl⟩

/-- Its last line is printed twice. -/
theorem listGrades_not_always_first :
    ¬ ∀ (stdout : Stream Char) (file : Text) (reads : FileReads file),
      IsThroughNewline 5 file (listGrades stdout reads) ∧
        ∀ reads' : FileReads file, listSome 5 1 stdout reads' = listGrades stdout reads := by
  intro hall
  have hprinted := (hall terminalStream _ unended).1.unique (pageText_first _)
  exact absurd hprinted (by decide)

end SystemProgramming.Grades
