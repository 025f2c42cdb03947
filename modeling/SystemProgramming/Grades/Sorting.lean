import SystemProgramming.Grades.Records
import SystemProgramming.Lib.BubbleSort

set_option autoImplicit false

/-! # sortAll

The child of `sortAll` loads the records of the file into an array of 100 students, sorts them with
the function for the choice, and prints them. `loadStudents` is the load; it ends with the index
that is not one of the array. The four sorts are one bubble sort with four tests, and each leaves a
list in which its own test swaps nothing (`Sorted`): those named ascending swap what is smaller
behind what is greater. -/

namespace SystemProgramming.Grades

/-- `MAX_STUDENTS` -/
def maxStudents : ℕ := 100

/-- A `Student`: the strings in its two arrays. -/
structure Student where
  name : Text
  grade : Text
deriving DecidableEq

/-! ## The load -/

/-- A line of the file in `sortAll`; the student goes to `students[numStudents]`, and is kept if the
    line has a second token. The error is an index that is not in the array. -/
def loadLine (students : List Student) (line : Text) : Except ℕ (List Student) :=
  match strtok [','] line with
  | (none, _) => .ok students
  | (some name, rest) =>
      if students.length < maxStudents then
        match (strtok [','] rest).1 with
        | none => .ok students
        | some grade => .ok (students ++ [⟨name.take 29, grade.take 3⟩])
      else .error students.length

/-- The reading loop of `sortAll`. -/
def loadStudents (file : Text) : Except ℕ (List Student) := lineLoop loadLine [] [] file

/-- A record as `addStudentGrade` writes it. -/
structure Record where
  name : Text
  grade : Text
  name_pos : 1 ≤ name.length
  name_le : name.length ≤ 29
  name_comma : ',' ∉ name
  name_newline : '\n' ∉ name
  name_nul : nul ∉ name
  grade_length : grade.length = 2
  grade_alpha : ∀ c ∈ grade, c.isAlpha = true

namespace Record

/-- The student of a record; the grade begins with the space behind the comma. -/
def student (r : Record) : Student := ⟨r.name, ' ' :: r.grade⟩

/-- The record without its newline. -/
def line (r : Record) : Text := r.name ++ ", ".toList ++ r.grade

theorem grade_not_mem (r : Record) {c : Char} (hc : c.isAlpha = false) : c ∉ r.grade := by
  intro h
  rw [r.grade_alpha c h] at hc
  cases hc

theorem line_newline (r : Record) : '\n' ∉ r.line := by
  have hgrade : '\n' ∉ r.grade := r.grade_not_mem rfl
  simp [line, r.name_newline, hgrade]

theorem line_nul (r : Record) : nul ∉ r.line := by
  have hgrade : nul ∉ r.grade := r.grade_not_mem rfl
  have hcomma : nul ∉ ", ".toList := by decide
  simp only [line, List.mem_append, not_or]
  exact ⟨⟨r.name_nul, hcomma⟩, hgrade⟩

theorem line_length (r : Record) : r.line.length ≤ maxLineLength - 1 := by
  have := r.name_le
  simp only [line, List.length_append, r.grade_length]
  show r.name.length + 2 + 2 ≤ 34
  omega

theorem loadLine_line (r : Record) (students : List Student) :
    loadLine students r.line =
      if students.length < maxStudents then .ok (students ++ [r.student])
      else .error students.length := by
  have hne : r.name ≠ [] := List.ne_nil_of_length_pos r.name_pos
  have hgrade : ',' ∉ ' ' :: r.grade := by
    have : ',' ∉ r.grade := r.grade_not_mem rfl
    simpa using this
  have hline : r.line = r.name ++ ',' :: (' ' :: r.grade) := by simp [line]
  have hfits : (' ' :: r.grade).length ≤ 3 := by rw [List.length_cons, r.grade_length]
  rw [hline, loadLine, strtok_append hne (forall_not_mem_singleton r.name_comma) List.mem_cons_self]
  dsimp only
  rw [strtok_whole (List.cons_ne_nil _ _) (forall_not_mem_singleton hgrade)]
  dsimp only
  rw [List.take_of_length_le r.name_le, List.take_of_length_le hfits]
  rfl

end Record

/-- A file of records. -/
def recordFile (records : List Record) : Text :=
  records.flatMap fun r => recordLine r.name r.grade

theorem recordFile_cons (r : Record) (records : List Record) :
    recordFile (r :: records) = r.line ++ '\n' :: recordFile records := by
  simp [recordFile, recordLine, Record.line]

/-- The load goes on as long as the array has room. -/
theorem lineLoop_recordFile (records : List Record) {students : List Student}
    (hroom : students.length ≤ maxStudents) :
    lineLoop loadLine students [] (recordFile records) =
      if students.length + records.length ≤ maxStudents then
        .ok (students ++ records.map Record.student)
      else .error maxStudents := by
  induction records generalizing students with
  | nil =>
      rw [List.map_nil, List.append_nil, if_pos (by simpa using hroom)]
      rfl
  | cons r records ih =>
      rw [recordFile_cons, lineLoop_append r.line_newline r.line_nul r.line_length, r.loadLine_line,
        List.length_cons]
      by_cases hlt : students.length < maxStudents
      · have hroom' : (students ++ [r.student]).length ≤ maxStudents := by
          rw [List.length_append]
          exact hlt
        have hcount : (students ++ [r.student]).length + records.length
            = students.length + (records.length + 1) := by
          simp only [List.length_append, List.length_singleton]
          omega
        rw [if_pos hlt]
        show lineLoop loadLine (students ++ [r.student]) [] (recordFile records) = _
        rw [ih hroom', hcount, List.append_assoc, List.singleton_append, List.map_cons]
      · rw [if_neg hlt, if_neg (by omega), show students.length = maxStudents by omega]
        rfl

/-- **What sortAll loads.** The students are the records, in the order of the file, with all indices
    in the array, exactly when the file has at most 100 records. -/
theorem loadStudents_iff (records : List Record) :
    loadStudents (recordFile records) = .ok (records.map Record.student) ↔
      records.length ≤ 100 := by
  rw [loadStudents, lineLoop_recordFile records (Nat.zero_le _), List.length_nil, Nat.zero_add,
    List.nil_append]
  by_cases hle : records.length ≤ maxStudents
  · rw [if_pos hle]
    exact iff_of_true rfl hle
  · rw [if_neg hle]
    exact iff_of_false nofun hle

/-- The student `x` with the grade `AA`. -/
def xRecord : Record where
  name := ['x']
  grade := ['A', 'A']
  name_pos := Nat.le_refl 1
  name_le := Nat.le_of_ble_eq_true rfl
  name_comma := nofun
  name_newline := nofun
  name_nul := nofun
  grade_length := rfl
  grade_alpha := List.all_eq_true.1 rfl

/-- The record number 101 goes to `students[100]`. -/
theorem loadStudents_not_always :
    ¬ ∀ records : List Record,
      loadStudents (recordFile records) = .ok (records.map Record.student) := by
  intro hall
  have hload := hall (List.replicate 101 xRecord)
  rw [loadStudents, lineLoop_recordFile _ (Nat.zero_le _), List.length_replicate,
    if_neg (by decide)] at hload
  cases hload

/-! ## The sorts -/

/-- The sign of `strcmp`: the first characters that differ decide, by their codes. -/
def strcmp : Text → Text → ℤ
  | [], [] => 0
  | [], _ :: _ => -1
  | _ :: _, [] => 1
  | a :: s, b :: t =>
      if a.toNat < b.toNat then -1 else if b.toNat < a.toNat then 1 else strcmp s t

theorem strcmp_self (s : Text) : strcmp s s = 0 := by
  induction s with
  | nil => rfl
  | cons a s ih => rw [strcmp, if_neg (Nat.lt_irrefl _), if_neg (Nat.lt_irrefl _), ih]

theorem strcmp_swap (s t : Text) : strcmp t s = -strcmp s t := by
  induction s generalizing t with
  | nil => cases t <;> rfl
  | cons a s ih =>
      cases t with
      | nil => rfl
      | cons b t =>
          rw [strcmp, strcmp, ih]
          split_ifs <;> first | rfl | omega

theorem eq_of_strcmp_eq_zero {s t : Text} (h : strcmp s t = 0) : s = t := by
  induction s generalizing t with
  | nil =>
      cases t with
      | nil => rfl
      | cons b t => cases h
  | cons a s ih =>
      cases t with
      | nil => cases h
      | cons b t =>
          rw [strcmp] at h
          by_cases hlt : a.toNat < b.toNat
          · rw [if_pos hlt] at h
            exact absurd h (by decide)
          · by_cases hgt : b.toNat < a.toNat
            · rw [if_neg hlt, if_pos hgt] at h
              exact absurd h (by decide)
            · rw [if_neg hlt, if_neg hgt] at h
              have hcode : a.toNat = b.toNat := by omega
              rw [Char.toNat_inj.1 hcode, ih h]

theorem strcmp_trans {s t u : Text} (hst : strcmp s t ≤ 0) (htu : strcmp t u ≤ 0) :
    strcmp s u ≤ 0 := by
  induction s generalizing t u with
  | nil =>
      cases u with
      | nil => exact Int.le_refl 0
      | cons c u => exact Int.neg_nonpos_of_nonneg Int.one_nonneg
  | cons a s ih =>
      cases t with
      | nil => exact absurd hst (Int.not_le.2 Int.one_pos)
      | cons b t =>
          cases u with
          | nil => exact absurd htu (Int.not_le.2 Int.one_pos)
          | cons c u =>
              rw [strcmp] at hst htu ⊢
              split_ifs at hst htu ⊢ <;> first | omega | exact ih hst htu

/-- `sortByNameDescending`; the test is that of the source. -/
def sortByNameDescending (data : List Student) (length : ℕ) : List Student :=
  bubbleSort (fun a b => strcmp a.name b.name > 0) data length

/-- `sortByNameAscending`; the test is that of the source. -/
def sortByNameAscending (data : List Student) (length : ℕ) : List Student :=
  bubbleSort (fun a b => strcmp a.name b.name < 0) data length

/-- `sortByGradeDescending`; the test is that of the source. -/
def sortByGradeDescending (data : List Student) (length : ℕ) : List Student :=
  bubbleSort (fun a b => strcmp a.grade b.grade > 0) data length

/-- `sortByGradeAscending`; the test is that of the source. -/
def sortByGradeAscending (data : List Student) (length : ℕ) : List Student :=
  bubbleSort (fun a b => strcmp a.grade b.grade < 0) data length

/-- The first `n` students are permuted so that the test `swaps` finds nothing to swap in any two of
    them, those of equal key are in the order they were in, and the rest of the array is as it was.
    -/
structure Sorted (swaps : Student → Student → Prop) (key : Student → Text) (n : ℕ)
    (data sorted : List Student) : Prop where
  perm : (sorted.take n).Perm (data.take n)
  ordered : (sorted.take n).Pairwise fun a b => ¬ swaps a b
  stable : ∀ k, (sorted.take n).filter (key · = k) = (data.take n).filter (key · = k)
  rest : sorted.drop n = data.drop n

/-- A test that orders the students, and never swaps two of one key, sorts by itself. -/
theorem sorted_bubbleSort {swaps : Student → Student → Prop} [∀ a b, Decidable (swaps a b)]
    {key : Student → Text} (horder : Orders fun a b => decide (swaps a b))
    (hkey : ∀ a b, key a = key b → ¬ swaps a b) {n : ℕ} {data : List Student}
    (hn : n ≤ data.length) :
    Sorted swaps key n data (bubbleSort (fun a b => swaps a b) data n) := by
  have htake : (data.take n).length = n := List.length_take_of_le hn
  obtain ⟨sorted, hdata, hperm, hpairwise, hstable⟩ :=
    bubbleSort_spec horder (data.take n) (data.drop n)
  have hlength : sorted.length = n := hperm.length_eq.trans htake
  rw [List.take_append_drop, htake] at hdata
  rw [hdata]
  refine ⟨?_, ?_, fun k => ?_, ?_⟩
  · rwa [List.take_left' hlength]
  · rw [List.take_left' hlength]
    exact hpairwise.imp fun h => of_decide_eq_false h
  · rw [List.take_left' hlength]
    refine hstable _ fun a b ha hb => decide_eq_false (hkey a b ?_)
    rw [of_decide_eq_true ha, of_decide_eq_true hb]
  · rw [List.drop_left' hlength]

theorem orders_descending (key : Student → Text) :
    Orders fun a b => strcmp (key a) (key b) > 0 := by
  refine ⟨fun a b h => ?_, fun a b c hab hbc => ?_⟩
  · have hpos := of_decide_eq_true h
    refine decide_eq_false ?_
    rw [strcmp_swap]
    omega
  · have hab := Int.not_lt.1 (of_decide_eq_false hab)
    have hbc := Int.not_lt.1 (of_decide_eq_false hbc)
    exact decide_eq_false (Int.not_lt.2 (strcmp_trans hab hbc))

/-- The sorts called ascending compare the other way round. -/
theorem orders_ascending (key : Student → Text) :
    Orders fun a b => strcmp (key a) (key b) < 0 := by
  have hflip : ∀ a b,
      decide (strcmp (key a) (key b) < 0) = decide (strcmp (key b) (key a) > 0) := by
    intro a b
    rw [strcmp_swap]
    exact decide_eq_decide.2 (by omega)
  obtain ⟨hasymm, htrans⟩ := orders_descending key
  refine ⟨fun a b h => ?_, fun a b c hab hbc => ?_⟩
  · rw [hflip] at h ⊢
    exact hasymm b a h
  · rw [hflip] at hab hbc ⊢
    exact htrans c b a hbc hab

theorem strcmp_of_eq {s t : Text} (h : s = t) : strcmp s t = 0 := by rw [h, strcmp_self]

theorem sorted_ascending (key : Student → Text) {n : ℕ} {data : List Student}
    (hn : n ≤ data.length) :
    Sorted (fun a b => strcmp (key a) (key b) < 0) key n data
      (bubbleSort (fun a b => strcmp (key a) (key b) < 0) data n) :=
  sorted_bubbleSort (orders_ascending key) (fun _ _ h => by rw [strcmp_of_eq h]; decide) hn

theorem sorted_descending (key : Student → Text) {n : ℕ} {data : List Student}
    (hn : n ≤ data.length) :
    Sorted (fun a b => strcmp (key a) (key b) > 0) key n data
      (bubbleSort (fun a b => strcmp (key a) (key b) > 0) data n) :=
  sorted_bubbleSort (orders_descending key) (fun _ _ h => by rw [strcmp_of_eq h]; decide) hn

/-- **The four sorts.** Each sorts the first `n` students by its own test. -/
theorem sorts_sorted {n : ℕ} {data : List Student} (hn : n ≤ data.length) :
    Sorted (fun a b => strcmp a.name b.name < 0) Student.name n data (sortByNameAscending data n) ∧
    Sorted (fun a b => strcmp a.name b.name > 0) Student.name n data (sortByNameDescending data n) ∧
    Sorted (fun a b => strcmp a.grade b.grade < 0) Student.grade n data
      (sortByGradeAscending data n) ∧
    Sorted (fun a b => strcmp a.grade b.grade > 0) Student.grade n data
      (sortByGradeDescending data n) :=
  ⟨sorted_ascending _ hn, sorted_descending _ hn, sorted_ascending _ hn, sorted_descending _ hn⟩

/-- Three students, of whom the first two are sorted. -/
theorem sorts_sorted_two :
    let data : List Student := [⟨['a'], ['x']⟩, ⟨['b'], ['y']⟩, ⟨['c'], ['z']⟩]
    Sorted (fun a b => strcmp a.name b.name < 0) Student.name 2 data (sortByNameAscending data 2) ∧
    Sorted (fun a b => strcmp a.name b.name > 0) Student.name 2 data (sortByNameDescending data 2) ∧
    Sorted (fun a b => strcmp a.grade b.grade < 0) Student.grade 2 data
      (sortByGradeAscending data 2) ∧
    Sorted (fun a b => strcmp a.grade b.grade > 0) Student.grade 2 data
      (sortByGradeDescending data 2) :=
  sorts_sorted (by decide)

/-! ## The menu -/

/-- What the child of `sortAll` prints for a choice of the menu, in this order; `none` is the
    `default` of the switch. -/
def sortedFor (choice : ℤ) (students : List Student) : Option (List Student) :=
  match choice with
  | 1 => some (sortByNameAscending students students.length)
  | 2 => some (sortByNameDescending students students.length)
  | 3 => some (sortByGradeAscending students students.length)
  | 4 => some (sortByGradeDescending students students.length)
  | _ => none

/-- The names are in non-decreasing order. -/
def NamesAscend (students : List Student) : Prop :=
  students.Pairwise fun a b => strcmp a.name b.name ≤ 0

/-- The names are in non-increasing order. -/
def NamesDescend (students : List Student) : Prop :=
  students.Pairwise fun a b => strcmp a.name b.name ≥ 0

/-- What is printed for the choice has the property. -/
def Prints (choice : ℤ) (students : List Student) (P : List Student → Prop) : Prop :=
  ∃ printed, sortedFor choice students = some printed ∧ P printed

/-- What the whole array is sorted into. -/
theorem Sorted.whole {swaps : Student → Student → Prop} {key : Student → Text}
    {data sorted : List Student} (h : Sorted swaps key data.length data sorted) :
    sorted.Perm data ∧ sorted.Pairwise fun a b => ¬ swaps a b := by
  obtain ⟨hperm, hordered, -, hrest⟩ := h
  rw [List.drop_length] at hrest
  have htake : sorted.take data.length = sorted :=
    List.take_of_length_le (List.drop_eq_nil_iff.1 hrest)
  rw [htake, List.take_length] at hperm
  rw [htake] at hordered
  exact ⟨hperm, hordered⟩

/-- Students in both directions at once have one name. -/
theorem names_eq_of_pairwise {students sorted : List Student} (hperm : sorted.Perm students)
    (hle : sorted.Pairwise fun a b => ¬ strcmp a.name b.name > 0)
    (hge : sorted.Pairwise fun a b => ¬ strcmp a.name b.name < 0) :
    ∀ a ∈ students, ∀ b ∈ students, a.name = b.name := by
  have heq : sorted.Pairwise fun a b => a.name = b.name := by
    refine (hle.and hge).imp ?_
    rintro a b ⟨hab, hba⟩
    exact eq_of_strcmp_eq_zero (by omega)
  have hflip : sorted.Pairwise (flip fun a b => a.name = b.name) := heq.imp fun h => h.symm
  intro a ha b hb
  exact List.Pairwise.forall_of_forall_of_flip (R := fun a b => a.name = b.name)
    (fun _ _ => rfl) heq hflip (hperm.mem_iff.2 ha) (hperm.mem_iff.2 hb)

/-- Students of one name are in any order. -/
theorem pairwise_of_names_eq {students sorted : List Student} (hperm : sorted.Perm students)
    (hall : ∀ a ∈ students, ∀ b ∈ students, a.name = b.name) {P : ℤ → Prop} (hP : P 0) :
    sorted.Pairwise fun a b => P (strcmp a.name b.name) := by
  refine List.pairwise_of_forall_mem_list fun a ha b hb => ?_
  rw [hall a (hperm.mem_iff.1 ha) b (hperm.mem_iff.1 hb), strcmp_self]
  exact hP

/-- **What the menu prints.** Option 1 prints the names ascending and option 2 descending exactly
    when all students have the same name: the function called ascending sorts descending, and the
    other way round. -/
theorem sortMenu_names_iff (students : List Student) :
    Prints 1 students NamesAscend ∧ Prints 2 students NamesDescend ↔
      ∀ a ∈ students, ∀ b ∈ students, a.name = b.name := by
  obtain ⟨hperm, hordered⟩ := (sorted_ascending Student.name (Nat.le_refl students.length)).whole
  obtain ⟨hperm', -⟩ := (sorted_descending Student.name (Nat.le_refl students.length)).whole
  constructor
  · rintro ⟨⟨printed, hprinted, hascend⟩, -⟩
    obtain rfl := Option.some.inj hprinted
    refine names_eq_of_pairwise hperm (List.Pairwise.imp ?_ hascend) hordered
    exact fun h => Int.not_lt.2 h
  · intro hall
    exact ⟨⟨_, rfl, pairwise_of_names_eq (P := (· ≤ 0)) hperm hall (Int.le_refl 0)⟩,
      ⟨_, rfl, pairwise_of_names_eq (P := (· ≥ 0)) hperm' hall (Int.le_refl 0)⟩⟩

/-- Option 1 prints `b` in front of `a`. -/
theorem sortMenu_names_not_always :
    ¬ ∀ students, Prints 1 students NamesAscend ∧ Prints 2 students NamesDescend := by
  intro hall
  obtain ⟨⟨printed, hprinted, hascend⟩, -⟩ := hall [⟨['a'], []⟩, ⟨['b'], []⟩]
  have hresult : sortedFor 1 [⟨['a'], []⟩, ⟨['b'], []⟩] = some [⟨['b'], []⟩, ⟨['a'], []⟩] := by
    decide
  rw [hresult] at hprinted
  obtain rfl := Option.some.inj hprinted
  exact absurd (List.rel_of_pairwise_cons hascend List.mem_cons_self) (by decide)

end SystemProgramming.Grades
