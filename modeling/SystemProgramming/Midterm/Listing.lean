import SystemProgramming.Midterm.CommandLoop

set_option autoImplicit false

/-! # The response to list

`list` puts its response together with `strcat`, name after name, in an array of 4096 bytes.
`buildResponse` is that loop, with `none` for a `strcat` behind the end of the array; it gives the
whole listing of the directory exactly as long as that fits (`buildResponse_eq`). In `list` the loop
stands as its result (`list_eq`). -/

namespace SystemProgramming.Server

open Handler

/-- `strcat` to a string in an array of this size, whose last element is for the terminator. -/
def strcat (size : ℕ) (s t : Text) : Option Text :=
  if s.length + t.length + 1 ≤ size then some (s ++ t) else none

theorem strcat_eq_some {size : ℕ} {s t r : Text} :
    strcat size s t = some r ↔ s.length + t.length + 1 ≤ size ∧ r = s ++ t := by
  rw [strcat, Option.ite_none_right_eq_some, Option.some.injEq, eq_comm (b := r)]

/-- The entries that `list` leaves out. -/
def isListed (name : Text) : Bool := name ≠ ".".toList ∧ name ≠ "..".toList

/-- The loop of `list` over what `readdir` delivers, with the response so far. -/
def listLoop : Text → List Text → Option Text
  | response, [] => some response
  | response, name :: names =>
      if isListed name then do
        let response ← strcat 4096 response name
        let response ← strcat 4096 response ['\n']
        listLoop response names
      else listLoop response names

/-- The response that `list` builds from the names of the directory. -/
def buildResponse (names : List Text) : Option Text := listLoop [] names

theorem listing_cons (name : Text) (names : List Text) :
    listing (name :: names) =
      (if isListed name then name ++ ['\n'] else []) ++ listing names := by
  unfold listing isListed
  rw [List.filter_cons]
  split <;> simp

/-- The loop appends the listing as long as it fits. -/
theorem listLoop_eq (names : List Text) {response : Text} (hfits : response.length + 1 ≤ 4096) :
    listLoop response names =
      if response.length + (listing names).length + 1 ≤ 4096 then some (response ++ listing names)
      else none := by
  induction names generalizing response with
  | nil => simp [listLoop, listing, hfits]
  | cons name names ih =>
      rw [listLoop, listing_cons]
      by_cases hlisted : isListed name = true
      · rw [if_pos hlisted, if_pos hlisted, List.length_append, List.length_append]
        by_cases hname : response.length + name.length + 2 ≤ 4096
        · have hfirst : strcat 4096 response name = some (response ++ name) :=
            strcat_eq_some.2 ⟨by omega, rfl⟩
          have hsecond :
              strcat 4096 (response ++ name) ['\n'] = some (response ++ name ++ ['\n']) :=
            strcat_eq_some.2 ⟨by rw [List.length_append, List.length_singleton]; omega, rfl⟩
          rw [hfirst]
          show (strcat 4096 (response ++ name) ['\n'] >>= fun response => listLoop response names) = _
          rw [hsecond]
          show listLoop (response ++ name ++ ['\n']) names = _
          rw [ih (by simp only [List.length_append, List.length_singleton]; omega)]
          simp only [List.length_append, List.length_singleton, List.append_assoc, ← Nat.add_assoc]
        · rw [if_neg (by simp only [List.length_singleton]; omega)]
          -- one of the two calls does not fit
          refine Option.bind_eq_none_iff.2 fun r hr => Option.bind_eq_none_iff.2 fun r' hr' => ?_
          obtain ⟨-, rfl⟩ := strcat_eq_some.1 hr
          obtain ⟨hlong, -⟩ := strcat_eq_some.1 hr'
          rw [List.length_append, List.length_singleton] at hlong
          omega
      · rw [if_neg hlisted, if_neg hlisted, List.nil_append]
        exact ih hfits

theorem buildResponse_eq (names : List Text) :
    buildResponse names = if (listing names).length < 4096 then some (listing names) else none := by
  rw [buildResponse, listLoop_eq names (by decide), List.length_nil, Nat.zero_add, List.nil_append]
  rfl

/-- In `list`, the loop stands as its result. -/
theorem list_eq : list = (do
    let clientFd ← files (openClient .plain [])
    match ← readServerDir with
    | none => files (respond "Error opening server directory.\n" true)
    | some names =>
        match buildResponse names with
        | none => Prog.undefined
        | some response =>
            files (sendBytes clientFd (response ++ [nul]) [clientFd] true)
            files (close clientFd)) := by
  unfold list
  refine congrArg _ (funext fun clientFd => congrArg _ (funext fun names => ?_))
  cases names with
  | none => rfl
  | some names =>
      dsimp only
      rw [buildResponse_eq]
      by_cases hfits : (listing names).length < 4096
      · rw [if_pos hfits, if_pos hfits]
      · rw [if_neg hfits, if_neg hfits]

/-- The bytes that the entries of a directory take in the response. -/
def listedBytes : List Text → ℕ
  | [] => 0
  | name :: names => (if isListed name then name.length + 1 else 0) + listedBytes names

theorem length_listing (names : List Text) : (listing names).length = listedBytes names := by
  induction names with
  | nil => rfl
  | cons name names ih =>
      rw [listing_cons, List.length_append, ih, listedBytes]
      split
      · rw [List.length_append, List.length_singleton]
      · rw [List.length_nil]

/-- **What `list` can send.** The response is the names of the directory, each with a newline, and
    fits its array with its terminator, exactly when the names with their newlines take at most 4095
    bytes. -/
theorem list_response_iff (names : List Text) :
    (∃ response, buildResponse names = some response ∧ response.length + 1 ≤ 4096 ∧
      response = (names.filter isListed).flatMap (· ++ ['\n'])) ↔ listedBytes names ≤ 4095 := by
  have hlisting : (names.filter isListed).flatMap (· ++ ['\n']) = listing names := rfl
  rw [hlisting, buildResponse_eq, ← length_listing]
  constructor
  · rintro ⟨response, hbuild, hlength, rfl⟩
    omega
  · intro hfits
    exact ⟨listing names, if_pos (by omega), by omega, rfl⟩

/-- Sixteen names of 255 characters, as a file system allows them. -/
def longNames : List Text :=
  (List.range 16).map fun k => Char.ofNat ('a'.toNat + k) :: List.replicate 254 'x'

theorem list_response_not_always :
    ¬ ∀ names, ∃ response, buildResponse names = some response ∧ response.length + 1 ≤ 4096 ∧
      response = (names.filter isListed).flatMap (· ++ ['\n']) := by
  intro hall
  obtain ⟨response, hbuild, -⟩ := hall longNames
  have hlong : ¬ (listing longNames).length < 4096 := by
    rw [length_listing]
    decide +kernel
  rw [buildResponse_eq, if_neg hlong] at hbuild
  cases hbuild

end SystemProgramming.Server
