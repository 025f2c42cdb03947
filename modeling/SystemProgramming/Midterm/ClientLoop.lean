import SystemProgramming.Lib.Bytes
import SystemProgramming.Midterm.CommandLoop

set_option autoImplicit false

/-! # The command loop of a client

What `client.c` sends to its handler and what it makes of the response. The handler reads a command
into an array that still holds the one before, and takes the string at its start; the client reads a
response piece by piece, ends each piece with a NUL and prints it. -/

namespace SystemProgramming.Server

open Prog

/-! ## Commands -/

/-- What makes a client send a command: `fgets` has stored a line in `command`, or a signal has
    called `kill_child`. -/
inductive Sending
  | line (stored : Text) (h : stored.length < 256)
  | interrupt

/-- Remove the trailing newline character, if present. -/
def dropNewline (command : Text) : Text :=
  if command.getLast? = some '\n' then command.dropLast else command

/-- The string that the client sends. -/
def Sending.command : Sending → Text
  | .line stored _ => dropNewline (cString stored)
  | .interrupt => "quit".toList

/-- The bytes that the client writes; only the command loop includes the terminator. -/
def Sending.message : Sending → Text
  | .line stored _ => dropNewline (cString stored) ++ [nul]
  | .interrupt => "quit".toList

/-- The string in `command` of `request` after a `read` of at most 256 bytes. -/
def received (memory message : Text) : Text := cString (overwrite memory (message.take 256))

theorem dropNewline_sublist (command : Text) : (dropNewline command).Sublist command := by
  unfold dropNewline
  split
  · exact List.dropLast_sublist command
  · exact List.Sublist.refl command

theorem dropNewline_cString (stored : Text) : (dropNewline (cString stored)).Sublist stored :=
  (dropNewline_sublist _).trans (List.takeWhile_sublist _)

theorem received_terminated {command : Text} (hnul : nul ∉ command) (hlength : command.length < 256)
    (memory : Text) : received memory (command ++ [nul]) = command := by
  have hfits : (command ++ [nul]).take 256 = command ++ [nul] :=
    List.take_of_length_le (by simp; omega)
  rw [received, hfits, overwrite, List.append_assoc, cString, List.takeWhile_append_of_pos]
  · simp
  · intro c hc
    simp only [ne_eq, decide_eq_true_eq]
    rintro rfl
    exact hnul hc

theorem received_interrupt (memory : Text) :
    received memory "quit".toList = "quit".toList ++ cString (memory.drop 4) := by
  have hquit : nul ∉ "quit".toList := by decide
  rw [received, List.take_of_length_le (by decide), overwrite, cString,
    List.takeWhile_append_of_pos]
  · rfl
  · intro c hc
    simp only [ne_eq, decide_eq_true_eq]
    rintro rfl
    exact hquit hc

theorem cString_eq_nil {memory : Text} (hne : memory ≠ []) :
    cString memory = [] ↔ memory[0]? = some nul := by
  cases memory with
  | nil => exact absurd rfl hne
  | cons c memory =>
      by_cases hc : c = nul
      · simp [cString, hc]
      · simp [cString, hc]

/-- The handler may leave its loop on the command. -/
def Leaves (command : Text) (locals : Locals) : Prop :=
  ∃ path, Runs (dispatch command locals) path (.returned .leave)

/-- After any other command there is another pass. -/
theorem not_leaves_again {α : Type} {p : Requester α} {path : List (Event RequestCall RequestReply)} :
    ¬ Runs (p >>= fun _ => pure Next.again) path (.returned .leave) := by
  intro h
  obtain ⟨_, _, path', _, hrest, _⟩ := runs_bind_returned.1 h
  cases hrest

theorem leaves_iff (command : Text) (locals : Locals) :
    Leaves command locals ↔ command = "quit".toList := by
  constructor
  · rintro ⟨path, h⟩
    by_contra hquit
    unfold dispatch at h
    cases hhelp : helpResponse command with
    | some response =>
        rw [hhelp] at h
        exact not_leaves_again h
    | none =>
        simp only [hhelp, if_neg hquit] at h
        split at h
        · exact not_leaves_again h
        · split at h
          · exact not_leaves_again h
          · exact not_leaves_again h
  · rintro rfl
    exact ⟨[], .ret _⟩

/-- Whatever an array held before, the handler takes a line as it was sent. -/
theorem received_line (stored : Text) (h : stored.length < 256) (memory : Text) :
    received memory (Sending.line stored h).message = (Sending.line stored h).command := by
  have hnul : nul ∉ dropNewline (cString stored) := fun hc =>
    nul_not_mem_cString stored ((dropNewline_sublist _).mem hc)
  exact received_terminated hnul ((dropNewline_cString stored).length_le.trans_lt h) memory

/-- `quit` is sent without its terminator, so that what the array held behind it counts. -/
theorem received_quit_iff {memory : Text} (hmemory : memory.length = 256) :
    received memory Sending.interrupt.message = Sending.interrupt.command ↔
      memory[4]? = some nul := by
  have hne : memory.drop 4 ≠ [] := by
    rw [ne_eq, List.drop_eq_nil_iff]
    omega
  show received memory "quit".toList = "quit".toList ↔ _
  rw [received_interrupt, List.append_right_eq_self, cString_eq_nil hne, List.getElem?_drop]

/-! ## Responses -/

/-- The loop of `read` calls on the response: what it prints, or nothing once a terminator is stored
    outside the array `response` of 4096 elements, whose content is the first argument. -/
def responseLoop : Text → List Text → Option Text
  | _, [] => some []
  | response, chunk :: rest =>
      if chunk.length < 4096 then
        (responseLoop (List.replicate 4096 nul) rest).map
          (cString (overwrite response (chunk ++ [nul])) ++ ·)
      else none

theorem cString_terminated (chunk rest : Text) : cString (chunk ++ nul :: rest) = cString chunk := by
  unfold cString
  induction chunk with
  | nil => rfl
  | cons c chunk ih => rw [List.cons_append, List.takeWhile_cons, List.takeWhile_cons, ih]

theorem cString_overwrite (response chunk : Text) :
    cString (overwrite response (chunk ++ [nul])) = cString chunk := by
  rw [overwrite, List.append_assoc, List.singleton_append, cString_terminated]

/-- Every piece is printed up to its first NUL. -/
theorem responseLoop_eq_some (response : Text) {chunks : List Text} {printed : Text} :
    responseLoop response chunks = some printed ↔
      (∀ c ∈ chunks, c.length < 4096) ∧ chunks.flatMap cString = printed := by
  induction chunks generalizing response printed with
  | nil => simp [responseLoop]
  | cons chunk rest ih =>
      rw [responseLoop, cString_overwrite]
      by_cases hchunk : chunk.length < 4096
      · rw [if_pos hchunk, Option.map_eq_some_iff]
        simp only [ih, List.forall_mem_cons, hchunk, true_and, List.flatMap_cons]
        constructor
        · rintro ⟨printed', ⟨hrest, rfl⟩, rfl⟩
          exact ⟨hrest, rfl⟩
        · rintro ⟨hrest, rfl⟩
          exact ⟨_, ⟨hrest, rfl⟩, rfl⟩
      · simp [hchunk]

/-- A text without a NUL is the pieces printed one after the other; so it is when a terminator
    follows it. -/
theorem flatMap_cString_eq {text : Text} (hnul : nul ∉ text) (terminated : Bool)
    {chunks : List Text}
    (h : chunks.flatten = text ++ if terminated then [nul] else []) :
    chunks.flatMap cString = text := by
  induction chunks generalizing text with
  | nil =>
      rw [List.flatten_nil] at h
      exact (List.append_eq_nil_iff.1 h.symm).1.symm
  | cons chunk rest ih =>
      rw [List.flatten_cons] at h
      rw [List.flatMap_cons]
      obtain ⟨text', htext, hrest⟩ | ⟨extra, hchunk, hend⟩ := List.append_eq_append_iff.1 h
      · -- the piece is a first part of the text
        subst htext
        rw [List.mem_append, not_or] at hnul
        rw [cString_of_not_mem hnul.1,
          ih hnul.2 hrest]
      · -- the piece reaches into the terminator: nothing comes after it
        have hprinted : cString chunk = text := by
          rw [hchunk]
          cases terminated with
          | false =>
              obtain ⟨rfl, -⟩ := List.append_eq_nil_iff.1 hend.symm
              rw [List.append_nil, cString_of_not_mem hnul]
          | true =>
              cases extra with
              | nil => rw [List.append_nil, cString_of_not_mem hnul]
              | cons c extra =>
                  obtain ⟨rfl, -⟩ := List.cons.inj hend
                  rw [cString_terminated, cString_of_not_mem hnul]
        have hsilent : rest.flatMap cString = [] := by
          refine List.flatMap_eq_nil_iff.2 ?_
          intro c hc
          cases c with
          | nil => rfl
          | cons x c =>
              have hx : x ∈ extra ++ rest.flatten :=
                List.mem_append_right _ (List.mem_flatten.2 ⟨_, hc, List.mem_cons_self⟩)
              have hnul : x = nul := by
                rw [← hend] at hx
                cases terminated with
                | false => cases hx
                | true => exact List.mem_singleton.1 hx
              rw [hnul]
              rfl
        rw [hprinted, hsilent, List.append_nil]

/-- **What the client shows.** For every response, with its terminator or without, and every way in
    which the FIFO delivers it: the client stores inside its array and prints the response if and
    only if no `read` fills the array and the response has no NUL of its own. -/
theorem response_shown_iff {text : Text} {terminated : Bool} {result : Reads 4096}
    (h : result.chunks.flatten = text ++ if terminated then [nul] else []) (response : Text) :
    responseLoop response result.chunks = some text ↔
      (∀ c ∈ result.chunks, c.length ≠ 4096) ∧ nul ∉ text := by
  rw [responseLoop_eq_some]
  constructor
  · rintro ⟨hroom, hprinted⟩
    refine ⟨fun c hc => (hroom c hc).ne, fun hnul => ?_⟩
    rw [← hprinted] at hnul
    obtain ⟨c, -, hc⟩ := List.mem_flatMap.1 hnul
    exact nul_not_mem_cString c hc
  · rintro ⟨hroom, hnul⟩
    refine ⟨fun c hc => ?_, flatMap_cString_eq hnul terminated h⟩
    have hle := (result.chunk_size c hc).2
    have hne := hroom c hc
    omega

/-- The response to an unknown command, in two pieces. -/
theorem response_shown_pieces :
    responseLoop [] ["\ninvalid".toList, " command\n".toList ++ [nul]]
      = some "\ninvalid command\n".toList := by
  let result : Reads 4096 := ⟨["\ninvalid".toList, " command\n".toList ++ [nul]], false, by decide⟩
  have hsent : result.chunks.flatten
      = "\ninvalid command\n".toList ++ if true then [nul] else [] := rfl
  exact (response_shown_iff hsent []).2 (by decide)

/-- A file of 4096 characters, as `readF` sends it: one `read` fills the array. -/
theorem response_not_always_shown :
    ¬ ∀ (text : Text) (terminated : Bool) (result : Reads 4096),
      result.chunks.flatten = text ++ (if terminated then [nul] else []) →
      ∀ response, responseLoop response result.chunks = some text := by
  intro h
  have hfull : ∀ c ∈ [List.replicate 4096 'x'], c ≠ [] ∧ c.length ≤ 4096 := by
    intro c hc
    have hlength : c.length = 4096 := by rw [List.mem_singleton.1 hc, List.length_replicate]
    refine ⟨?_, hlength.le⟩
    rintro rfl
    cases hlength
  have hshown := h (List.replicate 4096 'x') false ⟨[List.replicate 4096 'x'], false, hfull⟩
    (by simp only [List.flatten_singleton, Bool.false_eq_true, if_false, List.append_nil]) []
  have hroom := ((responseLoop_eq_some []).1 hshown).1 _ List.mem_cons_self
  rw [List.length_replicate] at hroom
  omega

end SystemProgramming.Server
