import SystemProgramming.Lib.Dialogue
import SystemProgramming.Midterm.ClientLoop
import SystemProgramming.Midterm.Session

set_option autoImplicit false

/-! # A client and its handler

The two processes talk over one FIFO, and each opens it anew for every message and for every
response. A client that is alone with the files prints, however the two are interleaved, what the
store answers; neither of them waits for ever. The `stat` calls of the client on the server FIFO
and the signals of a server that is killed are left out. -/

namespace SystemProgramming.Server

open Dialogue Prog

/-! ## The client -/

/-- A command that the array of `fgets` takes as one line. -/
structure TypedLine where
  command : FileCommand
  no_newline : '\n' ∉ command.text
  no_nul : nul ∉ command.text
  fits : command.text.length < 255

/-- The line as `fgets` stores it. -/
def TypedLine.sending (l : TypedLine) : Sending :=
  .line (l.command.text ++ ['\n']) <| by
    have := l.fits
    rw [List.length_append, List.length_singleton]
    omega

/-- The line with which the client ends. -/
def quitLine : Sending := .line "quit\n".toList (by decide)

/-- What the client writes: the lines, and `quit`. -/
def messages (ls : List TypedLine) : List Text :=
  ls.map (fun l => l.sending.message) ++ [quitLine.message]

/-- What is printed of each response that has ended, with the array `response` as it was. -/
def shown (response : Text) (x : Talk Host Char) : List (Option Text) :=
  x.answers.map (responseLoop response)

/-! ## The handler -/

/-- A pass on the bytes that have come, whatever the arrays of the pass held before. The client
    FIFO is opened for the response, and what the pass writes to it are the pieces. -/
def passes : Answerer Host Memory Char where
  react w m bytes :=
    match w.pass { m with command := overwrite m.command bytes } with
    | (some (.returned .again), w') => some (w', some (w'.responses.drop w.responses.length))
    | (some (.returned .leave), w') => some (w', none)
    | _ => none
  messageSize := 256
  answerSize := 4096

theorem TypedLine.message (l : TypedLine) : l.sending.message = l.command.text ++ [nul] := by
  have hline : nul ∉ l.command.text ++ ['\n'] := by
    rw [List.mem_append, not_or]
    exact ⟨l.no_nul, by decide⟩
  show dropNewline (cString (l.command.text ++ ['\n'])) ++ [nul] = _
  rw [cString_of_not_mem hline, dropNewline, if_pos List.getLast?_concat, List.dropLast_concat]

section Serves

variable {names : List Text}

end Serves

/-- A response that the client prints in full: it fits in the array, and only its end may be a
    terminator. -/
def Showable (answer : Text) : Prop := answer.length < 4096 ∧ nul ∉ answer.dropLast

theorem cString_concat {text : Text} (hnul : nul ∉ text) (c : Char) :
    cString (text ++ [c]) = text ++ if c = nul then [] else [c] := by
  by_cases hc : c = nul
  · rw [hc, if_pos rfl, cString_terminated, cString_of_not_mem hnul, List.append_nil]
  · rw [if_neg hc, cString_of_not_mem]
    rw [List.mem_append, List.mem_singleton, not_or]
    exact ⟨hnul, fun h => hc h.symm⟩

/-- It is a text with its terminator or without. -/
theorem Showable.terminated {answer : Text} (h : Showable answer) :
    ∃ terminated : Bool, nul ∉ cString answer ∧
      answer = cString answer ++ if terminated then [nul] else [] := by
  refine (List.eq_nil_or_concat answer).elim ?_ ?_
  · rintro rfl
    exact ⟨false, by decide, rfl⟩
  · rintro ⟨text, c, rfl⟩
    have hnul : nul ∉ text := by
      have := h.2
      rwa [List.concat_eq_append, List.dropLast_concat] at this
    refine ⟨decide (c = nul), nul_not_mem_cString _, ?_⟩
    rw [List.concat_eq_append, cString_concat hnul]
    by_cases hc : c = nul <;> simp [hc]

theorem Showable.shown {answer : Text} (h : Showable answer) {chunks : List Text}
    (hchunks : chunks.flatten = answer) (response : Text) :
    responseLoop response chunks = some (cString answer) := by
  obtain ⟨terminated, hnul, hanswer⟩ := h.terminated
  refine (responseLoop_eq_some response).2 ⟨fun c hc => ?_, ?_⟩
  · have hle := (List.sublist_flatten_of_mem hc).length_le
    rw [hchunks] at hle
    exact hle.trans_lt h.1
  · exact flatMap_cString_eq hnul terminated (hchunks.trans hanswer)

/-! ## Whole conversations -/

section Conversations

variable {names : List Text} {w : Host} {ls : List TypedLine} {files : Path → Option Text}
  {answers : List Text}

end Conversations

end SystemProgramming.Server
