import SystemProgramming.Midterm.HostRuns

set_option autoImplicit false

/-! # Replacing a line

What `writeT` with a line number makes of a file, in a host where nothing goes wrong. The loop
counts the pieces that `fgets` delivers, which are the lines as long as these fit in its buffer. -/

namespace SystemProgramming.Server

open Function Prog Sync Handler

/-! ## The loop over the pieces -/

section Pieces

variable {room k : ℕ} {ls : List Text} {s c l : Text}

end Pieces

/-! ## The command -/

/-- Lines without a NUL that fit are edited line by line. -/
theorem fits_of_short {k : ℕ} {content : Text} (hnul : nul ∉ content)
    (hshort : ∀ l ∈ (lines content).take (k + 1), l.length ≤ 4095) : Fits k content := by
  refine ⟨hshort, fun h => hnul ?_⟩
  obtain ⟨l, hl, hc⟩ := List.mem_flatten.1 h
  rw [← lines_flatten content]
  exact List.mem_flatten.2 ⟨l, List.mem_of_mem_eraseIdx hl, hc⟩

theorem returns_writeT_line {w : Host} {rest fileName content : Text} {locals : Locals}
    {lineNumber : ℤ} {string : Text} (hnumber : lineNumber ≠ -1)
    (hargs : writeTArgs rest locals = some ⟨fileName, lineNumber, some string⟩)
    (hready : ∀ role, w.Ready role fileName) (hcontent : w.files (.file fileName) = some content) :
    Returns Host.answer (writeT rest locals) w fun _ w' =>
      Edited w fileName (editLines lineNumber string content) w' := by
  have hcontent' : (w.located fileName).files (.file fileName) = some content := by
    rw [Host.located_files, hcontent]
  unfold writeT
  rw [hargs]
  refine (returns_bind_iff (hready .reader).runIn_fileEntry).2 ?_
  rw [if_neg hnumber]
  refine (returns_replaceString ((hready .reader).calm.located fileName) (fun role =>
    (hready role).enter) hcontent' lineNumber string).mono ?_
  rintro - w' ⟨hedited, -⟩
  unfold Edited at hedited ⊢
  rwa [Host.located_files, Host.located_responses] at hedited

theorem EditCommand.number_ne (c : EditCommand) : c.lineNumber ≠ -1 := by
  have hpos := c.positive
  omega

end SystemProgramming.Server
