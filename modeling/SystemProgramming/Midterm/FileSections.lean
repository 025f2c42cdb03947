import SystemProgramming.Midterm.DownloadRace

set_option autoImplicit false

/-! # The sections of download and writeT

What the handlers of `download` and `writeT` without a line number do to the local file, call by
call: `localFile` follows the descriptor that is open for writing and its offset. On every path of a
handler, whatever fails, this is nothing or the section function of `DownloadRace`, and happens
under the writer lock. -/

namespace SystemProgramming.Server

open Prog Handler

/-! ## The file under one handler -/

/-- What a handler has done so far to the local file. -/
structure LocalFile where
  content : Option Text
  /-- the descriptor that is open for writing, and its offset; `none` is the end of the file -/
  writer : Option (ℕ × Option ℕ)
  /-- the handler is between `writer_enter` and `writer_exit` -/
  inside : Bool
  /-- the file was changed outside -/
  bare : Bool
  /-- `access` has not found the file -/
  missing : Bool
  /-- what the loop of `read` calls has delivered -/
  delivered : Text

namespace LocalFile

/-- The file is opened without `O_TRUNC`. -/
def openFor (file : LocalFile) (fd : ℕ) (mode : WriteMode) : LocalFile :=
  { file with
    content := some (file.content.getD [])
    writer := some (fd, if mode = .appendCreate then none else some 0)
    bare := file.bare || !file.inside }

/-- The bytes that `write` has accepted come to the offset. -/
def write (file : LocalFile) (fd : ℕ) (bytes : Text) (n : ℤ) : LocalFile :=
  let content := file.content.getD []
  let bytes := bytes.take n.toNat
  match file.writer with
  | none => file
  | some (fd', offset) =>
      if fd' = fd then
        { file with
          content := some (match offset with
            | none => content ++ bytes
            | some k => content.take k ++ overwrite (content.drop k) bytes)
          writer := some (fd, offset.map (· + bytes.length))
          bare := file.bare || !file.inside }
      else file

/-- `close`, or `fclose`. -/
def close (file : LocalFile) (fd : ℕ) : LocalFile :=
  if file.writer.map Prod.fst = some fd then { file with writer := none } else file

end LocalFile

/-- The calls of a handler on the file `name`. A `write` fails or accepts some of its bytes. -/
def localFile (name : Text) : Monitor Call Reply LocalFile where
  step file e :=
    match e.call, e.reply with
    | .lock .writerEnter _, _ => { file with inside := true }
    | .lock .writerExit _, _ => { file with inside := false }
    | .access (.file name'), found =>
        if name' = name then { file with missing := !found } else file
    | .reads _ _, result => { file with delivered := result.chunks.flatten }
    | .openWrite (.file name') mode, some fd => if name' = name then file.openFor fd mode else file
    | .write fd bytes, n => file.write fd bytes n
    | .close fd, _ => file.close fd
    | _, _ => file
  possible _ e :=
    match e.call, e.reply with
    | .write _ bytes, n => n = (-1 : ℤ) ∨ (0 : ℤ) < n ∨ bytes = []
    | _, _ => True

/-! ## The sections -/

section Sections

variable {name : Text} {file : LocalFile}

theorem localFile_answer (h : file.writer = none) (c : Call) (r : Reply c)
    (hc : c.isAnswer = true) : (localFile name).step file ⟨c, r⟩ = file := by
  cases c with
  | openWrite path mode =>
      cases path with
      | clientFifo => rfl
      | file name' => cases hc
      | serverFile name' => cases hc
  | write fd bytes => simp [localFile, LocalFile.write, h]
  | close fd => simp [localFile, LocalFile.close, h]
  | unlink path => rfl
  | _ => cases hc

/-- What a part of a handler that has no more to do with the file keeps. -/
structure SameFile (file file' : LocalFile) : Prop where
  content : file'.content = file.content
  bare : file'.bare = file.bare
  missing : file'.missing = file.missing
  delivered : file'.delivered = file.delivered

theorem SameFile.trans {file' file'' : LocalFile} (h : SameFile file file')
    (h' : SameFile file' file'') : SameFile file file'' :=
  ⟨h'.content.trans h.content, h'.bare.trans h.bare, h'.missing.trans h.missing,
    h'.delivered.trans h.delivered⟩

theorem sameFile_close (fd : ℕ) : SameFile file (file.close fd) := by
  unfold LocalFile.close
  split <;> exact ⟨rfl, rfl, rfl, rfl⟩

theorem close_writer {fd : ℕ} {offset : Option ℕ} (h : file.writer = some (fd, offset)) (fd' : ℕ) :
    ((file.close fd').close fd).writer = none := by
  unfold LocalFile.close
  by_cases hfd : fd = fd'
  · simp [h, hfd]
  · simp [h, hfd]

/-- The answer under the lock that ends a section. -/
theorem wp_answer_exit {α : Type} {a : α} {response : String} {unlinks : Bool} {entry : ℕ}
    (h : file.writer = none) :
    (localFile name).wp (fun file' o => SameFile file file' ∧ ∀ b, o = .returned b → b = a)
      (do
        respond response unlinks
        lock .writerExit entry
        pure a : Handler α) file := by
  refine Monitor.wp_bind_of (still_respond (localFile_answer h) .plain response unlinks) ?_ ?_ ?_
  · rintro file' _ rfl _ _
    refine ⟨⟨rfl, rfl, rfl, rfl⟩, ?_⟩
    rintro b ⟨⟩
    rfl
  · rintro file' rfl
    exact ⟨⟨rfl, rfl, rfl, rfl⟩, fun b hb => by cases hb⟩
  · rintro file' rfl
    exact ⟨⟨rfl, rfl, rfl, rfl⟩, fun b hb => by cases hb⟩

theorem wp_closeAll {Q : Monitor.Post LocalFile Unit} (fds : List ℕ) :
    (localFile name).wp Q (closeAll fds) file ↔
      Q (fds.foldl LocalFile.close file) (.returned ()) := by
  induction fds generalizing file with
  | nil => exact Iff.rfl
  | cons fd rest ih =>
      constructor
      · intro h
        exact ih.1 (h () trivial)
      · intro h _ _
        exact ih.2 h

/-- The loop of `download` writes what has been delivered behind what it has written before, or a
    first part of it. -/
theorem wp_transfer {old w : Text} {toFd : ℕ} (hcontent : file.content = some (overwrite old w))
    (hwriter : file.writer = some (toFd, some w.length)) (hinside : file.inside = true)
    (fromFd sfile : ℕ) (response : String) (total : ℕ) (chunks : List Text) :
    (localFile name).wp
      (fun file' o => file'.bare = file.bare ∧ file'.missing = file.missing ∧
        file'.delivered = file.delivered ∧
        (∃ n, file'.content = some (overwrite old (w ++ chunks.flatten.take n))) ∧
        ∀ sent, o = .returned (some sent) → ∃ offset, file'.writer = some (toFd, offset))
      (transfer fromFd toFd sfile response .writerExit total chunks) file := by
  -- the writer is at the end of `w`, which is what the chunks so far have left
  induction chunks generalizing w total file with
  | nil =>
      refine ⟨rfl, rfl, rfl, ⟨0, ?_⟩, fun _ _ => ⟨_, hwriter⟩⟩
      simpa using hcontent
  | cons chunk rest ih =>
      refine Monitor.wp_perform_bind.2 ?_
      intro (n : ℤ) _
      have hwrite : (localFile name).step file ⟨.write toFd chunk, n⟩ =
          { file with
            content := some (overwrite old (w ++ chunk.take n.toNat))
            writer := some (toFd, some (w ++ chunk.take n.toNat).length) } := by
        simp only [localFile, LocalFile.write, hwriter, hcontent, if_pos, Option.getD_some,
          overwrite_append, Option.map_some, List.length_append, hinside, Bool.not_true,
          Bool.or_false]
      obtain ⟨file₁, hstep, hcontent₁, hwriter₁, hinside₁, hbare₁, hmissing₁, hdelivered₁⟩ :
          ∃ file₁, (localFile name).step file ⟨.write toFd chunk, n⟩ = file₁ ∧
            file₁.content = some (overwrite old (w ++ chunk.take n.toNat)) ∧
            file₁.writer = some (toFd, some (w ++ chunk.take n.toNat).length) ∧
            file₁.inside = true ∧ file₁.bare = file.bare ∧ file₁.missing = file.missing ∧
            file₁.delivered = file.delivered :=
        ⟨_, hwrite, rfl, rfl, hinside, rfl, rfl, rfl⟩
      rw [hstep]
      by_cases hn : n = chunk.length
      · rw [if_neg (not_not.2 hn)]
        rw [hn, Int.toNat_natCast, List.take_length] at hcontent₁ hwriter₁
        refine Monitor.wp_mono (ih hcontent₁ hwriter₁ hinside₁ (total + chunk.length)) ?_
        rintro file' o ⟨hbare, hmissing, hdelivered, ⟨k, hk⟩, hopen⟩
        refine ⟨hbare.trans hbare₁, hmissing.trans hmissing₁, hdelivered.trans hdelivered₁,
          ⟨chunk.length + k, ?_⟩, hopen⟩
        rw [hk, List.flatten_cons, List.take_length_add_append, List.append_assoc]
      · rw [if_pos hn]
        refine Monitor.wp_bind.2 ((wp_closeAll _).2 ?_)
        refine Monitor.wp_mono (wp_answer_exit (close_writer hwriter₁ fromFd)) ?_
        rintro file' o ⟨hsame, hnone⟩
        have hclosed := (@sameFile_close file₁ fromFd).trans (sameFile_close toFd)
        have hend := hclosed.trans hsame
        refine ⟨hend.bare.trans hbare₁, hend.missing.trans hmissing₁,
          hend.delivered.trans hdelivered₁, ⟨min n.toNat chunk.length, ?_⟩, ?_⟩
        · rw [hend.content, hcontent₁, List.flatten_cons,
            List.take_append_of_le_length (Nat.min_le_right _ _), ← List.take_eq_take_min]
        · intro sent hsent
          cases hnone _ hsent

/-- The file as a handler finds it. -/
def untouched (content : Option Text) : LocalFile := ⟨content, none, false, false, false, []⟩

/-- Nothing has happened to the file, or a download that has found none has run its section on what
    the file of the server has delivered, under the writer lock. -/
def Downloaded (content : Option Text) (file : LocalFile) : Prop :=
  file.bare = false ∧ (file.content = content ∨
    file.missing = true ∧ ∃ w, file.content = (downloadSection file.delivered w content).2)

theorem SameFile.downloaded {content : Option Text} {file' : LocalFile} (h : SameFile file file')
    (hfile : Downloaded content file) : Downloaded content file' := by
  unfold Downloaded at hfile ⊢
  rw [h.bare, h.content, h.missing, h.delivered]
  exact hfile

theorem wp_respond_file {P : LocalFile → Prop} (hwriter : file.writer = none) (h : P file)
    (response : String) (unlinks : Bool) :
    (localFile name).wp (fun file' _ => P file') (respond response unlinks) file :=
  Monitor.wp_mono (still_respond (localFile_answer hwriter) .plain response unlinks)
    fun _ _ hs => hs ▸ h

/-- `download` once its local file is open and the file of the server has been read. -/
theorem wp_downloadOpen (content : Option Text) (serverFile newFileFd sfile : ℕ)
    (chunks : List Text) :
    (localFile name).wp (fun file _ => Downloaded content file)
      (do
        match ← transfer serverFile newFileFd sfile
            "Error occured while downloading the file.\n" .writerExit 0 chunks with
        | none => pure ()
        | some total =>
            close serverFile
            close newFileFd
            lock .writerExit sfile
            respond ("File downloaded successfully. Total bytes transferred: " ++
              toString total ++ "\n") true : Handler Unit)
      ⟨some (content.getD []), some (newFileFd, some 0), true, false, true, chunks.flatten⟩ := by
  let file₁ : LocalFile :=
    ⟨some (content.getD []), some (newFileFd, some 0), true, false, true, chunks.flatten⟩
  have htransfer := @wp_transfer name file₁ (content.getD []) [] newFileFd rfl rfl rfl serverFile
    sfile "Error occured while downloading the file.\n" 0 chunks
  have hdone : ∀ file, file.bare = file₁.bare → file.missing = file₁.missing →
      file.delivered = file₁.delivered →
      (∃ n, file.content = some (overwrite (content.getD []) ([] ++ chunks.flatten.take n))) →
      Downloaded content file := by
    rintro file hbare hmissing hdelivered ⟨n, hn⟩
    refine ⟨hbare, .inr ⟨hmissing, .bytes n true, ?_⟩⟩
    rw [hn, hdelivered]
    rfl
  refine Monitor.wp_bind_of htransfer ?_ ?_ ?_
  · rintro file total ⟨hbare, hmissing, hdelivered, hcontent, hopen⟩
    have hfile := hdone file hbare hmissing hdelivered hcontent
    cases total with
    | none => exact hfile
    | some total =>
        obtain ⟨offset, hwriter⟩ := hopen total rfl
        have hclosed := (@sameFile_close file serverFile).trans (sameFile_close newFileFd)
        refine Monitor.wp_perform_bind.2 fun _ _ => Monitor.wp_perform_bind.2
          fun _ _ => Monitor.wp_perform_bind.2 fun _ _ => ?_
        let file₂ : LocalFile := { (file.close serverFile).close newFileFd with inside := false }
        have hwriter₂ : file₂.writer = none := close_writer hwriter serverFile
        exact wp_respond_file hwriter₂ (hclosed.downloaded hfile) _ _
  · rintro file ⟨hbare, hmissing, hdelivered, hcontent, -⟩
    exact hdone file hbare hmissing hdelivered hcontent
  · rintro file ⟨hbare, hmissing, hdelivered, hcontent, -⟩
    exact hdone file hbare hmissing hdelivered hcontent

/-- What `download` does to the local file is nothing or `downloadSection`. -/
theorem download_section {rest : Text} (hname : (strtok [' '] rest).1 = some name)
    (content : Option Text) :
    (localFile name).wp (fun file _ => Downloaded content file) (download rest)
      (untouched content) := by
  unfold download
  rw [hname]
  have huntouched : ∀ missing, Downloaded content { untouched content with missing := missing } :=
    fun _ => ⟨rfl, .inl rfl⟩
  refine Monitor.wp_perform_bind.2 ?_
  intro (found : Bool) _
  cases found with
  | false => exact wp_respond_file rfl (huntouched false) _ _
  | true =>
      refine Monitor.wp_perform_bind.2 ?_
      intro (file : Option ℕ) _
      cases file with
      | none => exact wp_respond_file rfl (huntouched false) _ _
      | some serverFile =>
          refine Monitor.wp_perform_bind.2 ?_
          intro (found : Bool) _
          have hstep : (localFile name).step (untouched content) ⟨.access (.file name), found⟩
              = { untouched content with missing := !found } := if_pos rfl
          show (localFile name).wp _ _ ((localFile name).step (untouched content) _)
          rw [hstep]
          cases found with
          | true => exact wp_respond_file rfl (huntouched false) _ _
          | false =>
              refine (still_entry (fun _ => rfl) fun _ => rfl).wp_bind (huntouched true) fun sfile => ?_
              refine Monitor.wp_perform_bind.2 fun _ _ => Monitor.wp_perform_bind.2 ?_
              intro (file : Option ℕ) _
              cases file with
              | none =>
                  exact (still_respond (localFile_answer rfl) .plain _ _).wp_bind (huntouched true)
                    fun _ _ _ => huntouched true
              | some newFileFd =>
                  refine Monitor.wp_perform_bind.2 ?_
                  intro (result : Reads 4096) _
                  have hread : (localFile name).step ((localFile name).step
                      { untouched content with inside := true, missing := true }
                      ⟨.openWrite (.file name) .create, some newFileFd⟩)
                      ⟨.reads serverFile 4096, result⟩ = ⟨some (content.getD []),
                        some (newFileFd, some 0), true, false, true, result.chunks.flatten⟩ := by
                    simp [localFile, LocalFile.openFor, untouched]
                  exact Monitor.wp_of_eq hread (wp_downloadOpen content _ _ _ _)

/-- What `writeT` without a line number does to the local file is nothing or `appendSection`, under
    the writer lock. -/
def Appended (string : Text) (content : Option Text) (file : LocalFile) : Prop :=
  file.bare = false ∧
    (file.content = content ∨ ∃ w, file.content = (appendSection string w content).2)

theorem SameFile.appended {string : Text} {content : Option Text} {file' : LocalFile}
    (h : SameFile file file') (hfile : Appended string content file) :
    Appended string content file' := by
  unfold Appended at hfile ⊢
  rw [h.bare, h.content]
  exact hfile

/-- A section that fails. -/
theorem wp_failed_section {P : LocalFile → Prop} {fd : ℕ} {offset : Option ℕ}
    (hwriter : file.writer = some (fd, offset)) (hP : ∀ file', SameFile file file' → P file')
    (response : String) (unlinks : Bool) (sfile : ℕ) :
    (localFile name).wp (fun file' _ => P file')
      (do
        close fd
        respond response unlinks
        lock .writerExit sfile : Handler Unit) file := by
  have hclosed : (file.close fd).writer = none := by
    simp [LocalFile.close, hwriter]
  have hsame := @sameFile_close file fd
  refine Monitor.wp_perform_bind.2 fun _ _ => ?_
  refine (still_respond (localFile_answer hclosed) .plain _ _).wp_bind (hP _ hsame) ?_
  intro _ _ _
  exact hP _ ⟨hsame.content, hsame.bare, hsame.missing, hsame.delivered⟩

/-- `writeT` once it has written its string. -/
theorem wp_appendNewline (content : Option Text) (string : Text) (n fileFd sfile : ℕ) :
    (localFile name).wp (fun file _ => Appended string content file)
      (do
        if (← write fileFd ['\n']) = -1 then
          close fileFd
          respond "Error writing string into the file.\n" true
          lock .writerExit sfile
        else
          close fileFd
          lock .writerExit sfile
          let clientFd ← openClient .append []
          send clientFd "Succesfully written into the file.\n" [clientFd] true
          close clientFd : Handler Unit)
      ⟨some (content.getD [] ++ string.take n), some (fileFd, none), true, false, false, []⟩ := by
  let file₁ : LocalFile :=
    ⟨some (content.getD [] ++ string.take n), some (fileFd, none), true, false, false, []⟩
  refine Monitor.wp_perform_bind.2 ?_
  intro (k : ℤ) hpossible
  by_cases hk : k = -1
  · rw [if_pos hk]
    have hnewline : (localFile name).step file₁ ⟨.write fileFd ['\n'], k⟩ = file₁ := by
      simp [localFile, LocalFile.write, file₁, hk]
    refine Monitor.wp_of_eq hnewline (wp_failed_section rfl ?_ _ _ sfile)
    intro file' hsame
    refine hsame.appended ⟨rfl, .inr ⟨.bytes n false, ?_⟩⟩
    simp [file₁, appendSection]
  · rw [if_neg hk]
    -- a write of one byte is whole or fails
    have hone : List.take k.toNat ['\n'] = ['\n'] := by
      have hcases : k = -1 ∨ 0 < k ∨ ['\n'] = ([] : Text) := hpossible
      rcases hcases with h | h | h
      · exact absurd h hk
      · exact List.take_of_length_le (by simp; omega)
      · cases h
    let file₂ : LocalFile := ⟨some (content.getD [] ++ string.take n ++ ['\n']), none, false, false,
      false, []⟩
    have hclosed : (localFile name).step ((localFile name).step ((localFile name).step file₁
        ⟨.write fileFd ['\n'], k⟩) ⟨.close fileFd, ()⟩) ⟨.lock .writerExit sfile, ()⟩ = file₂ := by
      simp [localFile, LocalFile.write, LocalFile.close, file₁, file₂, hone]
    refine Monitor.wp_perform_bind.2 fun _ _ => Monitor.wp_perform_bind.2 fun _ _ => ?_
    refine Monitor.wp_of_eq hclosed ?_
    refine Monitor.wp_mono (still_respond (localFile_answer rfl) .append _ _) ?_
    rintro file o rfl
    exact ⟨rfl, .inr ⟨.bytes n true, rfl⟩⟩

theorem append_section (sfile : ℕ) (string : Text) (content : Option Text) :
    (localFile name).wp (fun file _ => Appended string content file)
      (appendString name sfile string) (untouched content) := by
  have huntouched : ∀ inside,
      Appended string content { untouched content with inside := inside } := fun _ => ⟨rfl, .inl rfl⟩
  refine Monitor.wp_perform_bind.2 fun _ _ => Monitor.wp_perform_bind.2 ?_
  intro (file : Option ℕ) _
  cases file with
  | none =>
      exact (still_respond (localFile_answer rfl) .plain _ _).wp_bind (huntouched true)
        fun _ _ _ => huntouched false
  | some fileFd =>
      refine Monitor.wp_perform_bind.2 ?_
      intro (n : ℤ) _
      have hwrite : (localFile name).step ((localFile name).step
          { untouched content with inside := true }
          ⟨.openWrite (.file name) .appendCreate, some fileFd⟩) ⟨.write fileFd string, n⟩
          = ⟨some (content.getD [] ++ string.take n.toNat), some (fileFd, none), true, false, false,
            []⟩ := by
        simp [localFile, LocalFile.openFor, LocalFile.write, untouched]
      refine Monitor.wp_of_eq hwrite ?_
      by_cases hn : n = -1
      · rw [if_pos hn]
        refine wp_failed_section rfl ?_ _ _ sfile
        intro file' hsame
        refine hsame.appended ⟨rfl, .inr ⟨.bytes n.toNat false, ?_⟩⟩
        simp [appendSection]
      · rw [if_neg hn]
        exact wp_appendNewline content string n.toNat fileFd sfile

end Sections

end SystemProgramming.Server
