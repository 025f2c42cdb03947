import SystemProgramming.Lib.Bytes
import SystemProgramming.Midterm.Paths

set_option autoImplicit false

/-! # What upload and download leave behind

The copies that `upload` and `download` make, call by call: `deliveryCalls` follows the destination
file, the descriptor that is open on it, and the response, and notes a read error before the end of
the source and a write that has not taken all its bytes. A transfer is all or nothing exactly when
neither has happened, or no response gets to the client. -/

namespace SystemProgramming.Server

open Prog Handler

/-! ## The destination under a transfer -/

/-- What a transfer has done so far. -/
structure Delivery where
  /-- the content of the destination, if there is such a file -/
  dest : Option Text
  /-- the descriptor that is open on the destination, and its offset -/
  writer : Option (ℕ × ℕ)
  created : Bool
  /-- a `read` has failed before the end of the source -/
  truncated : Bool
  /-- a `write` to the destination has not taken all its bytes -/
  short : Bool
  fifo : Option ℕ
  response : Option Text
  /-- the client FIFO could not be opened, or not be written to -/
  unsent : Bool

namespace Delivery

variable (s : Delivery)

/-- A `write` has answered `n`. -/
def write (fd : ℕ) (bytes : Text) (n : ℤ) : Delivery :=
  match s.writer with
  | some (fd', offset) =>
      if fd' = fd then
        let content := s.dest.getD []
        let accepted := bytes.take n.toNat
        { s with
          dest := some (content.take offset ++ overwrite (content.drop offset) accepted)
          writer := some (fd', offset + accepted.length)
          short := s.short || n ≠ bytes.length }
      else s
  | none =>
      if s.fifo = some fd then
        if n = -1 then { s with unsent := true } else { s with response := some bytes }
      else s

/-- A `close`. -/
def close (fd : ℕ) : Delivery :=
  { s with writer := if s.writer.map Prod.fst = some fd then none else s.writer }

end Delivery

/-- The calls of a transfer from a file with the content `source`. A loop of `read` calls delivers
    the source, or a first part of it and then an error; `access` and `O_EXCL` know whether the
    destination is there. -/
def deliveryCalls (source : Text) (destPath : Path) : Monitor Call Reply Delivery where
  step s e :=
    match e.call, e.reply with
    | .openWrite .clientFifo _, some fd => { s with fifo := some fd }
    | .openWrite .clientFifo _, none => { s with unsent := true }
    | .openWrite path _, some fd =>
        if path = destPath then
          { s with dest := some (s.dest.getD []), writer := some (fd, 0), created := true }
        else s
    | .reads _ _, result => { s with truncated := decide (result.chunks.flatten ≠ source) }
    | .write fd bytes, n => s.write fd bytes n
    | .close fd, _ => s.close fd
    | .unlink path, _ => if path = destPath then { s with dest := none } else s
    | _, _ => s
  possible s e :=
    match e.call, e.reply with
    | .openWrite path mode, some _ => path = destPath → mode = .exclusive → s.dest = none
    | .access path, found => path = destPath → found = s.dest.isSome
    | .reads _ _, result =>
        ∃ rest, source = result.chunks.flatten ++ rest ∧ (result.failed = false → rest = [])
    | .write _ bytes, n => n = (-1 : ℤ) ∨ ∃ k ≤ bytes.length, n = ((k : ℕ) : ℤ)
    | _, _ => True

/-! ## The two commands -/

/-- The two transfers. -/
inductive Transfer
  | upload
  | download
deriving DecidableEq

/-- The branch of the command. -/
def Transfer.handler : Transfer → Text → Handler Unit
  | .upload => Server.upload
  | .download => Server.download

/-- Where the file goes. -/
def Transfer.dest : Transfer → Text → Path
  | .upload => .serverFile
  | .download => .file

/-- The response of a transfer that has succeeded, up to the total. -/
def Transfer.opening : Transfer → String
  | .upload => "File uploaded successfully. Total bytes transferred: "
  | .download => "File downloaded successfully. Total bytes transferred: "

/-- The response to a transfer of so many bytes. -/
def Transfer.success (t : Transfer) (total : ℕ) : String := t.opening ++ toString total ++ "\n"

/-- If these bytes say that the transfer has succeeded, the destination is the source and the total
    is its length; if they say anything else, no destination is left that the transfer has
    created. -/
def Truthful (t : Transfer) (source : Text) (s : Delivery) (bytes : Text) : Prop :=
  ((∃ total, bytes = (t.success total).toList ++ [nul]) →
    s.dest = some source ∧ bytes = (t.success source.length).toList ++ [nul]) ∧
  ((∀ total, bytes ≠ (t.success total).toList ++ [nul]) → s.created = true → s.dest = none)

/-- Whatever response has been sent is the truth about the destination. -/
def AllOrNothing (t : Transfer) (source : Text) (s : Delivery) : Prop :=
  ∀ bytes, s.response = some bytes → Truthful t source s bytes

/-- No `read` has failed before the end of the source and every `write` to the destination has taken
    all its bytes, or no response could be sent. -/
def Smooth (s : Delivery) : Prop :=
  s.unsent = true ∨ s.truncated = false ∧ s.short = false

/-! ## Responses -/

/-- Literals are compared as lists of characters. -/
theorem take_literal_ne {n : ℕ} {a b : List Char} (h : a.take n ≠ b.take n) :
    (String.ofList a).toList.take n ≠ (String.ofList b).toList.take n := by
  rwa [String.toList_ofList, String.toList_ofList]

/-- The responses to errors are no success. -/
theorem success_ne (t : Transfer) {response : String}
    (h : response.toList.take 8 ≠ t.opening.toList.take 8) (total : ℕ) :
    response.toList ++ [nul] ≠ (t.success total).toList ++ [nul] := by
  have hsuccess : (t.success total).toList
      = t.opening.toList ++ ((toString total).toList ++ "\n".toList) := by
    rw [Transfer.success, String.toList_append, String.toList_append, List.append_assoc]
  have hlength : 8 ≤ t.opening.toList.length := by
    cases t <;> rw [Transfer.opening, String.toList_ofList] <;> decide
  intro heq
  refine h ?_
  rw [List.append_cancel_right heq, hsuccess, List.take_append_of_le_length hlength]

/-- A handler has answered with these bytes, or could not. -/
structure Answers (s : Delivery) (bytes : Text) (s' : Delivery) : Prop where
  dest : s'.dest = s.dest
  created : s'.created = s.created
  truncated : s'.truncated = s.truncated
  short : s'.short = s.short
  sent : s'.response = some bytes ∧ s'.unsent = s.unsent ∨
    s'.response = s.response ∧ s'.unsent = true

/-- The answer decides whether the transfer is all or nothing. -/
theorem Answers.settles {t : Transfer} {source bytes : Text} {s s' : Delivery}
    (h : Answers s bytes s') (hresponse : s.response = none) (hunsent : s.unsent = false)
    (htrue : Truthful t source s bytes ↔ s.truncated = false ∧ s.short = false) :
    AllOrNothing t source s' ↔ Smooth s' := by
  obtain ⟨hdest, hcreated, htruncated, hshort, hsent⟩ := h
  have hsame : Truthful t source s' bytes ↔ Truthful t source s bytes := by
    unfold Truthful
    rw [hdest, hcreated]
  unfold AllOrNothing Smooth
  rcases hsent with ⟨hsent, hflag⟩ | ⟨hsent, hflag⟩
  · rw [hsent, hflag, hunsent, htruncated, hshort]
    simp only [Option.some.injEq, forall_eq', Bool.false_eq_true, false_or]
    exact hsame.trans htrue
  · rw [hsent, hresponse, hflag]
    simp

/-- An answer before there is a destination. -/
theorem Answers.settles_early {t : Transfer} {source : Text} {response : String} {s s' : Delivery}
    (h : Answers s (response.toList ++ [nul]) s') (hresponse : s.response = none)
    (hunsent : s.unsent = false) (hcreated : s.created = false) (htruncated : s.truncated = false)
    (hshort : s.short = false)
    (herror : response.toList.take 8 ≠ t.opening.toList.take 8) :
    AllOrNothing t source s' ↔ Smooth s' := by
  refine h.settles hresponse hunsent (iff_of_true ⟨?_, ?_⟩ ⟨htruncated, hshort⟩)
  · rintro ⟨total, htotal⟩
    exact absurd htotal (success_ne t herror total)
  · intro _ hmade
    rw [hcreated] at hmade
    cases hmade

theorem close_eq {s : Delivery} (h : s.writer = none) (fd : ℕ) : s.close fd = s := by
  obtain ⟨dest, writer, created, truncated, short, fifo, response, unsent⟩ := s
  subst h
  rfl

section Rules

variable {source : Text} {destPath : Path} {s : Delivery} {β : Type} {Q : Monitor.Post Delivery β}

theorem wp_deliveryClose {fd : ℕ} {f : Unit → Handler β}
    (h : (deliveryCalls source destPath).wp Q (f ()) (s.close fd)) :
    (deliveryCalls source destPath).wp Q (close fd >>= f) s :=
  fun _ _ => h

theorem wp_deliveryCloseAll {fds : List ℕ} (hwriter : s.writer = none) {f : Unit → Handler β}
    (h : (deliveryCalls source destPath).wp Q (f ()) s) :
    (deliveryCalls source destPath).wp Q (closeAll fds >>= f) s := by
  induction fds with
  | nil => exact h
  | cons fd rest ih =>
      exact wp_deliveryClose (f := fun _ => closeAll rest >>= f)
        (Monitor.wp_of_eq (close_eq hwriter fd) ih)

theorem wp_openFifo {mode : WriteMode} {opened : List ℕ} {f : ℕ → Handler β}
    (hwriter : s.writer = none)
    (hopen : ∀ fd, (deliveryCalls source destPath).wp Q (f fd) { s with fifo := some fd })
    (hfailed : Q { s with unsent := true } .exited) :
    (deliveryCalls source destPath).wp Q (openClient mode opened >>= f) s := by
  intro (fd : Option ℕ) _
  cases fd with
  | some fd => exact hopen fd
  | none =>
      exact Monitor.wp_bind.2
        (wp_deliveryCloseAll (s := { s with unsent := true }) (f := fun _ => exitFailure) hwriter
          hfailed)

theorem wp_sendFifo (hpath : destPath ≠ .clientFifo) {fd : ℕ} {bytes : Text} {opened : List ℕ}
    {unlinks : Bool} {f : Unit → Handler β} (hwriter : s.writer = none) (hfd : s.fifo = some fd)
    (hsent : (deliveryCalls source destPath).wp Q (f ()) { s with response := some bytes })
    (hfailed : Q { s with unsent := true } .exited) :
    (deliveryCalls source destPath).wp Q (sendBytes fd bytes opened unlinks >>= f) s := by
  intro (n : ℤ) _
  have hwrite : (deliveryCalls source destPath).step s ⟨.write fd bytes, n⟩
      = if n = -1 then { s with unsent := true } else { s with response := some bytes } := by
    show s.write fd bytes n = _
    unfold Delivery.write
    rw [hwriter]
    exact if_pos hfd
  rw [hwrite]
  by_cases hn : n = -1
  · show Monitor.wp _ _ ((if n = -1 then _ else _) >>= f) _
    rw [if_pos hn, if_pos hn]
    refine Monitor.wp_bind.2 (wp_deliveryCloseAll (s := { s with unsent := true }) hwriter ?_)
    cases unlinks with
    | false => exact hfailed
    | true =>
        have hunlink : (deliveryCalls source destPath).step { s with unsent := true }
            ⟨.unlink .clientFifo, ()⟩ = { s with unsent := true } := if_neg hpath.symm
        exact fun _ _ => Monitor.wp_of_eq hunlink hfailed
  · show Monitor.wp _ _ ((if n = -1 then _ else _) >>= f) _
    rw [if_neg hn, if_neg hn]
    exact hsent

/-- The answer of a handler. -/
theorem wp_answer (hpath : destPath ≠ .clientFifo) (mode : WriteMode) (opened closed : List ℕ)
    (response : String) (unlinks : Bool) (hwriter : s.writer = none) :
    (deliveryCalls source destPath).wp
      (fun s' o => s'.writer = none ∧ Answers s (response.toList ++ [nul]) s' ∧ o ≠ .undefined)
      (do
        let clientFd ← openClient mode opened
        send clientFd response (clientFd :: closed) unlinks
        close clientFd) s := by
  refine wp_openFifo hwriter ?_ ⟨hwriter, ⟨rfl, rfl, rfl, rfl, .inr ⟨rfl, rfl⟩⟩, nofun⟩
  intro clientFd
  refine wp_sendFifo hpath hwriter rfl ?_ ⟨hwriter, ⟨rfl, rfl, rfl, rfl, .inr ⟨rfl, rfl⟩⟩, nofun⟩
  intro _ _
  refine Monitor.wp_of_eq (close_eq ?_ clientFd)
    ⟨hwriter, ⟨rfl, rfl, rfl, rfl, .inl ⟨rfl, rfl⟩⟩, nofun⟩
  exact hwriter

/-- A handler answers and goes on. -/
theorem wp_respond_then (hpath : destPath ≠ .clientFifo) {response : String} {unlinks : Bool}
    {f : Unit → Handler β} (hwriter : s.writer = none)
    (h : ∀ s', Answers s (response.toList ++ [nul]) s' →
      (deliveryCalls source destPath).wp Q (f ()) s')
    (hfailed : ∀ s', Answers s (response.toList ++ [nul]) s' → Q s' .exited) :
    (deliveryCalls source destPath).wp Q (respond response unlinks >>= f) s := by
  refine Monitor.wp_bind_of (wp_answer hpath .plain [] [] response unlinks hwriter) ?_ ?_ ?_
  · rintro s' _ ⟨-, hanswer, -⟩
    exact h s' hanswer
  · rintro s' ⟨-, hanswer, -⟩
    exact hfailed s' hanswer
  · rintro s' ⟨-, -, hend⟩
    exact absurd rfl hend

/-- A `write` of the loop. -/
theorem step_write {w chunk : Text} {toFd : ℕ} (hdest : s.dest = some w)
    (hwriter : s.writer = some (toFd, w.length)) (n : ℤ) :
    (deliveryCalls source destPath).step s ⟨.write toFd chunk, n⟩ =
      { s with
        dest := some (w ++ chunk.take n.toNat)
        writer := some (toFd, (w ++ chunk.take n.toNat).length)
        short := s.short || n ≠ chunk.length } := by
  show s.write toFd chunk n = _
  unfold Delivery.write
  rw [hwriter]
  simp [hdest, overwrite]

theorem close_close {toFd offset : ℕ} (hwriter : s.writer = some (toFd, offset)) (fromFd : ℕ) :
    (s.close fromFd).close toFd = { s with writer := none } := by
  unfold Delivery.close
  by_cases h : toFd = fromFd <;> simp [hwriter, h]

/-- The loop has come to the end of what has been read, or has answered that a write was short. -/
theorem wp_deliver (hpath : destPath ≠ .clientFifo) {toFd fromFd sfile : ℕ} {response : String}
    {release : LockOp} {f : Option ℕ → Handler β} {w : Text} {total : ℕ} {chunks : List Text}
    (hdest : s.dest = some w) (hwriter : s.writer = some (toFd, w.length)) (hshort : s.short = false)
    (hdone : (deliveryCalls source destPath).wp Q (f (some (total + chunks.flatten.length)))
      { s with
        dest := some (w ++ chunks.flatten)
        writer := some (toFd, (w ++ chunks.flatten).length) })
    (hbroken : ∀ s₁ s', s₁.dest ≠ none → s₁.created = s.created → s₁.short = true →
      s₁.response = s.response → s₁.unsent = s.unsent →
      Answers s₁ (response.toList ++ [nul]) s' →
      Q s' .exited ∧ (deliveryCalls source destPath).wp Q (f none) s') :
    (deliveryCalls source destPath).wp Q
      (transfer fromFd toFd sfile response release total chunks >>= f) s := by
  -- the destination holds `w`, and the writer is at its end
  induction chunks generalizing s w total with
  | nil =>
      simp only [List.flatten_nil, List.append_nil, List.length_nil, Nat.add_zero] at hdone
      have hsame : s = { s with dest := some w, writer := some (toFd, w.length) } := by
        rw [← hdest, ← hwriter]
      exact Monitor.wp_of_eq hsame hdone
  | cons chunk rest ih =>
      intro (n : ℤ) _
      refine Monitor.wp_of_eq (step_write hdest hwriter n) ?_
      by_cases hn : n = chunk.length
      · show Monitor.wp _ _ ((if n ≠ chunk.length then _ else _) >>= f) _
        rw [if_neg (not_not.2 hn)]
        have htaken : chunk.take n.toNat = chunk := by
          rw [hn, Int.toNat_natCast, List.take_length]
        have hwhole : (s.short || decide (n ≠ chunk.length)) = s.short := by simp [hn]
        rw [htaken, hwhole]
        refine ih rfl rfl hshort ?_ hbroken
        rw [List.flatten_cons, List.length_append, ← Nat.add_assoc, ← List.append_assoc] at hdone
        exact hdone
      · show Monitor.wp _ _ ((if n ≠ chunk.length then _ else _) >>= f) _
        rw [if_pos hn]
        -- a short write: the error is sent, and the part that was written stays
        let s₁ : Delivery := { s with
          dest := some (w ++ chunk.take n.toNat)
          writer := some (toFd, (w ++ chunk.take n.toNat).length)
          short := s.short || n ≠ chunk.length }
        have hclosed : ((s₁.close fromFd).close toFd).writer = none := by
          rw [close_close rfl]
        have hdest₁ : ((s₁.close fromFd).close toFd).dest ≠ none := by
          simp [s₁, Delivery.close]
        have hshort₁ : ((s₁.close fromFd).close toFd).short = true := by
          simp [s₁, Delivery.close, hn]
        refine Monitor.wp_bind.2 ?_
        intro _ _ _ _
        refine wp_respond_then (s := (s₁.close fromFd).close toFd) hpath (f := fun _ => do
          lock release sfile
          pure none) hclosed ?_ ?_
        · intro s' hs' _ _
          exact (hbroken _ s' hdest₁ rfl hshort₁ rfl rfl hs').2
        · intro s' hs'
          exact (hbroken _ s' hdest₁ rfl hshort₁ rfl rfl hs').1

end Rules

/-! ## The end of a transfer -/

/-- Nothing has happened yet but calls that do not matter. -/
structure Early (s : Delivery) : Prop where
  writer : s.writer = none
  created : s.created = false
  truncated : s.truncated = false
  short : s.short = false
  response : s.response = none
  unsent : s.unsent = false

/-- The transfer is all or nothing exactly when it has gone smoothly. -/
def Delivered (t : Transfer) (source : Text) (s : Delivery) : Prop :=
  AllOrNothing t source s ↔ Smooth s

section Ends

variable {t : Transfer} {source : Text} {destPath : Path} {s s' : Delivery}

theorem Early.delivered (h : Early s) : Delivered t source s := by
  refine iff_of_true ?_ (.inr ⟨h.truncated, h.short⟩)
  intro bytes hbytes
  rw [h.response] at hbytes
  cases hbytes

/-- An error before there is a destination. -/
theorem Early.wp_error (h : Early s) (hpath : destPath ≠ .clientFifo) {response : String}
    (hresponse : response.toList.take 8 ≠ t.opening.toList.take 8) (unlinks : Bool)
    {f : Unit → Handler Unit} (hf : ∀ s', (deliveryCalls source destPath).Still s' (f ())) :
    (deliveryCalls source destPath).wp (fun s' _ => Delivered t source s')
      (respond response unlinks >>= f) s := by
  have hend : ∀ s', Answers s (response.toList ++ [nul]) s' → Delivered t source s' :=
    fun s' hs' => hs'.settles_early h.response h.unsent h.created h.truncated h.short hresponse
  refine wp_respond_then hpath h.writer ?_ hend
  intro s' hs'
  refine Monitor.wp_mono (hf s') ?_
  rintro s'' o rfl
  exact hend _ hs'

/-- The success of a transfer that has written `w`. -/
theorem delivered_success {w : Text} (hdest : s.dest = some w)
    (htruncated : s.truncated = decide (w ≠ source)) (hshort : s.short = false)
    (hresponse : s.response = none) (hunsent : s.unsent = false)
    (h : Answers s ((t.success w.length).toList ++ [nul]) s') : Delivered t source s' := by
  refine h.settles hresponse hunsent ?_
  rw [htruncated]
  constructor
  · rintro ⟨hsuccess, -⟩
    have hsource := (hsuccess ⟨w.length, rfl⟩).1
    rw [hdest] at hsource
    exact ⟨decide_eq_false (not_not.2 (Option.some.inj hsource)), hshort⟩
  · rintro ⟨hw, -⟩
    obtain rfl : w = source := not_not.1 (of_decide_eq_false hw)
    exact ⟨fun _ => ⟨hdest, rfl⟩, fun h => absurd rfl (h w.length)⟩

/-- The error of a transfer that leaves a part of the destination. -/
theorem delivered_broken {response : String} (hdest : s.dest ≠ none) (hcreated : s.created = true)
    (hshort : s.short = true) (hresponse : s.response = none) (hunsent : s.unsent = false)
    (herror : response.toList.take 8 ≠ t.opening.toList.take 8)
    (h : Answers s (response.toList ++ [nul]) s') : Delivered t source s' := by
  refine h.settles hresponse hunsent (iff_of_false ?_ ?_)
  · rintro ⟨-, hleft⟩
    exact hdest (hleft (success_ne t herror) hcreated)
  · rintro ⟨-, hwhole⟩
    rw [hshort] at hwhole
    cases hwhole

theorem wp_success (hpath : destPath ≠ .clientFifo) {w : Text} (hwriter : s.writer = none)
    (hdest : s.dest = some w) (htruncated : s.truncated = decide (w ≠ source))
    (hshort : s.short = false) (hresponse : s.response = none) (hunsent : s.unsent = false) :
    (deliveryCalls source destPath).wp (fun s' _ => Delivered t source s')
      (respond (t.success w.length) true) s := by
  refine Monitor.wp_mono (wp_answer hpath .plain [] [] _ true hwriter) ?_
  rintro s' _ ⟨-, hanswer, -⟩
  exact delivered_success hdest htruncated hshort hresponse hunsent hanswer

end Ends

/-- A transfer to a destination that is there or not. -/
def startDelivery (dest : Option Text) : Delivery :=
  ⟨dest, none, false, false, false, none, none, false⟩

/-- The destination has been created and the source read. -/
def createdDelivery (fd : ℕ) (truncated : Prop) [Decidable truncated] : Delivery :=
  ⟨some [], some (fd, 0), true, truncated, false, none, none, false⟩

theorem early_start (dest : Option Text) : Early (startDelivery dest) :=
  ⟨rfl, rfl, rfl, rfl, rfl, rfl⟩

theorem upload_delivered {source rest name : Text} (hname : (strtok [' '] rest).1 = some name)
    (dest : Option Text) :
    (deliveryCalls source (.serverFile name)).wp (fun s _ => Delivered .upload source s)
      (Server.upload rest) (startDelivery dest) := by
  have hpath : Path.serverFile name ≠ .clientFifo := nofun
  have hearly := early_start dest
  unfold Server.upload
  rw [hname]
  refine (still_entry (fun _ => rfl) fun _ => rfl).wp_bind hearly.delivered fun sfile => ?_
  intro _ _ (file : Option ℕ) _
  cases file with
  | none =>
      refine hearly.wp_error hpath ?_ true fun s' _ _ => rfl
      exact take_literal_ne (by decide)
  | some fileToUpload =>
      intro (found : Bool) hfound
      cases found with
      | true =>
          -- the name is taken on the server, and its file is left as it is
          have hend : ∀ s', Answers (startDelivery dest)
              ("File already exists in the server's directory\n".toList ++ [nul]) s' →
              Delivered .upload source s' := by
            intro s' hs'
            refine hs'.settles_early rfl rfl rfl rfl rfl ?_
            exact take_literal_ne (by decide)
          refine wp_openFifo rfl ?_ (hend _ ⟨rfl, rfl, rfl, rfl, .inr ⟨rfl, rfl⟩⟩)
          intro clientFd
          refine wp_sendFifo hpath rfl rfl ?_ (hend _ ⟨rfl, rfl, rfl, rfl, .inr ⟨rfl, rfl⟩⟩)
          intro _ _ _ _ _ _
          exact hend _ ⟨rfl, rfl, rfl, rfl, .inl ⟨rfl, rfl⟩⟩
      | false =>
          have hmissing : dest = none := by
            have hisSome : false = dest.isSome := hfound rfl
            simpa using hisSome
          subst hmissing
          intro (file : Option ℕ) _
          cases file with
          | none =>
              intro _ _
              refine hearly.wp_error hpath ?_ true fun s' _ _ => rfl
              exact take_literal_ne (by decide)
          | some serverFile =>
              intro (result : Reads 4096) _
              have hread : (deliveryCalls source (.serverFile name)).step
                  ((deliveryCalls source (.serverFile name)).step (startDelivery none)
                    ⟨.openWrite (.serverFile name) .exclusive, some serverFile⟩)
                  ⟨.reads fileToUpload 4096, result⟩ =
                    createdDelivery serverFile (result.chunks.flatten ≠ source) := by
                simp [deliveryCalls, startDelivery, createdDelivery]
              refine Monitor.wp_of_eq hread ?_
              refine wp_deliver hpath rfl rfl rfl ?_ ?_
              · intro _ _ _ _ _ _
                rw [Nat.zero_add]
                refine Monitor.wp_of_eq (close_close rfl _) ?_
                exact wp_success hpath rfl rfl rfl rfl rfl rfl
              · intro s₁ s' hdest hcreated hshort hresponse hunsent hanswer
                have hend : Delivered .upload source s' := by
                  refine delivered_broken hdest hcreated hshort hresponse hunsent ?_ hanswer
                  exact take_literal_ne (by decide)
                exact ⟨hend, hend⟩

theorem download_delivered {source rest name : Text} (hname : (strtok [' '] rest).1 = some name)
    (dest : Option Text) :
    (deliveryCalls source (.file name)).wp (fun s _ => Delivered .download source s)
      (Server.download rest) (startDelivery dest) := by
  have hpath : Path.file name ≠ .clientFifo := nofun
  have hearly := early_start dest
  have herror : ∀ {response : String},
      response.toList.take 8 ≠ Transfer.download.opening.toList.take 8 →
      (deliveryCalls source (.file name)).wp (fun s _ => Delivered .download source s)
        (respond response true) (startDelivery dest) := fun hresponse =>
    Monitor.wp_bind_pure.1 (hearly.wp_error hpath hresponse true fun _ => rfl)
  unfold Server.download
  rw [hname]
  intro (found : Bool) _
  cases found with
  | false =>
      refine herror ?_
      exact take_literal_ne (by decide)
  | true =>
      intro (file : Option ℕ) _
      cases file with
      | none =>
          refine herror ?_
          exact take_literal_ne (by decide)
      | some serverFile =>
          intro (found : Bool) hfound
          cases found with
          | true =>
              refine herror ?_
              exact take_literal_ne (by decide)
          | false =>
              have hmissing : dest = none := by
                have hisSome : false = dest.isSome := hfound rfl
                simpa using hisSome
              subst hmissing
              refine (still_entry (fun _ => rfl) fun _ => rfl).wp_bind hearly.delivered
                fun sfile => ?_
              intro _ _ (file : Option ℕ) _
              cases file with
              | none =>
                  refine hearly.wp_error hpath ?_ true fun s' _ _ => rfl
                  exact take_literal_ne (by decide)
              | some newFileFd =>
                  intro (result : Reads 4096) _
                  have hread : (deliveryCalls source (.file name)).step
                      ((deliveryCalls source (.file name)).step (startDelivery none)
                        ⟨.openWrite (.file name) .create, some newFileFd⟩)
                      ⟨.reads serverFile 4096, result⟩ =
                        createdDelivery newFileFd (result.chunks.flatten ≠ source) := by
                    simp [deliveryCalls, startDelivery, createdDelivery]
                  refine Monitor.wp_of_eq hread ?_
                  refine wp_deliver hpath rfl rfl rfl ?_ ?_
                  · intro _ _ _ _ _ _
                    rw [Nat.zero_add]
                    refine Monitor.wp_of_eq (close_close rfl _) ?_
                    exact wp_success hpath rfl rfl rfl rfl rfl rfl
                  · intro s₁ s' hdest hcreated hshort hresponse hunsent hanswer
                    have hend : Delivered .download source s' := by
                      refine delivered_broken hdest hcreated hshort hresponse hunsent ?_ hanswer
                      exact take_literal_ne (by decide)
                    exact ⟨hend, hend⟩

/-- What a path of a transfer leaves. -/
def delivery (t : Transfer) (source name : Text) (dest : Option Text)
    (path : List (Event Call Reply)) : Delivery :=
  (deliveryCalls source (t.dest name)).run (startDelivery dest) path

/-- **A transfer is all or nothing exactly when it goes smoothly.** For every source, whatever the
    calls of `read` and `write` reply: what a transfer leaves is what it says, unless a `read` fails
    before the end of the source or a `write` is short, and the response to this gets through. -/
theorem all_or_nothing_iff (t : Transfer) {source rest name : Text}
    (hname : (strtok [' '] rest).1 = some name) (dest : Option Text)
    {path : List (Event Call Reply)} {o : SystemProgramming.Outcome Unit}
    (hrun : Runs (t.handler rest) path o)
    (hpath : (deliveryCalls source (t.dest name)).Accepts (startDelivery dest) path) :
    AllOrNothing t source (delivery t source name dest path) ↔
      Smooth (delivery t source name dest path) := by
  cases t with
  | upload => exact Monitor.wp_iff.1 (upload_delivered hname dest) path o hrun hpath
  | download => exact Monitor.wp_iff.1 (download_delivered hname dest) path o hrun hpath

/-- The calls of `upload f`, where `f` holds `ab`, after its `read` calls with their result. -/
def uploadPath (result : Reads 4096) (written : List (Event Call Reply)) (total : ℕ) :
    List (Event Call Reply) :=
  [⟨.getFile ['f'], some 0⟩, ⟨.lock .readerEnter 0, ()⟩, ⟨.openRead (.file ['f']), some 3⟩,
    ⟨.access (.serverFile ['f']), false⟩, ⟨.openWrite (.serverFile ['f']) .exclusive, some 4⟩,
    ⟨.reads 3 4096, result⟩] ++ written ++
  [⟨.close 3, ()⟩, ⟨.lock .readerExit 0, ()⟩, ⟨.close 4, ()⟩,
    ⟨.openWrite .clientFifo .plain, some 3⟩,
    ⟨.write 3 ((Transfer.upload.success total).toList ++ [nul]), (56 : ℤ)⟩, ⟨.close 3, ()⟩]

/-- All calls succeed. -/
theorem all_or_nothing_uploaded :
    AllOrNothing .upload "ab".toList (delivery .upload "ab".toList ['f'] none
      (uploadPath ⟨["ab".toList], false, by decide⟩ [⟨.write 4 "ab".toList, (2 : ℤ)⟩] 2)) := by
  have hname : (strtok [' '] ['f']).1 = some ['f'] := rfl
  have hrun : Runs (Transfer.upload.handler ['f'])
      (uploadPath ⟨["ab".toList], false, by decide⟩ [⟨.write 4 "ab".toList, (2 : ℤ)⟩] 2)
      (.returned ()) := Prog.runs_iff_follow.2 rfl
  refine (all_or_nothing_iff .upload hname none hrun ?_).2 (.inr ⟨rfl, rfl⟩)
  exact ⟨trivial, trivial, trivial, fun _ => rfl, fun _ _ => rfl, ⟨[], rfl, fun _ => rfl⟩,
    .inr ⟨2, by decide, rfl⟩, trivial, trivial, trivial, nofun, .inr ⟨56, by decide, rfl⟩, trivial,
    trivial⟩

/-- The first `read` fails: the upload succeeds all the same, with an empty file. -/
theorem not_always_all_or_nothing :
    ¬ ∀ (t : Transfer) (source rest name : Text) (dest : Option Text)
      (path : List (Event Call Reply)) (o : SystemProgramming.Outcome Unit),
      (strtok [' '] rest).1 = some name → Runs (t.handler rest) path o →
      (deliveryCalls source (t.dest name)).Accepts (startDelivery dest) path →
      AllOrNothing t source (delivery t source name dest path) := by
  intro h
  have hall := h .upload "ab".toList ['f'] ['f'] none
    (uploadPath ⟨[], true, by decide⟩ [] 0) (.returned ()) rfl (Prog.runs_iff_follow.2 rfl)
    ⟨trivial, trivial, trivial, fun _ => rfl, fun _ _ => rfl, ⟨"ab".toList, rfl, nofun⟩, trivial,
      trivial, trivial, nofun, .inr ⟨56, by decide, rfl⟩, trivial, trivial⟩
  have hdest := ((hall _ rfl).1 ⟨0, rfl⟩).1
  cases hdest

end SystemProgramming.Server
