import SystemProgramming.Midterm.Clients

set_option autoImplicit false

/-! # Clients that vanish

A client removes its FIFO when it is interrupted, at whatever point its request is. A Connect client
is never answered by the accept loop itself, and its disappearance is a matter for its handler. A
`tryConnect` client is answered by the loop, which opens the FIFO and, when it refuses, writes to
it: if the client has vanished by then, the open fails and the loop calls `exitFailure`, or the
write raises SIGPIPE.

`Present` is the condition on a statement of the loop, `Patient` the condition on the clients that
guarantees it. -/

namespace SystemProgramming.Server

open Function

/-- The server process has not ended because of the FIFO of a client. -/
def Survives (w : World) : Prop := w.ended ≠ some .clientFifo

/-- The client that a statement of the loop answers is there: its FIFO exists when the loop opens
    it, and it still has its end when the loop writes to it. -/
def Present (w : World) : WorldMove → Prop
  | .main _ =>
      (∀ c, w.server.pc = .opening c → w.fifo c.pid = true) ∧
      (∀ c, w.server.pc = .full c → c.tryConnect ≠ 0 →
        if w.refusing = none then w.fifo c.pid = true else w.reader = true)
  | _ => True

/-- The server process ends because of a FIFO exactly at a statement that answers a client that is
    not there. -/
theorem survives_turn {maxClients : ℤ} {w w' : World} {o : Outcome} (hsurvives : Survives w)
    (h : worldTurn maxClients w o = some w') : Survives w' ↔ Present w (.main o) := by
  unfold worldTurn at h
  split at h
  · next c hpc =>
      split at h
      · next hfifo =>
          obtain rfl := Option.some.inj h
          refine iff_of_true hsurvives ⟨?_, ?_⟩
          · intro c' hc'
            obtain rfl := AcceptPC.opening.inj (hpc.symm.trans hc')
            exact hfifo
          · intro c' hc'
            rw [hpc] at hc'
            cases hc'
      · next hfifo =>
          obtain rfl := Option.some.inj h
          refine iff_of_false (fun hs => hs rfl) ?_
          intro hpresent
          exact hfifo (hpresent.1 c hpc)
  · next c hpc =>
      have hpresent : Present w (.main o) := by
        constructor <;> intro c' hc' <;> rw [hpc] at hc' <;> cases hc'
      split at h
      · obtain rfl := Option.some.inj h
        exact iff_of_true hsurvives hpresent
      · obtain rfl := Option.some.inj h
        exact iff_of_true (by rintro ⟨⟩) hpresent
  · next c hpc =>
      -- a refusal opens the FIFO of the client, unless the descriptor of an earlier one is still there
      have hiff : Present w (.main o) ↔ (c.tryConnect ≠ 0 →
          if w.refusing = none then w.fifo c.pid = true else w.reader = true) := by
        constructor
        · intro hpresent
          exact hpresent.2 c hpc
        · intro hfull
          refine ⟨?_, ?_⟩
          · intro c' hc'
            rw [hpc] at hc'
            cases hc'
          · intro c' hc'
            obtain rfl := AcceptPC.full.inj (hpc.symm.trans hc')
            exact hfull
      rw [hiff]
      split at h
      · next hc =>
          obtain rfl := Option.some.inj h
          exact iff_of_true hsurvives fun hne => absurd hc hne
      · next hc =>
          split at h
          · next hnone =>
              rw [if_pos hnone]
              split at h
              · next hfifo =>
                  obtain rfl := Option.some.inj h
                  exact iff_of_true hsurvives fun _ => hfifo
              · next hfifo =>
                  obtain rfl := Option.some.inj h
                  exact iff_of_false (fun hs => hs rfl) fun hpresent => hfifo (hpresent hc)
          · next fd hsome =>
              rw [if_neg (by rw [hsome]; rintro ⟨⟩)]
              split at h
              · next hreader =>
                  obtain rfl := Option.some.inj h
                  exact iff_of_true hsurvives fun _ => hreader
              · next hreader =>
                  obtain rfl := Option.some.inj h
                  exact iff_of_false (fun hs => hs rfl) fun hpresent => hreader (hpresent hc)
  · next hopening hforking hfull =>
      obtain ⟨server, -, rfl⟩ := Option.map_eq_some_iff.1 h
      exact iff_of_true hsurvives
        ⟨fun c hc => absurd hc (hopening c), fun c hc => absurd hc (hfull c)⟩

/-- No other move ends the server process. -/
theorem ended_of_next {maxClients clientFd : ℤ} {w w' : World} {a : WorldMove}
    (ha : ∀ o, a ≠ .main o) (hnext : (worldMachine maxClients clientFd).next w a = some w') :
    w'.ended = w.ended := by
  cases a with
  | main o => exact absurd rfl (ha o)
  | read =>
      obtain ⟨-, h⟩ := Option.ite_none_right_eq_some.1 hnext
      obtain ⟨server, -, rfl⟩ := Option.map_eq_some_iff.1 h
      rfl
  | terminate i =>
      change (if h : i < w.server.running.length then _ else none) = some w' at hnext
      split at hnext
      · obtain ⟨server, -, rfl⟩ := Option.map_eq_some_iff.1 hnext
        rfl
      · cases hnext
  | deliver | handler =>
      obtain ⟨server, -, rfl⟩ := Option.map_eq_some_iff.1 hnext
      rfl
  | connect c =>
      obtain ⟨-, h⟩ := Option.ite_none_left_eq_some.1 hnext
      obtain rfl := Option.some.inj h
      rfl
  | vanish pid =>
      obtain rfl := Option.some.inj hnext
      rfl

theorem survives_step {maxClients clientFd : ℤ} {w w' : World} {a : WorldMove}
    (hsurvives : Survives w) (hnext : (worldMachine maxClients clientFd).next w a = some w') :
    Survives w' ↔ Present w a := by
  by_cases ha : ∃ o, a = .main o
  · obtain ⟨o, rfl⟩ := ha
    exact survives_turn hsurvives (Option.ite_none_right_eq_some.1 hnext).2
  · have hmove : ∀ o, a ≠ .main o := fun o heq => ha ⟨o, heq⟩
    have hpresent : Present w a := by
      cases a with
      | main o => exact absurd rfl (hmove o)
      | _ => trivial
    refine iff_of_true ?_ hpresent
    unfold Survives
    rw [ended_of_next hmove hnext]
    exact hsurvives

/-- **The server survives exactly while the clients it answers are there.** For every run, whoever
    connects and vanishes when: the server process never ends because of the FIFO of a client if and
    only if every `tryConnect` client is there when the loop opens its FIFO and when it writes to
    it. -/
theorem server_survives_iff {maxClients clientFd : ℤ} {w : World}
    (hinit : (worldMachine maxClients clientFd).init w) (moves : List WorldMove) :
    (worldMachine maxClients clientFd).Always Survives w moves ↔
      (worldMachine maxClients clientFd).EachStep Present w moves := by
  have hstart : Survives w := by
    obtain ⟨-, -, -, -, -, -, -, -, -, -, -, -, -, hended, -⟩ := hinit
    unfold Survives
    rw [hended]
    rintro ⟨⟩
  exact Machine.always_iff_eachStep (I := fun _ => True) (fun _ _ _ _ _ => trivial)
    (fun w a w' _ hsurvives hnext => survives_step hsurvives hnext) moves trivial hstart

/-! ## Clients that wait for their answer -/

/-- The client whose request the loop has read and not answered. -/
def AcceptPC.inHand : AcceptPC → Option Client
  | .testing c | .admitting c | .admitted c _ | .opening c | .full c => some c
  | _ => none

/-- A `tryConnect` client whose request is not answered yet. -/
def Unanswered (w : World) (c : Client) : Prop :=
  c.tryConnect ≠ 0 ∧ (c ∈ w.sent ∨ w.server.pc.inHand = some c)

/-- No `tryConnect` client vanishes before it has its answer. -/
def Patient (w : World) : WorldMove → Prop
  | .vanish pid => ∀ c, Unanswered w c → c.pid ≠ pid
  | _ => True

/-- While clients are patient, the loop finds every client that it answers. -/
structure PatientInv (w : World) : Prop where
  survives : Survives w
  fifo : ∀ c, Unanswered w c → w.fifo c.pid = true
  opening : ∀ c, w.server.pc = .opening c → c.tryConnect = 1
  reader : w.refusing ≠ none → w.reader = true ∧ ∃ c, w.server.pc = .full c ∧ c.tryConnect ≠ 0

theorem PatientInv.present {w : World} (h : PatientInv w) (o : Outcome) : Present w (.main o) := by
  constructor
  · intro c hpc
    have htry := h.opening c hpc
    exact h.fifo c ⟨by omega, .inr (by rw [hpc]; rfl)⟩
  · intro c hpc hc
    split
    · exact h.fifo c ⟨hc, .inr (by rw [hpc]; rfl)⟩
    · next hopen => exact (h.reader hopen).1

/-- A step that leaves the FIFOs alone and takes up no client but one that waits for its answer. -/
theorem PatientInv.goto {w w' : World} (h : PatientInv w) (hsurvives : Survives w')
    (hfifo : w'.fifo = w.fifo) (hunanswered : ∀ c, Unanswered w' c → Unanswered w c)
    (hopening : ∀ c, w'.server.pc = .opening c → c.tryConnect = 1)
    (hreader : w'.refusing ≠ none →
      w'.reader = true ∧ ∃ c, w'.server.pc = .full c ∧ c.tryConnect ≠ 0) : PatientInv w' := by
  refine ⟨hsurvives, ?_, hopening, hreader⟩
  intro c hc
  rw [hfifo]
  exact h.fifo c (hunanswered c hc)

theorem mainTurn_inHand {maxClients : ℤ} {s s' : ServerState} {memory : ℕ → Slot Client} {fd : ℕ}
    (h : mainTurn maxClients s memory fd = some s') :
    (∀ c, s'.pc.inHand = some c → s.pc.inHand = some c) ∧
      ((∀ c, s.pc = .opening c → c.tryConnect = 1) → ∀ c, s'.pc = .opening c → c.tryConnect = 1) := by
  cases serverStep_of_mainTurn h
  case storesAdmitted c value hpc =>
    rw [hpc]
    constructor
    · intro c' hin
      change (if c.tryConnect = 1 then AcceptPC.opening c else .forking c).inHand = some c' at hin
      split at hin
      · exact hin
      · cases hin
    · intro _ c' hopening
      change (if c.tryConnect = 1 then AcceptPC.opening c else .forking c) = .opening c' at hopening
      split at hopening
      · next htry =>
          obtain rfl := AcceptPC.opening.inj hopening
          exact htry
      · cases hopening
  case accepts c hpc _ _ | admits c hpc | declines c hpc =>
    rw [hpc]
    exact ⟨fun c' hin => hin, fun _ c' hopening => by cases hopening⟩
  all_goals exact ⟨(fun c' hin => by cases hin), fun _ c' hopening => by cases hopening⟩

theorem readTurn_inHand {s s' : ServerState} {request : Option Client}
    (h : readTurn s request = some s') :
    s.pc = .reading ∧ s'.pc.inHand = request ∧ ∀ c, s'.pc ≠ .opening c := by
  unfold readTurn at h
  split at h
  · next hpc =>
      obtain rfl := Option.some.inj h
      exact ⟨hpc, rfl, by rintro c ⟨⟩⟩
  · next c hpc =>
      obtain rfl := Option.some.inj h
      exact ⟨hpc, rfl, by rintro c ⟨⟩⟩
  · cases h

/-- No client is being refused outside the refusing branch. -/
theorem PatientInv.refusing {w : World} (h : PatientInv w)
    (hpc : ∀ c, w.server.pc = .full c → c.tryConnect = 0) : w.refusing = none := by
  by_contra hopen
  obtain ⟨-, c, hfull, hc⟩ := h.reader hopen
  exact hc (hpc c hfull)

theorem PatientInv.turn {maxClients : ℤ} {w w' : World} {o : Outcome} (h : PatientInv w)
    (hturn : worldTurn maxClients w o = some w') : PatientInv w' := by
  have hsurvives := (survives_turn h.survives hturn).2 (h.present o)
  have hpresent := h.present o
  -- the loop lets the client go
  have hdone : ∀ w', Survives w' → w'.fifo = w.fifo → w'.sent = w.sent →
      w'.server.pc.inHand = none → w'.refusing = none → PatientInv w' := by
    intro w' hs hfifo hsent hhand hrefusing
    refine h.goto hs hfifo ?_ ?_ (fun hopen => absurd hrefusing hopen)
    · rintro c ⟨hc, hin | hin⟩
      · exact ⟨hc, .inl (hsent ▸ hin)⟩
      · rw [hhand] at hin
        cases hin
    · intro c hpc
      rw [hpc] at hhand
      cases hhand
  unfold worldTurn at hturn
  split at hturn
  · next c hpc =>
      rw [if_pos (hpresent.1 c hpc)] at hturn
      obtain rfl := Option.some.inj hturn
      exact hdone _ hsurvives rfl rfl rfl
        (h.refusing fun c' hc' => by rw [hpc] at hc'; cases hc')
  · next c hpc =>
      have hrefusing := h.refusing fun c' hc' => by rw [hpc] at hc'; cases hc'
      split at hturn
      · obtain rfl := Option.some.inj hturn
        exact hdone _ hsurvives rfl rfl rfl hrefusing
      · obtain rfl := Option.some.inj hturn
        exact hdone _ hsurvives rfl rfl (by rw [hpc]; rfl) hrefusing
  · next c hpc =>
      split at hturn
      · next hc =>
          obtain rfl := Option.some.inj hturn
          refine hdone _ hsurvives rfl rfl rfl (h.refusing fun c' hc' => ?_)
          obtain rfl := AcceptPC.full.inj (hpc.symm.trans hc')
          exact hc
      · next hc =>
          split at hturn
          · next hnone =>
              have hfifo := hpresent.2 c hpc hc
              rw [if_pos hnone] at hfifo
              rw [if_pos hfifo] at hturn
              obtain rfl := Option.some.inj hturn
              exact h.goto hsurvives rfl (fun _ hun => hun) h.opening fun _ => ⟨rfl, c, hpc, hc⟩
          · next fd hsome =>
              have hreader := hpresent.2 c hpc hc
              rw [if_neg (by rw [hsome]; rintro ⟨⟩)] at hreader
              rw [if_pos hreader] at hturn
              obtain rfl := Option.some.inj hturn
              exact hdone _ hsurvives rfl rfl rfl rfl
  · next hopening hforking hfull =>
      obtain ⟨server, hserver, rfl⟩ := Option.map_eq_some_iff.1 hturn
      obtain ⟨hhand, hnext⟩ := mainTurn_inHand hserver
      refine h.goto hsurvives rfl ?_ (hnext h.opening) ?_
      · rintro c ⟨hc, hin | hin⟩
        · exact ⟨hc, .inl hin⟩
        · exact ⟨hc, .inr (hhand c hin)⟩
      · intro hopen
        exact absurd (h.refusing fun c hc => absurd hc (hfull c)) hopen

theorem PatientInv.step {maxClients clientFd : ℤ} {w w' : World} {a : WorldMove}
    (h : PatientInv w) (hpatient : Patient w a)
    (hnext : (worldMachine maxClients clientFd).next w a = some w') : PatientInv w' := by
  cases a with
  | main o => exact h.turn (Option.ite_none_right_eq_some.1 hnext).2
  | read =>
      obtain ⟨-, hread⟩ := Option.ite_none_right_eq_some.1 hnext
      obtain ⟨server, hserver, rfl⟩ := Option.map_eq_some_iff.1 hread
      obtain ⟨hreading, hhand, hopening⟩ := readTurn_inHand hserver
      have hrefusing := h.refusing fun c hc => by rw [hreading] at hc; cases hc
      refine h.goto h.survives rfl ?_ (fun c hc => absurd hc (hopening c))
        fun hopen => absurd hrefusing hopen
      rintro c ⟨hc, hin | hin⟩
      · exact ⟨hc, .inl (List.mem_of_mem_tail hin)⟩
      · exact ⟨hc, .inl (List.mem_of_mem_head? (hhand.symm.trans hin))⟩
  | terminate i =>
      change (if h : i < w.server.running.length then _ else none) = some w' at hnext
      split at hnext
      · obtain ⟨server, hserver, rfl⟩ := Option.map_eq_some_iff.1 hnext
        obtain ⟨-, hserver⟩ := Option.ite_none_right_eq_some.1 hserver
        obtain rfl := Option.some.inj hserver
        exact h.goto h.survives rfl (fun _ hun => hun) h.opening h.reader
      · cases hnext
  | deliver | handler =>
      obtain ⟨server, hserver, rfl⟩ := Option.map_eq_some_iff.1 hnext
      obtain ⟨-, hserver⟩ := Option.ite_none_right_eq_some.1 hserver
      obtain rfl := Option.some.inj hserver
      exact h.goto h.survives rfl (fun _ hun => hun) h.opening h.reader
  | connect c =>
      obtain ⟨-, hconnect⟩ := Option.ite_none_left_eq_some.1 hnext
      obtain rfl := Option.some.inj hconnect
      refine ⟨h.survives, ?_, h.opening, h.reader⟩
      intro c' hc'
      show update w.fifo c.pid true c'.pid = true
      by_cases hpid : c'.pid = c.pid
      · rw [hpid, update_self]
      · rw [update_of_ne hpid]
        obtain ⟨htry, hin | hin⟩ := hc'
        · rcases List.mem_append.1 hin with hin | hin
          · exact h.fifo c' ⟨htry, .inl hin⟩
          · exact absurd (congrArg Client.pid (List.mem_singleton.1 hin)) hpid
        · exact h.fifo c' ⟨htry, .inr hin⟩
  | vanish pid =>
      obtain rfl := Option.some.inj hnext
      refine ⟨h.survives, ?_, h.opening, ?_⟩
      · intro c hc
        show update w.fifo pid false c.pid = true
        rw [update_of_ne (hpatient c hc)]
        exact h.fifo c hc
      · intro hopen
        obtain ⟨hreader, c, hpc, hc⟩ := h.reader hopen
        have hother := hpatient c ⟨hc, .inr (by rw [hpc]; rfl)⟩
        refine ⟨?_, c, hpc, hc⟩
        show (w.reader && !w.server.pc.refuses pid) = true
        rw [hreader, hpc]
        simpa [AcceptPC.refuses] using hother

/-- As long as no `tryConnect` client vanishes before it has its answer, nothing that clients do
    ends the server process; Connect clients may vanish at any time. -/
theorem server_survives_patient {maxClients clientFd : ℤ} {w : World}
    (h : (worldMachine maxClients clientFd).ReachableUnder Patient w) :
    Survives w ∧ ∀ o, Present w (.main o) := by
  have hinv : PatientInv w := by
    refine h.invariant ?_ fun w a w' _ hw hpatient hnext => hw.step hpatient hnext
    rintro w ⟨-, hpc, -, -, -, -, -, -, -, -, -, -, hrefusing, hended, hsent, -, -⟩
    refine ⟨?_, ?_, ?_, fun hopen => absurd hrefusing hopen⟩
    · unfold Survives
      rw [hended]
      rintro ⟨⟩
    · rintro c ⟨-, hin | hin⟩
      · rw [hsent] at hin
        cases hin
      · rw [hpc] at hin
        cases hin
    · intro c hc
      rw [hpc] at hc
      cases hc
  exact ⟨hinv.survives, hinv.present⟩

/-- A client is admitted, and vanishes when it has its handler. -/
theorem server_survives_iff_admitted :
    (worldMachine 1 0).Always Survives startedWorld
      [.connect ⟨7, 1⟩, turn, .read, turn, turn, turn, turn, turn, .vanish 7] := by
  refine (server_survives_iff (startedWorld_init 1) _).2 ?_
  rintro w₁ ⟨⟩
  refine ⟨trivial, ?_⟩
  rintro w₂ ⟨⟩
  refine ⟨⟨by rintro c ⟨⟩, by rintro c ⟨⟩⟩, ?_⟩
  rintro w₃ ⟨⟩
  refine ⟨trivial, ?_⟩
  rintro w₄ ⟨⟩
  refine ⟨⟨by rintro c ⟨⟩, by rintro c ⟨⟩⟩, ?_⟩
  rintro w₅ ⟨⟩
  refine ⟨⟨by rintro c ⟨⟩, by rintro c ⟨⟩⟩, ?_⟩
  rintro w₆ ⟨⟩
  refine ⟨⟨by rintro c ⟨⟩, by rintro c ⟨⟩⟩, ?_⟩
  rintro w₇ ⟨⟩
  refine ⟨⟨by rintro c ⟨⟩; rfl, by rintro c ⟨⟩⟩, ?_⟩
  rintro w₈ ⟨⟩
  refine ⟨⟨by rintro c ⟨⟩, by rintro c ⟨⟩⟩, ?_⟩
  rintro w₉ ⟨⟩
  exact ⟨trivial, trivial⟩

/-- A `tryConnect` client vanishes after the loop has read its request: the open fails. -/
theorem server_not_always_survives :
    ¬ ∀ maxClients clientFd w, (worldMachine maxClients clientFd).Reachable w → Survives w := by
  intro hall
  obtain ⟨w, hw, hended⟩ : ∃ w, (worldMachine 1 0).exec startedWorld
      [.connect ⟨7, 1⟩, turn, .read, .vanish 7, turn, turn, turn, turn] = some w ∧
      w.ended = some .clientFifo := ⟨_, rfl, rfl⟩
  exact hall 1 0 w (Machine.Reachable.exec _ (.init (startedWorld_init 1)) hw) hended

end SystemProgramming.Server
