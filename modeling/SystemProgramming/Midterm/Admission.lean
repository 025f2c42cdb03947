import Mathlib.Tactic.Linarith
import SystemProgramming.Midterm.Accept

set_option autoImplicit false

/-! # Admission order and client slots

`OrderInv` is about who gets a handler: the Connect clients handled, the client in the hands of the
loop and the clients waiting are the Connect requests read, in order. `SlotInv` is about how many:
`num_clients` counts the running handlers, the terminations that SIGCHLD still carries, the client
that is about to get its handler, every termination that found SIGCHLD pending, and every decrement
that the store of a `num_clients++` has overwritten. -/

namespace SystemProgramming.Server

namespace AcceptPC

/-- The client that is to be handled next. -/
def next : AcceptPC → List Client
  | counting c | counted c _ | admitting c | admitted c _ | opening c | forking c => [c]
  | _ => []

/-- The client that was read last and not decided on. -/
def last : AcceptPC → List Client
  | testing c | full c => [c]
  | _ => []

/-- The slot of a client that is counted and has no handler yet. -/
def slot : AcceptPC → ℕ
  | opening _ | forking _ => 1
  | _ => 0

/-- `num_clients++` is next. -/
def isCounting : AcceptPC → Bool
  | counting _ | admitting _ => true
  | _ => false

/-- What `num_clients++` has loaded and not yet stored. -/
def loaded : AcceptPC → Option ℤ
  | counted _ value | admitted _ value => some value
  | _ => none

end AcceptPC

/-! ## The order of the clients -/

/-- The Connect requests read are handled, waiting, or in the hands of the loop. -/
structure OrderInv (s : ServerState) (waiting : List Client) : Prop where
  holds : Holds s.waitQue waiting
  connect : ∀ c ∈ waiting, c.tryConnect = 0
  order : s.handled ++ connects s.pc.next ++ waiting ++ connects s.pc.last = s.requested
  clientFd : s.clientFd ≠ -1

theorem connects_of_connect {c : Client} (h : c.tryConnect = 0) : connects [c] = [c] := by
  simp [connects, h]

theorem connects_of_tryConnect {c : Client} (h : c.tryConnect ≠ 0) : connects [c] = [] := by
  simp [connects, h]

theorem OrderInv.step {maxClients : ℤ} {s s' : ServerState} {a : ServerMove}
    {waiting : List Client} (h : OrderInv s waiting) (hstep : ServerStep maxClients s a s') :
    ∃ waiting', OrderInv s' waiting' := by
  obtain ⟨hholds, hconnect, horder, hfd⟩ := h
  have hdequeue := dequeue_spec hholds
  cases hstep with
  | dequeues c waitQue hpc hroom hd =>
      rw [hpc] at horder
      cases waiting with
      | nil =>
          rw [hd] at hdequeue
          exact absurd (Prod.mk.inj hdequeue).1 nofun
      | cons x rest =>
          obtain ⟨que, hque, hrest⟩ := hdequeue
          obtain ⟨hx, rfl⟩ := Prod.mk.inj (hd.symm.trans hque)
          obtain rfl := Slot.client.inj hx
          refine ⟨rest, hrest, fun y hy => hconnect y (List.mem_cons_of_mem _ hy), ?_, hfd⟩
          show s.handled ++ connects [c] ++ rest ++ [] = s.requested
          rw [connects_of_connect (hconnect c List.mem_cons_self), ← horder]
          simp [AcceptPC.next, AcceptPC.last, connects]
  | dequeuesNull waitQue hpc hsize hd =>
      cases waiting with
      | nil => exact absurd hholds.size_eq hsize.ne'
      | cons x rest =>
          obtain ⟨que, hque, -⟩ := hdequeue
          exact absurd (Prod.mk.inj (hd.symm.trans hque)).1 nofun
  | reads c hpc =>
      rw [hpc] at horder
      refine ⟨waiting, hholds, hconnect, ?_, hfd⟩
      show s.handled ++ [] ++ waiting ++ connects [c] = s.requested ++ connects [c]
      rw [← horder]
      simp [AcceptPC.next, AcceptPC.last, connects]
  | accepts c hpc hroom hsize =>
      -- nobody waits, so the last request read is the next to be handled
      obtain rfl : waiting = [] := List.length_eq_zero_iff.1 (hholds.size_eq ▸ hsize)
      rw [hpc] at horder
      refine ⟨[], hholds, hconnect, ?_, hfd⟩
      rw [← horder]
      simp [AcceptPC.next, AcceptPC.last, connects]
  | forks c memory hpc =>
      rw [hpc] at horder
      refine ⟨waiting, hholds, hconnect, ?_, hfd⟩
      rw [← horder]
      simp [AcceptPC.next, AcceptPC.last, connects]
  | queues c memory hpc hc =>
      have hqueued := enqueue_spec hholds c (some memory) true
      rw [if_pos (enqueue_succeeds s.waitQue c memory)] at hqueued
      rw [hpc] at horder
      refine ⟨waiting ++ [c], hqueued, fun y hy => ?_, ?_, hfd⟩
      · rcases List.mem_append.1 hy with hy | hy
        · exact hconnect y hy
        · rwa [List.mem_singleton.1 hy]
      · show s.handled ++ [] ++ (waiting ++ [c]) ++ [] = s.requested
        rw [← connects_of_connect hc, ← horder]
        simp [AcceptPC.next, AcceptPC.last, connects]
  | refuses c fd hpc hc =>
      rw [hpc] at horder
      refine ⟨waiting, hholds, hconnect, ?_, by show (fd : ℤ) ≠ -1; omega⟩
      rw [← horder]
      simp only [AcceptPC.next, AcceptPC.last, connects_of_tryConnect hc]
      rfl
  | forgets c hpc hbad => exact absurd hbad hfd
  | opens c fd hpc =>
      rw [hpc] at horder
      exact ⟨waiting, hholds, hconnect, horder, by show (fd : ℤ) ≠ -1; omega⟩
  | storesAdmitted c value hpc =>
      rw [hpc] at horder
      refine ⟨waiting, hholds, hconnect, ?_, hfd⟩
      show s.handled ++ connects (if c.tryConnect = 1 then AcceptPC.opening c else .forking c).next ++
        waiting ++ connects (if c.tryConnect = 1 then AcceptPC.opening c else .forking c).last
          = s.requested
      rw [← horder]
      split <;> rfl
  | passes hpc | readsNothing hpc | counts c hpc | stores c value hpc | admits c hpc
  | declines c hpc =>
      rw [hpc] at horder
      exact ⟨waiting, hholds, hconnect, horder, hfd⟩
  | terminates | delivers | handles => exact ⟨waiting, hholds, hconnect, horder, hfd⟩

theorem orderInv_reachable {maxClients : ℤ} {s : ServerState}
    (h : (acceptMachine maxClients).Reachable s) : ∃ waiting, OrderInv s waiting := by
  refine Machine.Reachable.invariant (I := fun s => ∃ waiting, OrderInv s waiting) ?_
    (fun s a s' _ ⟨waiting, hi⟩ hn => hi.step (serverStep_of_next hn)) h
  rintro s ⟨hpc, -, hque, -, hfd, -, -, -, hreq, hhandled, -⟩
  refine ⟨[], by rw [hque]; exact queueConstructor_holds, nofun, ?_, hfd⟩
  rw [hpc, hreq, hhandled]
  rfl

/-! ## The slots -/

/-- What `num_clients` counts. -/
structure SlotInv (maxClients : ℤ) (s : ServerState) : Prop where
  count : s.numClients =
    s.running.length + s.pending.toNat + s.handling.toNat + s.pc.slot + s.merged + s.overwritten
  le_max : s.numClients ≤ maxClients
  lt_max : s.pc.isCounting = true → s.numClients < maxClients
  loaded : ∀ value ∈ s.pc.loaded, s.numClients ≤ value ∧ value < maxClients
  overwritten : 0 ≤ s.overwritten

/-- The store of `num_clients++` counts the client, and overwrites what was taken off since the
    load. -/
theorem SlotInv.store {maxClients : ℤ} {s : ServerState} (h : SlotInv maxClients s) {value : ℤ}
    (hvalue : s.pc.loaded = some value) (hslot : s.pc.slot = 0) {pc : AcceptPC}
    (hpc : pc.slot = 1 ∧ pc.isCounting = false ∧ pc.loaded = none) :
    SlotInv maxClients { s.store value with pc := pc } := by
  obtain ⟨hslot', hcounting, hloaded⟩ := hpc
  obtain ⟨hle, hlt⟩ := h.loaded value hvalue
  have hcount := h.count
  have hoverwritten := h.overwritten
  refine ⟨?_, ?_, fun hc => ?_, fun v hv => ?_, ?_⟩
  · show value + 1 = s.running.length + s.pending.toNat + s.handling.toNat + pc.slot + s.merged +
      (s.overwritten + (value - s.numClients))
    rw [hslot']
    rw [hslot] at hcount
    push_cast at hcount ⊢
    omega
  · show value + 1 ≤ maxClients
    omega
  · rw [show ({ s.store value with pc := pc } : ServerState).pc = pc from rfl, hcounting] at hc
    cases hc
  · rw [show ({ s.store value with pc := pc } : ServerState).pc = pc from rfl, hloaded] at hv
    cases hv
  · show 0 ≤ s.overwritten + (value - s.numClients)
    omega

theorem SlotInv.step {maxClients : ℤ} {s s' : ServerState} {a : ServerMove}
    (h : SlotInv maxClients s) (hstep : ServerStep maxClients s a s') : SlotInv maxClients s' := by
  have hinv := h
  obtain ⟨hcount, hle, hlt, hloaded, hover⟩ := h
  cases hstep with
  | dequeues c waitQue hpc hroom hd =>
      rw [hpc] at hcount
      exact ⟨hcount, hle, fun _ => hroom, nofun, hover⟩
  | accepts c hpc hroom hsize =>
      rw [hpc] at hcount
      exact ⟨hcount, hle, fun _ => hroom, nofun, hover⟩
  | counts c hpc | admits c hpc =>
      have hroom := hlt (by rw [hpc]; rfl)
      rw [hpc] at hcount
      refine ⟨hcount, hle, nofun, fun value hvalue => ?_, hover⟩
      obtain rfl := Option.some.inj hvalue
      exact ⟨le_rfl, hroom⟩
  | stores c value hpc =>
      exact hinv.store (by rw [hpc]; rfl) (by rw [hpc]; rfl) ⟨rfl, rfl, rfl⟩
  | storesAdmitted c value hpc =>
      refine hinv.store (by rw [hpc]; rfl) (by rw [hpc]; rfl) ?_
      split <;> exact ⟨rfl, rfl, rfl⟩
  | forks c memory hpc =>
      rw [hpc] at hcount
      refine ⟨?_, hle, nofun, nofun, hover⟩
      simp only [AcceptPC.slot, List.length_append, List.length_singleton] at hcount ⊢
      omega
  | terminates i hi =>
      -- the handler that is gone is carried by SIGCHLD, or merged into the one that is pending
      refine ⟨?_, hle, hlt, hloaded, hover⟩
      simp only [List.length_eraseIdx_of_lt hi, Bool.toNat_true]
      have := Bool.toNat_le s.pending
      omega
  | delivers hp hh =>
      rw [hp, hh] at hcount
      exact ⟨by simpa using hcount, hle, hlt, hloaded, hover⟩
  | handles hh =>
      rw [hh] at hcount
      refine ⟨?_, by show s.numClients - 1 ≤ maxClients; omega, fun hc => ?_, fun value hvalue => ?_,
        hover⟩
      · simp only [Bool.toNat_true, Bool.toNat_false] at hcount ⊢
        omega
      · have := hlt hc
        show s.numClients - 1 < maxClients
        omega
      · obtain ⟨hle', hlt'⟩ := hloaded value hvalue
        show s.numClients - 1 ≤ value ∧ _
        exact ⟨by omega, hlt'⟩
  | dequeuesNull _ hpc | passes hpc | readsNothing hpc | reads c hpc | declines c hpc
  | forgets c hpc | opens c fd hpc | queues c memory hpc | refuses c fd hpc =>
      rw [hpc] at hcount
      exact ⟨hcount, hle, nofun, nofun, hover⟩

theorem slotInv_reachable {maxClients : ℤ} (hmax : 0 ≤ maxClients) {s : ServerState}
    (h : (acceptMachine maxClients).Reachable s) : SlotInv maxClients s := by
  refine h.invariant ?_ fun s a s' _ hi hn => hi.step (serverStep_of_next hn)
  rintro s ⟨hpc, hnum, -, -, -, hrun, hpend, hhand, -, -, hmerged, hover⟩
  refine ⟨?_, hnum ▸ hmax, by rw [hpc]; nofun, by rw [hpc]; nofun, hover.ge⟩
  rw [hpc, hnum, hrun, hpend, hhand, hmerged, hover]
  rfl

/-- **Admission is in order and bounded.** At the head of the loop the Connect clients given a
    handler, followed by the waiting clients from front to rear, are the Connect requests read; only
    Connect clients wait; and there are at most `num_clients` running handlers, and that is at most
    `max_clients`. -/
theorem admission_in_order {maxClients : ℤ} (hmax : 0 ≤ maxClients) {s : ServerState}
    (h : (acceptMachine maxClients).Reachable s) :
    (∃ waiting, Holds s.waitQue waiting ∧ (∀ c ∈ waiting, c.tryConnect = 0) ∧
      (s.pc = .head → s.handled ++ waiting = s.requested)) ∧
    (s.running.length : ℤ) ≤ s.numClients ∧ s.numClients ≤ maxClients := by
  obtain ⟨waiting, horder⟩ := orderInv_reachable h
  have hslots := slotInv_reachable hmax h
  refine ⟨⟨waiting, horder.holds, horder.connect, fun hpc => ?_⟩, ?_, hslots.le_max⟩
  · have := horder.order
    rw [hpc] at this
    simpa [AcceptPC.next, AcceptPC.last, connects] using this
  · have hcount := hslots.count
    have hover := hslots.overwritten
    omega

/-- The moves of the loop that serve a Connect request for which there is room. -/
def serve (pid : ℤ) : List ServerMove :=
  [.main (fun _ => .junk) 0, .read (some ⟨pid, 0⟩), .main (fun _ => .junk) 0,
    .main (fun _ => .junk) 0, .main (fun _ => .junk) 0, .main (fun _ => .junk) 0]

/-- One slot: client 7 has its handler, client 8 waits. -/
theorem admission_in_order_waiting : ∃ s, (acceptMachine 1).Reachable s ∧ s.waitQue.size = 1 ∧
    (∃ waiting, Holds s.waitQue waiting ∧ (∀ c ∈ waiting, c.tryConnect = 0) ∧
      (s.pc = .head → s.handled ++ waiting = s.requested)) ∧
    (s.running.length : ℤ) ≤ s.numClients ∧ s.numClients ≤ 1 := by
  obtain ⟨s, hs, hsize⟩ : ∃ s, (acceptMachine 1).exec startedServer (serve 7 ++
      [.main (fun _ => .junk) 0, .read (some ⟨8, 0⟩), .main (fun _ => .junk) 0,
        .main (fun _ => .junk) 0]) = some s ∧ s.waitQue.size = 1 := ⟨_, rfl, rfl⟩
  have hreach := Machine.Reachable.exec _ (.init (startedServer_init 1)) hs
  exact ⟨s, hreach, hsize, admission_in_order (by decide) hreach⟩

/-! ## Lost slots -/

/-- SIGCHLD is neither pending nor being handled. -/
def ServerState.Quiet (s : ServerState) : Prop := s.pending = false ∧ s.handling = false

/-- While SIGCHLD is quiet, `num_clients` counts the running handlers (and the client that is about
    to get its handler), so that a request is admitted whenever fewer than `max_clients` are served
    and nobody waits. -/
def SlotsKept (maxClients : ℤ) (s : ServerState) : Prop :=
  s.Quiet → s.numClients = s.running.length + s.pc.slot ∧
    ∀ c memory fd, s.pc = .testing c → s.running.length < maxClients → s.waitQue.size = 0 →
      (acceptMachine maxClients).next s (.main memory fd) = some { s with pc := .admitting c }

/-- A handler terminates only while SIGCHLD is not pending, and SIGCHLD is not handled between the
    load and the store of `num_clients++`. -/
def Counted (s : ServerState) : ServerMove → Prop
  | .terminate _ => s.pending = false
  | .handler => s.pc.loaded = none
  | _ => True

/-- In a quiet state exactly the merged terminations and the overwritten decrements are missing from
    the count. -/
theorem count_of_quiet {maxClients : ℤ} (hmax : 0 ≤ maxClients) {s : ServerState}
    (h : (acceptMachine maxClients).Reachable s) (hquiet : s.Quiet) :
    s.numClients = s.running.length + s.pc.slot + s.merged + s.overwritten := by
  have := (slotInv_reachable hmax h).count
  rw [hquiet.1, hquiet.2] at this
  simpa using this

/-- Where every termination is counted nothing is missing, and a `num_clients++` stores what it
    has found and one more. -/
structure CountedInv (s : ServerState) : Prop where
  merged : s.merged = 0
  overwritten : s.overwritten = 0
  loaded : ∀ value ∈ s.pc.loaded, s.numClients = value

theorem countedInv {maxClients : ℤ} {s : ServerState}
    (h : (acceptMachine maxClients).ReachableUnder Counted s) : CountedInv s := by
  refine Machine.ReachableUnder.invariant (I := CountedInv) (fun s hs => ?_)
    (fun s a s' _ hi hok hn => ?_) h
  · obtain ⟨hpc, -, -, -, -, -, -, -, -, -, hmerged, hover⟩ := hs
    exact ⟨hmerged, hover, by rw [hpc]; nofun⟩
  · obtain ⟨hmerged, hover, hloaded⟩ := hi
    have hstore : ∀ value, s.pc.loaded = some value →
        s.overwritten + (value - s.numClients) = 0 := by
      intro value hvalue
      rw [hover, hloaded value hvalue]
      omega
    cases serverStep_of_next hn with
    | terminates i =>
        have hpending : s.pending = false := hok
        refine ⟨?_, hover, hloaded⟩
        simp only [hpending, hmerged, Bool.toNat_false]
    | handles =>
        have hpc : s.pc.loaded = none := hok
        refine ⟨hmerged, hover, fun value hvalue => ?_⟩
        rw [show ({ s with numClients := s.numClients - 1, handling := false } : ServerState).pc
          = s.pc from rfl, hpc] at hvalue
        cases hvalue
    | delivers => exact ⟨hmerged, hover, hloaded⟩
    | counts c hpc | admits c hpc =>
        exact ⟨hmerged, hover, fun value hvalue => Option.some.inj hvalue⟩
    | stores c value hpc => exact ⟨hmerged, hstore value (by rw [hpc]; rfl), nofun⟩
    | storesAdmitted c value hpc =>
        refine ⟨hmerged, hstore value (by rw [hpc]; rfl), ?_⟩
        dsimp only
        split <;> nofun
    | _ => exact ⟨hmerged, hover, nofun⟩

/-- **No slot is lost** in a run in which no handler terminates while SIGCHLD is pending and no
    SIGCHLD is handled within `num_clients++`. -/
theorem slots_kept {maxClients : ℤ} (hmax : 0 ≤ maxClients) {s : ServerState}
    (h : (acceptMachine maxClients).ReachableUnder Counted s) : SlotsKept maxClients s := by
  intro hquiet
  have hcount := count_of_quiet hmax h.reachable hquiet
  have hcounted := countedInv h
  rw [hcounted.merged, hcounted.overwritten, Nat.cast_zero, add_zero, add_zero] at hcount
  refine ⟨hcount, fun c memory fd hpc hroom hsize => ?_⟩
  obtain ⟨waiting, horder⟩ := orderInv_reachable h.reachable
  have htest : s.numClients < maxClients ∧ s.waitQue.size = 0 := by
    rw [hcount, hpc]
    exact ⟨by simpa [AcceptPC.slot] using hroom, hsize⟩
  simp only [acceptMachine, mainTurn, hpc, hquiet.2]
  rw [if_neg Bool.false_ne_true, if_pos horder.clientFd, if_pos htest]

/-- Each merged termination and each overwritten decrement has cost a slot: in a quiet state the
    count is right only if there has never been one. -/
theorem slots_kept_iff {maxClients : ℤ} (hmax : 0 ≤ maxClients) {s : ServerState}
    (h : (acceptMachine maxClients).Reachable s) (hquiet : s.Quiet) :
    s.numClients = s.running.length + s.pc.slot ↔ s.merged = 0 ∧ s.overwritten = 0 := by
  have hcount := count_of_quiet hmax h hquiet
  have hover := (slotInv_reachable hmax h).overwritten
  omega

instance (s : ServerState) : (a : ServerMove) → Decidable (Counted s a)
  | .terminate _ | .handler => inferInstanceAs (Decidable (_ = _))
  | .main _ _ | .read _ | .deliver => inferInstanceAs (Decidable True)

/-- A client is served and its handler terminates alone. -/
theorem slots_kept_single : ∃ s, (acceptMachine 2).ReachableUnder Counted s ∧ s.handled = [⟨7, 0⟩] ∧
    s.running = [] ∧ SlotsKept 2 s := by
  obtain ⟨s, hs, hhandled, hrunning⟩ : ∃ s, (acceptMachine 2).execUnder Counted startedServer
      (serve 7 ++ [.terminate 0, .deliver, .handler]) = some s ∧ s.handled = [⟨7, 0⟩] ∧
      s.running = [] := ⟨_, rfl, rfl, rfl⟩
  have hreach := Machine.ReachableUnder.exec _ (.init (startedServer_init 2)) hs
  exact ⟨s, hreach, hhandled, hrunning, slots_kept (by decide) hreach⟩

/-- Two clients are served and their handlers terminate before SIGCHLD is delivered: one of the two
    slots is lost. -/
theorem slots_not_always_kept : ¬ ∀ maxClients s, 0 ≤ maxClients →
    (acceptMachine maxClients).Reachable s → SlotsKept maxClients s := by
  intro hall
  obtain ⟨s, hs, hpending, hhandling, hpc, hnum, hrunning⟩ : ∃ s,
      (acceptMachine 2).exec startedServer (serve 7 ++ serve 8 ++
        [.terminate 0, .terminate 0, .deliver, .handler]) = some s ∧ s.pending = false ∧
      s.handling = false ∧ s.pc = .head ∧ s.numClients = 1 ∧ s.running = [] :=
    ⟨_, rfl, rfl, rfl, rfl, rfl, rfl⟩
  have hreach := Machine.Reachable.exec _ (.init (startedServer_init 2)) hs
  have hcount := (hall 2 s (by decide) hreach ⟨hpending, hhandling⟩).1
  rw [hpc, hnum, hrunning] at hcount
  exact absurd hcount (by decide)

end SystemProgramming.Server
