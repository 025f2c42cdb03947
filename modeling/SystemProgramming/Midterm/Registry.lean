import SystemProgramming.Midterm.Clients

set_option autoImplicit false

/-! # The registry of clients

`child_process` enters a client in the queue `clients` when it has started a handler for it, and
only `exitParent` takes clients out. Nothing happens to the entry when the handler terminates:
`client_termination_handler` only counts. So the registry holds the clients that were ever
registered, and it is the list of the clients served now only as long as no registered client has
left. -/

namespace SystemProgramming.Server

/-- The loop of `exitParent`: the processes that get SIGINT. `none` is a `NULL` or wild pointer. -/
def exitSignals : ℕ → Queue Client → Option (List ℤ)
  | 0, _ => some []
  | left + 1, que =>
      match dequeue que with
      | (.client c, que) => (exitSignals left que).map (c.pid :: ·)
      | _ => none

/-- `exitParent`: `while (clients.size > 0)`, and every `dequeue` takes one client out. -/
def exitParent (clients : Queue Client) : Option (List ℤ) := exitSignals clients.size clients

theorem exitParent_eq {clients : Queue Client} {xs : List Client} (h : Holds clients xs) :
    exitParent clients = some (xs.map Client.pid) := by
  rw [exitParent, h.size_eq]
  induction xs generalizing clients with
  | nil => rfl
  | cons x rest ih =>
      obtain ⟨que, hque, hrest⟩ := dequeue_spec h
      rw [List.length_cons, exitSignals, hque]
      simp only
      rw [ih hrest]
      rfl

/-- The registered clients and those that could not be registered are the clients served now and
    those that have left. -/
def RegistryInv (w : World) : Prop :=
  ∃ xs, Holds w.server.clients xs ∧
    (xs ++ w.unregistered).Perm (w.server.running ++ w.gone)

theorem RegistryInv.congr {w w' : World} (h : RegistryInv w)
    (hclients : w'.server.clients = w.server.clients)
    (hrunning : w'.server.running = w.server.running) (hgone : w'.gone = w.gone)
    (hunregistered : w'.unregistered = w.unregistered) : RegistryInv w' := by
  unfold RegistryInv
  rw [hclients, hrunning, hgone, hunregistered]
  exact h

/-- Only `child_process` touches the registry. -/
theorem mainTurn_registry {maxClients : ℤ} {s s' : ServerState} {memory : ℕ → Slot Client} {fd : ℕ}
    (hpc : ∀ c, s.pc ≠ .forking c) (h : mainTurn maxClients s memory fd = some s') :
    s'.clients = s.clients ∧ s'.running = s.running := by
  cases serverStep_of_mainTurn h
  case forks c hforking => exact absurd hforking (hpc c)
  all_goals exact ⟨rfl, rfl⟩

theorem RegistryInv.turn {maxClients : ℤ} {w w' : World} {o : Outcome} (h : RegistryInv w)
    (hturn : worldTurn maxClients w o = some w') : RegistryInv w' := by
  unfold worldTurn at hturn
  split at hturn
  · split at hturn <;> obtain rfl := Option.some.inj hturn <;> exact h
  · next c hpc =>
      split at hturn
      · obtain rfl := Option.some.inj hturn
        obtain ⟨xs, hxs, hperm⟩ := h
        have hspec := enqueue_spec hxs c o.newElements o.newClient
        cases hdone : (enqueue w.server.clients c o.newElements o.newClient).1 with
        | true =>
            rw [hdone, if_pos rfl] at hspec
            refine ⟨xs ++ [c], hspec, ?_⟩
            show (xs ++ [c] ++ (if true = true then w.unregistered else w.unregistered ++ [c])).Perm
              (w.server.running ++ [c] ++ w.gone)
            rw [if_pos rfl, List.append_assoc, List.append_assoc]
            exact List.perm_middle.trans ((hperm.cons c).trans List.perm_middle.symm)
        | false =>
            rw [hdone, if_neg Bool.false_ne_true] at hspec
            refine ⟨xs, hspec, ?_⟩
            show (xs ++ (if false = true then w.unregistered else w.unregistered ++ [c])).Perm
              (w.server.running ++ [c] ++ w.gone)
            rw [if_neg Bool.false_ne_true, ← List.append_assoc,
              List.append_assoc w.server.running]
            exact (List.perm_append_singleton c _).trans
              ((hperm.cons c).trans List.perm_middle.symm)
      · obtain rfl := Option.some.inj hturn
        exact h
  · split at hturn
    · obtain rfl := Option.some.inj hturn
      exact h
    · split at hturn <;> split at hturn <;> obtain rfl := Option.some.inj hturn <;> exact h
  · next hopening hforking hfull =>
      obtain ⟨server, hserver, rfl⟩ := Option.map_eq_some_iff.1 hturn
      obtain ⟨hclients, hrunning⟩ := mainTurn_registry hforking hserver
      exact h.congr hclients hrunning rfl rfl

theorem RegistryInv.step {maxClients clientFd : ℤ} {w w' : World} {a : WorldMove}
    (h : RegistryInv w) (hnext : (worldMachine maxClients clientFd).next w a = some w') :
    RegistryInv w' := by
  cases a with
  | main o => exact h.turn (Option.ite_none_right_eq_some.1 hnext).2
  | read =>
      obtain ⟨-, hread⟩ := Option.ite_none_right_eq_some.1 hnext
      obtain ⟨server, hserver, rfl⟩ := Option.map_eq_some_iff.1 hread
      unfold readTurn at hserver
      split at hserver
      · obtain rfl := Option.some.inj hserver
        exact h
      · obtain rfl := Option.some.inj hserver
        exact h
      · cases hserver
  | terminate i =>
      change (if h : i < w.server.running.length then _ else none) = some w' at hnext
      split at hnext
      · next hi =>
          obtain ⟨server, hserver, rfl⟩ := Option.map_eq_some_iff.1 hnext
          obtain ⟨-, hserver⟩ := Option.ite_none_right_eq_some.1 hserver
          obtain rfl := Option.some.inj hserver
          obtain ⟨xs, hxs, hperm⟩ := h
          -- a handler that ends goes from the running ones to those that are gone
          refine ⟨xs, hxs, hperm.trans ?_⟩
          show (w.server.running ++ w.gone).Perm
            (w.server.running.eraseIdx i ++ (w.gone ++ [w.server.running[i]]))
          rw [← List.append_assoc]
          refine ((List.getElem_cons_eraseIdx_perm hi).symm.append_right w.gone).trans ?_
          exact (List.perm_append_singleton _ _).symm
      · cases hnext
  | deliver =>
      obtain ⟨server, hserver, rfl⟩ := Option.map_eq_some_iff.1 hnext
      obtain ⟨-, hserver⟩ := Option.ite_none_right_eq_some.1 hserver
      obtain rfl := Option.some.inj hserver
      exact h
  | handler =>
      obtain ⟨server, hserver, rfl⟩ := Option.map_eq_some_iff.1 hnext
      obtain ⟨-, hserver⟩ := Option.ite_none_right_eq_some.1 hserver
      obtain rfl := Option.some.inj hserver
      exact h
  | connect c =>
      obtain ⟨-, hnext⟩ := Option.ite_none_left_eq_some.1 hnext
      obtain rfl := Option.some.inj hnext
      exact h
  | vanish pid =>
      obtain rfl := Option.some.inj hnext
      exact h

theorem registryInv_reachable {maxClients clientFd : ℤ} {w : World}
    (h : (worldMachine maxClients clientFd).Reachable w) : RegistryInv w := by
  refine h.invariant ?_ fun w a w' _ hw hnext => hw.step hnext
  rintro w ⟨-, -, -, -, hclients, hrunning, -, -, -, -, -, -, -, -, -, hgone, hunregistered⟩
  refine ⟨[], ?_, ?_⟩
  · rw [hclients]
    exact queueConstructor_holds
  · rw [hrunning, hgone, hunregistered]

/-- **The registry is exact exactly while nobody who was registered has left.** In every reachable
    state, whatever fails and whoever comes and goes: `exitParent` would signal the processes in the
    registry, and these are the clients with a running handler, each once, if and only if the
    clients that have left are those whose registration had failed. -/
theorem registry_exact_iff {maxClients clientFd : ℤ} {w : World}
    (h : (worldMachine maxClients clientFd).Reachable w) :
    ∃ xs, Holds w.server.clients xs ∧
      exitParent w.server.clients = some (xs.map Client.pid) ∧
      ((xs.map Client.pid).Perm (w.server.running.map Client.pid) ↔
        (w.gone.map Client.pid).Perm (w.unregistered.map Client.pid)) := by
  obtain ⟨xs, hxs, hperm⟩ := registryInv_reachable h
  refine ⟨xs, hxs, exitParent_eq hxs, ?_⟩
  have hpids := hperm.map Client.pid
  rw [List.map_append, List.map_append] at hpids
  constructor
  · intro hexact
    exact (List.perm_append_left_iff _).1 (hpids.symm.trans (hexact.append_right _))
  · intro hleft
    exact (List.perm_append_right_iff _).1 (hpids.trans (hleft.append_left _))

/-- Client 7 is served, and nobody has left. -/
theorem registry_exact_served : ∃ w, (worldMachine 1 0).exec startedWorld (serveConnect 7) = some w ∧
    w.server.running = [⟨7, 0⟩] ∧ ∃ xs, Holds w.server.clients xs ∧
      exitParent w.server.clients = some (xs.map Client.pid) ∧
      ((xs.map Client.pid).Perm (w.server.running.map Client.pid) ↔
        (w.gone.map Client.pid).Perm (w.unregistered.map Client.pid)) := by
  obtain ⟨w, hw, hrunning⟩ : ∃ w, (worldMachine 1 0).exec startedWorld (serveConnect 7) = some w ∧
      w.server.running = [⟨7, 0⟩] := ⟨_, rfl, rfl⟩
  have hreach := Machine.Reachable.exec _ (.init (startedWorld_init 1)) hw
  exact ⟨w, hw, hrunning, registry_exact_iff hreach⟩

/-- Client 7 is served and leaves: its PID stays in the registry, and `exitParent` signals it. -/
theorem registry_not_always_exact : ¬ ∀ maxClients clientFd w,
    (worldMachine maxClients clientFd).Reachable w → w.server.pc = .head →
    ∃ xs, Holds w.server.clients xs ∧ exitParent w.server.clients = some (xs.map Client.pid) ∧
      (xs.map Client.pid).Perm (w.server.running.map Client.pid) := by
  intro hall
  obtain ⟨w, hw, hpc, hrunning, hexit⟩ : ∃ w,
      (worldMachine 1 0).exec startedWorld (serveConnect 7 ++ [.terminate 0]) = some w ∧
      w.server.pc = .head ∧ w.server.running = [] ∧ exitParent w.server.clients = some [7] :=
    ⟨_, rfl, rfl, rfl, rfl⟩
  have hreach := Machine.Reachable.exec _ (.init (startedWorld_init 1)) hw
  obtain ⟨xs, -, hsignals, hperm⟩ := hall 1 0 w hreach hpc
  rw [hexit] at hsignals
  rw [← Option.some.inj hsignals, hrunning] at hperm
  exact absurd hperm (by decide)

end SystemProgramming.Server
