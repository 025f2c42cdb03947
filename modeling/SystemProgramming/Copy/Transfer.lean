import SystemProgramming.Copy.Descriptors

set_option autoImplicit false

/-! # Runs in which no call fails

A run of the copy program in which every call of the manager succeeds, every `read` delivers
something while there is something left, and every `write` takes all. `GoodCall` and `GoodStep` say
what the steps of such a run do, with all that the calls answer. -/

namespace SystemProgramming.Copy

open Function FileSystem

variable {W : ℕ}

/-- No call of this step fails, and a `write` takes all that it is given. -/
def CallsSucceed (s : ProgramState W) : ProgramMove W → Prop
  | .walk .fails => False
  | .worker i count => 1 ≤ count ∧ (s.readBuffer i).length ≤ count
  | _ => True

/-- A call of the manager has failed. -/
def Walk.isFailing {δ φ : Type} (w : Walk δ φ) : Bool :=
  match w.pc with
  | .closingSrc _ | .destroying _ | .destroyed _ => true
  | _ => false

instance (s : ProgramState W) (a : ProgramMove W) : Decidable (CallsSucceed s a) :=
  match a with
  | .walk .fails => inferInstanceAs (Decidable False)
  | .walk .succeeds | .walk (.entry _) => inferInstanceAs (Decidable True)
  | .worker i count => inferInstanceAs (Decidable (1 ≤ count ∧ (s.readBuffer i).length ≤ count))
  | .manager _ | .join | .spuriousManager | .spuriousWorker _ => inferInstanceAs (Decidable True)

/-! ## The calls of the manager -/

/-- What a call of the manager that does not fail does to its walk and to the kernel. -/
inductive GoodCall (k : Kernel) : Walk DirStream ℕ → Walk DirStream ℕ → Kernel → Prop
  | opens {path dest : Text} {loops : List (Frame DirStream)} {n : ℕ} {es : List (EntryName × ℕ)}
      (hfind : k.fs.find true path = .found n) (hes : k.fs.entries n = some es) :
      GoodCall k ⟨.opening path dest, loops⟩ ⟨.making ⟨n, dirNames es, []⟩ path dest, loops⟩
        { k with entered := k.entered ++ [n] }
  | makes {dir : DirStream} {path dest : Text} {loops : List (Frame DirStream)} {d : ℕ}
      {name : EntryName} (hfind : k.fs.find false dest = .missing d name) :
      GoodCall k ⟨.making dir path dest, loops⟩ ⟨.reading, ⟨dir, path, dest⟩ :: loops⟩
        { k with fs := k.fs.create d name true }
  /-- the destination directory is there -/
  | meets {dir : DirStream} {path dest : Text} {loops : List (Frame DirStream)} {n : ℕ}
      (hfind : k.fs.find false dest = .found n) :
      GoodCall k ⟨.making dir path dest, loops⟩ ⟨.reading, ⟨dir, path, dest⟩ :: loops⟩ k
  | delivers {f : Frame DirStream} {rest : List (Frame DirStream)} {e : Dirent}
      (hnew : e.name ∉ f.dir.returned) (hentry : direntOf k.fs f.dir.dir e.name = some e) :
      GoodCall k ⟨.reading, f :: rest⟩ ⟨Walk.onEntry f e,
        { f with dir := { f.dir with returned := e.name :: f.dir.returned } } :: rest⟩ k
  | ends {f : Frame DirStream} {rest : List (Frame DirStream)}
      (hall : ∀ name ∈ f.dir.listed, name ∈ f.dir.returned) :
      GoodCall k ⟨.reading, f :: rest⟩ ⟨.closing f.dir, rest⟩ k
  | opensSrc {path dest name : Text} {loops : List (Frame DirStream)} {n : ℕ}
      (hfind : k.fs.find true path = .found n) :
      GoodCall k ⟨.openingSrc path dest name, loops⟩ ⟨.openingDest k.opens dest name, loops⟩
        (k.allocate ⟨n, 0, false⟩)
  | opensDest {srcFd : ℕ} {dest name : Text} {loops : List (Frame DirStream)} {k' : Kernel}
      (hopen : k.openDest dest = some (some k.opens, k')) :
      GoodCall k ⟨.openingDest srcFd dest name, loops⟩
        ⟨.pushing ⟨srcFd, k.opens, itemName name⟩, loops⟩ k'
  | closesDir {dir : DirStream} {loops : List (Frame DirStream)} :
      GoodCall k ⟨.closing dir, loops⟩ ⟨.reading, loops⟩ k

section Calls

variable {k k' : Kernel} {choice : Choice}

theorem Kernel.orFail_good {ρ : Type} {good : Option (ρ × Kernel)} {bad reply : ρ}
    (hok : choice ≠ .fails) (h : k.orFail choice good bad = some (reply, k')) :
    good = some (reply, k') := by
  cases choice with
  | succeeds => exact h
  | fails => exact absurd rfl hok
  | entry name => cases h

theorem Kernel.openSrc_found {path : Text} {reply : Option ℕ}
    (h : k.openSrc path = some (reply, k')) :
    ∃ n, k.fs.find true path = .found n ∧ reply = some k.opens ∧
      k' = k.allocate ⟨n, 0, false⟩ := by
  unfold Kernel.openSrc at h
  split at h <;> cases h
  exact ⟨_, ‹_›, rfl, rfl⟩

/-- An answer of `readdir` without an error: an entry that is new, or the end of all that was
    listed. -/
theorem Kernel.readdir_good {dir dir' : DirStream} {entry : Option Dirent}
    (hok : choice ≠ .fails) (h : k.readdir dir choice = some ((entry, dir'), k')) :
    k' = k ∧ ((entry = none ∧ dir' = dir ∧ ∀ name ∈ dir.listed, name ∈ dir.returned) ∨
      ∃ e, entry = some e ∧ dir' = { dir with returned := e.name :: dir.returned } ∧
        e.name ∉ dir.returned ∧ direntOf k.fs dir.dir e.name = some e) := by
  cases choice with
  | succeeds =>
      obtain ⟨hall, h⟩ := Option.ite_none_right_eq_some.1 h
      cases h
      exact ⟨rfl, .inl ⟨rfl, rfl, hall⟩⟩
  | fails => exact absurd rfl hok
  | entry name =>
      obtain ⟨hnew, h⟩ := Option.ite_none_left_eq_some.1 h
      obtain ⟨e, he, heq⟩ := Option.map_eq_some_iff.1 h
      cases heq
      have hname := direntOf_name he
      subst hname
      exact ⟨rfl, .inr ⟨e, rfl, rfl, hnew, he⟩⟩

theorem goodCall_of_answer {v : Version} {w : Walk DirStream ℕ} {c : SysCall DirStream ℕ}
    {resume : Reply c → Walk DirStream ℕ} {reply : Reply c} (hnext : w.next v = some ⟨c, resume⟩)
    (hgood : w.isFailing = false) (hok : choice ≠ .fails)
    (hanswer : k.answer c choice = some (reply, k')) : GoodCall k w (resume reply) k' := by
  obtain ⟨pc, loops⟩ := w
  cases pc with
  | opening path dest =>
      cases hnext
      obtain ⟨n, es, hfind, hes, rfl, rfl⟩ :=
        Kernel.opendir_spec (Kernel.orFail_good hok hanswer)
      exact .opens hfind hes
  | making dir path dest =>
      cases hnext
      have hmkdir := Kernel.orFail_good hok hanswer
      unfold Kernel.mkdir at hmkdir
      split at hmkdir <;> cases hmkdir
      · exact .meets ‹_›
      · exact .makes ‹_›
  | reading =>
      cases loops with
      | nil => cases hnext
      | cons f rest =>
          cases hnext
          obtain ⟨entry, dir⟩ := reply
          obtain ⟨rfl, ⟨rfl, rfl, hall⟩ | ⟨e, rfl, rfl, hnew, hentry⟩⟩ :=
            Kernel.readdir_good hok hanswer
          · exact .ends hall
          · exact .delivers hnew hentry
  | openingSrc path dest name =>
      cases hnext
      obtain ⟨n, hfind, rfl, rfl⟩ := Kernel.openSrc_found (Kernel.orFail_good hok hanswer)
      exact .opensSrc hfind
  | openingDest srcFd dest name =>
      cases hnext
      have hopen := Kernel.orFail_good hok hanswer
      obtain ⟨rfl, -⟩ := Kernel.openDest_spec hopen
      exact .opensDest hopen
  | pushing item =>
      cases hnext
      cases hanswer
  | closing dir =>
      cases hnext
      cases hanswer
      exact .closesDir
  | closingSrc | destroying | destroyed => cases hgood
  | exited | undefined => cases hnext

end Calls

/-! ## The steps -/

/-- Whether a worker is in its copy loop with an item, or just behind it. -/
def WorkerPC.phase : WorkerPC Item → Option (Bool × Item)
  | .copying item => some (false, item)
  | .closingSrc item => some (true, item)
  | _ => none

theorem WorkerPC.phase_wake (x : WorkerPC Item) : x.wake.phase = x.phase := by
  cases x <;> rfl

theorem WorkerPC.phase_eq_copying {x : WorkerPC Item} {item : Item} :
    x.phase = some (false, item) ↔ x = .copying item := by
  cases x <;> simp [phase]

theorem WorkerPC.phase_eq_closing {x : WorkerPC Item} {item : Item} :
    x.phase = some (true, item) ↔ x = .closingSrc item := by
  cases x <;> simp [phase]

/-- A turn of the threads in which no worker ends its copy loop. -/
def Calm (c c' : CopyState W Item) : Prop :=
  ∀ i, (c'.workers i).phase = (c.workers i).phase ∨
    (c.workers i).phase = none ∧ ∃ item, c'.workers i = .copying item

/-- One worker moves, which neither copies nor has copied. -/
theorem Calm.of_update {c c' : CopyState W Item} {i : Fin W} {x : WorkerPC Item}
    (hworkers : c'.workers = update c.workers i x) (hi : (c.workers i).phase = none)
    (hx : x.phase = none ∨ ∃ item, x = .copying item) : Calm c c' := by
  intro j
  rw [hworkers]
  by_cases hij : j = i
  · subst hij
    rw [update_self, hi]
    exact hx.imp_right fun hcopying => ⟨rfl, hcopying⟩
  · rw [update_of_ne hij]
    exact .inl rfl

theorem calm_managerTurn {v : Version} {c c' : CopyState W Item} {woken : Option (Fin W)}
    (h : managerTurn v c woken = some c') : Calm c c' := by
  unfold managerTurn at h
  split at h
  · split at h
    · cases h
      exact fun _ => .inl rfl
    · obtain ⟨workers, hsignal, rfl⟩ := Option.map_eq_some_iff.1 h
      exact fun i => .inl (signal_congr WorkerPC.phase_wake hsignal i)
  · cases h
    exact fun i => .inl (broadcast_congr WorkerPC.phase_wake c.workers i)
  · cases h
    exact fun _ => .inl rfl
  · obtain ⟨-, h⟩ := Option.ite_none_right_eq_some.1 h
    cases h
    exact fun _ => .inl rfl
  · cases h
  · cases h

theorem calm_workerTurn {v : Version} {c c' : CopyState W Item} {i : Fin W}
    (h : workerTurn v c i = some c') (hphase : (c.workers i).phase = none)
    (hdest : ∀ item, c.workers i ≠ .closingDest item) : Calm c c' := by
  unfold workerTurn at h
  split at h
  · split at h <;> cases h
    · exact .of_update rfl hphase (.inl rfl)
    · exact .of_update rfl hphase (.inl rfl)
    · exact .of_update rfl hphase (.inr ⟨_, rfl⟩)
  · split at h <;> cases h <;> exact .of_update rfl hphase (.inl (by cases v <;> rfl))
  · cases h
    exact .of_update rfl hphase (.inl rfl)
  · next item hi =>
      rw [hi] at hphase
      cases hphase
  · next item hi =>
      rw [hi] at hphase
      cases hphase
  · next item hi => exact absurd hi (hdest item)
  · cases h
    exact .of_update rfl hphase (.inl rfl)
  · obtain ⟨-, h⟩ := Option.ite_none_right_eq_some.1 h
    cases h
    exact .of_update rfl hphase (.inl rfl)
  · cases h
  · cases h

theorem calm_joinTurn {c c' : CopyState W Item} (h : joinTurn c = some c') : Calm c c' := by
  unfold joinTurn at h
  split at h
  · split at h <;> cases h
    exact fun _ => .inl rfl
  · split at h
    · split at h <;> cases h
      exact fun _ => .inl rfl
    · cases h

/-- The steps of a run in which no call fails. -/
inductive GoodStep (v : Version) (s : ProgramState W) : ProgramState W → Prop
  | calls (walk : Walk DirStream ℕ) (kernel : Kernel) (hidle : s.copy.manager = .pushing [])
      (hcall : GoodCall s.kernel s.walk walk kernel) :
      GoodStep v s { s with walk := walk, kernel := kernel }
  | hands (item : Item) (hidle : s.copy.manager = .pushing []) (hpc : s.walk.pc = .pushing item) :
      GoodStep v s { s with copy := { s.copy with manager := .pushing [item] }
                            walk := ⟨.reading, s.walk.loops⟩ }
  | turns (copy : CopyState W Item) (hstep : CopyStep v s.copy copy) (hcalm : Calm s.copy copy) :
      GoodStep v s { s with copy := copy }
  | reads (i : Fin W) (item : Item) (n : ℕ) (hi : s.copy.workers i = .copying item)
      (hempty : s.readBuffer i = []) :
      GoodStep v s
        { s with kernel := (s.kernel.read item.srcFd n).2
                 readBuffer := update s.readBuffer i (s.kernel.read item.srcFd n).1 }
  | ends (i : Fin W) (item : Item) (n : ℕ) (hi : s.copy.workers i = .copying item)
      (hempty : s.readBuffer i = []) (hn : 1 ≤ n) (hnone : (s.kernel.read item.srcFd n).1 = []) :
      GoodStep v s
        { s with copy := { s.copy with workers := update s.copy.workers i (.closingSrc item) } }
  | writes (i : Fin W) (item : Item) (hi : s.copy.workers i = .copying item) :
      GoodStep v s
        { s with kernel := s.kernel.write item.destFd (s.readBuffer i)
                 readBuffer := update s.readBuffer i [] }
  | closesSrc (i : Fin W) (item : Item) (hi : s.copy.workers i = .closingSrc item) :
      GoodStep v s
        { s with copy := { s.copy with workers := update s.copy.workers i (.closingDest item) }
                 kernel := s.kernel.close item.srcFd }
  | closesDest (i : Fin W) (item : Item) (hi : s.copy.workers i = .closingDest item) :
      GoodStep v s
        { s with copy := { s.copy with workers := update s.copy.workers i .popping
                                       closed := s.copy.closed ++ [(i, item)] }
                 kernel := s.kernel.close item.destFd }

theorem goodStep_of_callTurn {v : Version} {s s' : ProgramState W} {choice : Choice}
    {c : SysCall DirStream ℕ} {resume : Reply c → Walk DirStream ℕ}
    (hgood : s.walk.isFailing = false) (hidle : s.copy.manager = .pushing [])
    (hnext : s.walk.next v = some ⟨c, resume⟩) (hok : choice ≠ .fails)
    (h : callTurn s c resume choice = some s') : GoodStep v s s' := by
  have hcalls : (s.kernel.answer c choice).map
      (fun r => { s with walk := resume r.1, kernel := r.2 }) = some s' → GoodStep v s s' := by
    intro h
    obtain ⟨⟨reply, kernel⟩, hanswer, rfl⟩ := Option.map_eq_some_iff.1 h
    exact .calls _ _ hidle (goodCall_of_answer hnext hgood hok hanswer)
  cases c with
  | push item =>
      cases h
      obtain ⟨hpc, hresume⟩ := next_eq_push hnext
      rw [hresume]
      exact .hands item hidle hpc
  | destroyBuffer =>
      obtain ⟨left, hpc, -, -⟩ := next_eq_destroyBuffer hnext
      rw [Walk.isFailing, hpc] at hgood
      cases hgood
  | _ => exact hcalls h

theorem goodStep_of_workerTurn {v : Version} {s s' : ProgramState W} {i : Fin W} {count : ℕ}
    (hcount : 1 ≤ count) (htakes : (s.readBuffer i).length ≤ count)
    (h : programWorkerTurn v s i count = some s') : GoodStep v s s' := by
  unfold programWorkerTurn at h
  split at h
  · next item hi =>
      unfold copyTurn at h
      split at h
      · next hempty =>
          split at h
          · next k hread =>
              obtain ⟨copy, hturn, rfl⟩ := Option.map_eq_some_iff.1 h
              simp only [workerTurn, hi, Option.some.injEq] at hturn
              subst hturn
              exact .ends i item (min count 1024) hi hempty (by omega) (by rw [hread])
          · next bytes kernel _ hread =>
              cases h
              have := GoodStep.reads (v := v) i item (min count 1024) hi hempty
              rwa [hread] at this
      · cases h
        have := GoodStep.writes (v := v) i item hi
        rwa [← List.take_of_length_le htakes] at this
  · next item hi =>
      obtain ⟨copy, hturn, rfl⟩ := Option.map_eq_some_iff.1 h
      simp only [workerTurn, hi, Option.some.injEq] at hturn
      subst hturn
      exact .closesSrc i item hi
  · next item hi =>
      obtain ⟨copy, hturn, rfl⟩ := Option.map_eq_some_iff.1 h
      simp only [workerTurn, hi, Option.some.injEq] at hturn
      subst hturn
      exact .closesDest i item hi
  · next hcopying hsrc hdest =>
      obtain ⟨copy, hturn, rfl⟩ := Option.map_eq_some_iff.1 h
      refine .turns copy (copyStep_of_workerTurn hturn) (calm_workerTurn hturn ?_ hdest)
      cases hi : s.copy.workers i
      case copying item => exact absurd hi (hcopying item)
      case closingSrc item => exact absurd hi (hsrc item)
      all_goals rfl

theorem goodStep_of_next {v : Version} {size : ℤ} {stack : ℕ} {fs : FileSystem}
    {srcDir destDir : Text} {s s' : ProgramState W} {a : ProgramMove W}
    (hgood : s.walk.isFailing = false) (hok : CallsSucceed s a)
    (h : (copyProgram v W size stack fs srcDir destDir).next s a = some s') : GoodStep v s s' := by
  obtain ⟨-, h⟩ := Option.ite_none_left_eq_some.1 h
  cases a with
  | walk choice =>
      have hsucceeds : choice ≠ .fails := by
        rintro rfl
        exact hok
      simp only [programNext] at h
      split at h
      · next hidle hnext => exact goodStep_of_callTurn hgood hidle hnext hsucceeds h
      · cases h
  | manager woken =>
      simp only [programNext] at h
      split at h
      · cases h
      · obtain ⟨copy, hturn, rfl⟩ := Option.map_eq_some_iff.1 h
        exact .turns copy (copyStep_of_managerTurn hturn) (calm_managerTurn hturn)
  | worker i count =>
      simp only [programNext] at h
      split at h
      · next hbroken =>
          obtain ⟨left, hpc, -⟩ := exists_of_isDestroyed (Bool.and_eq_true_iff.1 hbroken).1
          rw [Walk.isFailing, hpc] at hgood
          cases hgood
      · exact goodStep_of_workerTurn hok.1 hok.2 h
  | join =>
      obtain ⟨copy, hturn, rfl⟩ := Option.map_eq_some_iff.1 h
      exact .turns copy (copyStep_of_joinTurn hturn) (calm_joinTurn hturn)
  | spuriousManager =>
      simp only [programNext] at h
      split at h
      · next rest hm =>
          cases h
          exact .turns _ (.managerWakes rest hm) fun _ => .inl rfl
      · cases h
  | spuriousWorker i =>
      simp only [programNext] at h
      split at h
      · next hi =>
          cases h
          exact .turns _ (.workerWakes i hi) (.of_update rfl (by rw [hi]; rfl) (.inl rfl))
      · cases h

/-! ## The descriptors of a pair -/

namespace DescriptorInv

variable {size : ℤ} {s : ProgramState W} {item item' : Item} {i j : Fin W}

theorem eq_of_srcFd (h : DescriptorInv size s) (hitem : item ∈ s.pairs) (hitem' : item' ∈ s.pairs)
    (heq : item.srcFd = item'.srcFd) : item = item' :=
  Multiset.inj_on_of_nodup_map (Multiset.nodup_add.1 h.nodup_descriptors).1 item hitem item' hitem'
    heq

theorem eq_of_destFd (h : DescriptorInv size s) (hitem : item ∈ s.pairs)
    (hitem' : item' ∈ s.pairs) (heq : item.destFd = item'.destFd) : item = item' :=
  Multiset.inj_on_of_nodup_map (Multiset.nodup_add.1 h.nodup_descriptors).2.1 item hitem item'
    hitem' heq

theorem srcFd_ne_destFd (h : DescriptorInv size s) (hitem : item ∈ s.pairs)
    (hitem' : item' ∈ s.pairs) : item.srcFd ≠ item'.destFd := by
  intro heq
  refine Multiset.disjoint_left.1 (Multiset.nodup_add.1 h.nodup_descriptors).2.2
    (Multiset.mem_map_of_mem BufferElement.srcFd (Multiset.mem_coe.2 hitem)) ?_
  rw [heq]
  exact Multiset.mem_map_of_mem BufferElement.destFd (Multiset.mem_coe.2 hitem')

theorem lt_opens (h : DescriptorInv size s) (hitem : item ∈ s.pairs) :
    item.srcFd < s.kernel.opens ∧ item.destFd < s.kernel.opens := by
  obtain ⟨hsrc, hdest⟩ := descriptors_of_mem (Multiset.mem_coe.2 hitem)
  exact ⟨h.ledger.lt _ (Multiset.mem_add.2 (.inr hsrc)),
    h.ledger.lt _ (Multiset.mem_add.2 (.inr hdest))⟩

theorem mem_pairs_of_held (h : DescriptorInv size s) (hi : item ∈ (s.copy.workers i).held) :
    item ∈ s.pairs := List.mem_append_left _ (h.flow.mem_pushed hi)

theorem mem_placed_of_held (hi : item ∈ (s.copy.workers i).held) : item ∈ s.placed :=
  Multiset.mem_add.2 (.inr (Multiset.mem_sum.2 ⟨i, Finset.mem_univ i, hi⟩))

/-- An item is in the hands of one worker only. -/
theorem eq_of_held (h : DescriptorInv size s) (hi : item ∈ (s.copy.workers i).held)
    (hj : item ∈ (s.copy.workers j).held) : i = j := by
  have hplace : Place.worker i = Place.worker j :=
    (h.existsUnique_place (mem_placed_of_held hi)).unique hi hj
  exact Place.worker.inj hplace

/-- The source of a pair is open until a worker that is through with it closes it. -/
theorem isSome_srcFd (h : DescriptorInv size s) (hplaced : item ∈ s.placed)
    (hnone : ∀ i, s.copy.workers i ≠ .closingDest item) :
    (s.kernel.table item.srcFd).isSome = true := by
  have hmem : item ∈ (s.pairs : Multiset Item) := by
    rw [h.pairs_eq]
    exact Multiset.mem_add.2 (.inr hplaced)
  rw [h.isSome_iff (descriptors_of_mem hmem).1]
  intro hclosed
  rcases Multiset.mem_add.1 hclosed with hclosed | hclosed
  · have hnodup := h.nodup_descriptors
    rw [h.pairs_eq, descriptors_add] at hnodup
    exact Multiset.disjoint_left.1 (Multiset.nodup_add.1 hnodup).2.2 hclosed
      (descriptors_of_mem hplaced).1
  · obtain ⟨i, -, hi⟩ := Multiset.mem_sum.1 hclosed
    cases hpc : s.copy.workers i <;> rw [hpc] at hi <;>
      simp only [WorkerPC.srcClosed, Multiset.mem_singleton, Multiset.notMem_zero] at hi
    next other =>
      have hother : other ∈ (s.copy.workers i).held := by
        rw [hpc]
        exact Multiset.mem_singleton_self other
      obtain rfl := h.eq_of_srcFd hmem (h.mem_pairs_of_held hother) hi
      exact hnone i hpc

end DescriptorInv

end SystemProgramming.Copy
