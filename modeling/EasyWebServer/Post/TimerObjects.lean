import EasyWebServer.Post.Slots

/-!
# The timer objects

`main` allocates a `util_timer` for every connection.  `tick` deletes the timers that
it takes out of the heap.  `del_timer` takes a timer out without deleting it, and the
three branches of the main loop that close a connection call nothing else.

`TimersBalanced` says that the allocated timers are those in the heap, and
`timersBalanced_iff` that this is so exactly as long as the main loop closes no
connection itself.  `TimerMove` lists what a step does with the timers: a timer that a
`drop` has taken out is never seen again (`Leaked`).
-/

namespace EasyWebServer.Post

open Server Transition

/-- The allocated timers are those in the heap.  Each of the others was deleted, by one
call of `tick`. -/
structure TimersBalanced (s : Server) : Prop where
  allocated : ∀ t, s.timers.objs t ≠ none ↔ t ∈ s.timers.pq
  nodup : s.timers.pq.Nodup
  deleted : s.calls.length + s.timers.pq.length = s.timers.next

/-- The main loop closes the connection of the event. -/
def ServerAction.loopCloses : ServerAction → Bool
  | .hangup => true
  | .readOnce ok => !ok
  | .write exit => !exit.result
  | _ => false

/-! ## What a step does with the timers -/

/-- The timers, and the calls of `tick`. -/
abbrev TimerUse := HeapTimer × List CbCall

/-- What a part of a step does with the timers.  The flag tells whether the step closes a
connection. -/
inductive TimerMove : Bool → TimerUse → TimerUse → Prop where
  | add {h h' : HeapTimer} {calls : List CbCall} (u : UtilTimer)
      (hpq : h'.pq.Perm (h.next :: h.pq))
      (hobjs : h'.objs = Function.update h.objs h.next (some u)) (hnext : h'.next = h.next + 1) :
      TimerMove false (h, calls) (h', calls)
  | renew {h h' : HeapTimer} {calls : List CbCall} {t : Nat} (u : UtilTimer) (ht : t ∈ h.pq)
      (hpq : h'.pq.Perm h.pq) (hobjs : h'.objs = Function.update h.objs t (some u))
      (hnext : h'.next = h.next) : TimerMove false (h, calls) (h', calls)
  | delete {h h' : HeapTimer} {calls : List CbCall} {t : Nat} {rest : List Nat} (call : CbCall)
      (hold : h.pq = t :: rest) (hpq : h'.pq.Perm rest)
      (hobjs : h'.objs = Function.update h.objs t none) (hnext : h'.next = h.next) :
      TimerMove false (h, calls) (h', calls ++ [call])
  | drop {h h' : HeapTimer} {calls : List CbCall} {t : Nat} (ht : t ∈ h.pq)
      (hpq : h'.pq.Perm (h.pq.filter (fun t' => t' != t))) (hobjs : h'.objs = h.objs)
      (hnext : h'.next = h.next) : TimerMove true (h, calls) (h', calls)

/-- The timers of a server. -/
def timerUse (s : Server) : TimerUse := (s.timers, s.calls)

@[simp] theorem timerUse_touch (s : Server) (fd : Nat) :
    timerUse (s.touch fd) = timerUse s := by
  rw [touch]
  split <;> rfl

@[simp] theorem timerUse_append (cfg : Config) (s : Server) (fd : Nat) :
    timerUse (s.append cfg fd).2 = timerUse s := by
  rw [append_eq]
  rfl

@[simp] theorem timerUse_arm (s : Server) (fd : Nat) (ev : Interest) :
    timerUse (s.arm fd ev) = timerUse s := by
  rw [arm]
  split <;> rfl

theorem timerUse_writeOps (s : Server) (fd : Nat) (exit : WriteExit) :
    timerUse (s.sockOps fd exit.ops) = timerUse s :=
  writeOps_rule (P := fun s' => timerUse s' = timerUse s) fd exit rfl
    (fun g ev _ => timerUse_arm s g ev)

theorem timerUse_processOps {s : Server} {fd : Nat}
    (hok : ∀ g, (s.slots fd).sockfd = some g → g = fd) (code : HttpCode) (writeRet : Bool) :
    timerUse (s.sockOps fd (processOps code writeRet)) = timerUse s := by
  rcases processOps_eq hok code writeRet with ⟨-, heq⟩ | ⟨ev, heq⟩ | ⟨-, -, heq⟩
  · rw [heq]
  · rw [heq, timerUse_arm]
  · rw [heq]
    rfl

/-- After a read or a write that succeeded, the timer moves. -/
theorem refresh_moves {s : Server} {fd : Nat} (hok : SlotsOk s) (htracks : Tracks s fd) :
    TimerMove false (timerUse s) (timerUse ((s.touch fd).renewTimer fd)) := by
  obtain ⟨t, u, h, -, ht, -, -, hperm, hobjs, hnext, heq⟩ :=
    renewTimer_eq (hok.touch fd).pq_nodup (htracks.touch fd)
  have hmove : TimerMove false (timerUse (s.touch fd)) (timerUse ((s.touch fd).renewTimer fd)) := by
    rw [heq]
    exact .renew _ ht hperm hobjs hnext
  rwa [timerUse_touch] at hmove

theorem closeEvent_moves {s : Server} {fd : Nat} (hok : SlotsOk s) (htracks : Tracks s fd) :
    TimerMove true (timerUse s) (timerUse (s.closeEvent fd)) := by
  obtain ⟨t, h, htimer, hdel, heq⟩ := closeEvent_eq hok.live htracks
  obtain ⟨t', -, htimer', ht', -⟩ := htracks
  cases htimer.symm.trans htimer'
  obtain ⟨hperm, hobjs, hnext⟩ := HeapTimer.delTimer_spec hdel
  rw [heq]
  exact .drop ht' hperm hobjs hnext

/-- A read event renews the timer, or drops it. -/
theorem handleInput_moves {s : Server} {fd : Nat} (cfg : Config) (hok : SlotsOk s)
    (htracks : Tracks s fd) (ok : Bool) :
    TimerMove (ServerAction.readOnce ok).loopCloses (timerUse s)
      (timerUse (s.handleInput cfg fd ok)) := by
  rcases ok with _ | _
  · exact closeEvent_moves hok htracks
  · have happend : Tracks (s.append cfg fd).2 fd := by
      rw [append_eq]
      exact htracks
    have hmove := refresh_moves (hok.append cfg fd) happend
    rwa [timerUse_append] at hmove

/-- So does a write event. -/
theorem handleOutput_moves {s : Server} {fd : Nat} (hok : SlotsOk s) (htracks : Tracks s fd)
    (exit : WriteExit) :
    TimerMove (ServerAction.write exit).loopCloses (timerUse s)
      (timerUse (s.handleOutput fd exit)) := by
  have hok' := hok.sockOps fd exit.ops
  have htracks' := htracks.writeOps exit
  rw [handleOutput, ← timerUse_writeOps s fd exit, ServerAction.loopCloses]
  rcases exit.result with _ | _
  · exact closeEvent_moves hok' htracks'
  · exact refresh_moves hok' htracks'

/-- The rule for a property of the timers: what every move of a step keeps, the step
keeps. -/
theorem serverStep_timerUse {inv : TimerUse → Prop} {cfg : Config} {s s' : Server}
    {a : ServerAction} (hok : SlotsOk s) (hs : inv (timerUse s))
    (hkeep : ∀ p q, inv p → TimerMove a.loopCloses p q → inv q)
    (hstep : serverStep cfg s a = some s') : inv (timerUse s') := by
  have hmove := serverStep_inv hstep
  rcases hmove with _ | _ | _ | _ | _ | _ | _ | ⟨rest, fd, hpending⟩ |
    ⟨rest, fd, ok, hpending⟩ | ⟨rest, fd, exit, hpending⟩ | ⟨_, hpending⟩ | _ | _
  case newConn => exact hkeep _ _ hs (.add _ (HeapTimer.addTimer_pq _ _) rfl rfl)
  case hangup =>
    obtain ⟨htracks, -⟩ := hok.takeEvent_client hpending
    exact hkeep _ _ hs (closeEvent_moves (hok.takeEvent hpending) htracks)
  case input =>
    obtain ⟨htracks, -⟩ := hok.takeEvent_client hpending
    exact hkeep _ _ hs (handleInput_moves cfg (hok.takeEvent hpending) htracks ok)
  case output =>
    obtain ⟨htracks, -⟩ := hok.takeEvent_client hpending
    exact hkeep _ _ hs (handleOutput_moves (hok.takeEvent hpending) htracks exit)
  case endBatch =>
    refine (endBatch_rule (fun s => inv (timerUse s)) hok hpending hs (fun _ _ _ h => h) ?_).2
    intro s₁ t rest u _ h₁ _ _ hpq _ _
    have hperm := HeapTimer.popTop_pq s₁.timers
    rw [hpq] at hperm
    exact hkeep _ _ h₁ (.delete _ hpq hperm rfl rfl)
  case process fd code writeRet _ =>
    rw [timerUse_processOps (s := { s with processing := s.processing.erase fd }) (hok.sockfd fd)]
    exact hs
  all_goals exact hs

/-- A step that closes a connection drops its timer. -/
theorem serverStep_drops {cfg : Config} {s s' : Server} {a : ServerAction} (hok : SlotsOk s)
    (hcloses : a.loopCloses = true) (hstep : serverStep cfg s a = some s') :
    TimerMove true (timerUse s) (timerUse s') := by
  have hmove := serverStep_inv hstep
  rcases hmove with _ | _ | _ | _ | _ | _ | _ | ⟨rest, fd, hpending⟩ |
    ⟨rest, fd, ok, hpending⟩ | ⟨rest, fd, exit, hpending⟩ | _ | _ | _
  case hangup =>
    obtain ⟨htracks, -⟩ := hok.takeEvent_client hpending
    exact closeEvent_moves (hok.takeEvent hpending) htracks
  case input =>
    obtain ⟨htracks, -⟩ := hok.takeEvent_client hpending
    have hinput := handleInput_moves cfg (hok.takeEvent hpending) htracks ok
    rwa [hcloses] at hinput
  case output =>
    obtain ⟨htracks, -⟩ := hok.takeEvent_client hpending
    have houtput := handleOutput_moves (hok.takeEvent hpending) htracks exit
    rwa [hcloses] at houtput
  all_goals cases hcloses

/-! ## Kept and lost timers -/

/-- The allocated timers are those in the heap, and the others were deleted. -/
structure Kept (p : TimerUse) : Prop where
  allocated : ∀ t, p.1.objs t ≠ none ↔ t ∈ p.1.pq
  nodup : p.1.pq.Nodup
  fresh : ∀ t ∈ p.1.pq, t < p.1.next
  deleted : p.2.length + p.1.pq.length = p.1.next

/-- A timer that is not in the heap is still allocated. -/
def Leaked (p : TimerUse) : Prop := ∃ t < p.1.next, p.1.objs t ≠ none ∧ t ∉ p.1.pq

theorem Kept.move {p q : TimerUse} (h : Kept p) (hmove : TimerMove false p q) : Kept q := by
  rcases hmove with ⟨u, hpq, hobjs, hnext⟩ | ⟨u, ht, hpq, hobjs, hnext⟩ |
    ⟨call, hold, hpq, hobjs, hnext⟩
  case add h₀ h₁ calls =>
    have hnew : h₀.next ∉ h₀.pq := fun hmem => absurd (h.fresh _ hmem) (Nat.lt_irrefl _)
    refine ⟨fun t => ?_, ?_, fun t ht => ?_, ?_⟩
    · rw [hpq.mem_iff, hobjs, List.mem_cons]
      by_cases heq : t = h₀.next
      · rw [heq, Function.update_self]
        exact iff_of_true (Option.some_ne_none u) (Or.inl rfl)
      · rw [Function.update_of_ne heq, h.allocated t]
        exact ⟨Or.inr, fun hmem => hmem.resolve_left heq⟩
    · exact hpq.nodup_iff.mpr (List.nodup_cons.mpr ⟨hnew, h.nodup⟩)
    · rw [hnext]
      rcases List.mem_cons.mp (hpq.subset ht) with rfl | hmem
      · exact Nat.lt_succ_self _
      · exact Nat.lt_succ_of_lt (h.fresh t hmem)
    · rw [hpq.length_eq, hnext, List.length_cons, ← h.deleted]
      rfl
  case renew h₀ h₁ calls t =>
    refine ⟨fun t' => ?_, hpq.nodup_iff.mpr h.nodup, fun t' ht' => ?_, ?_⟩
    · rw [hpq.mem_iff, hobjs]
      by_cases heq : t' = t
      · rw [heq, Function.update_self]
        exact iff_of_true (Option.some_ne_none u) ht
      · rw [Function.update_of_ne heq]
        exact h.allocated t'
    · rw [hnext]
      exact h.fresh t' (hpq.subset ht')
    · rw [hpq.length_eq, hnext]
      exact h.deleted
  case delete h₀ h₁ calls t rest =>
    have hnodup := h.nodup
    rw [hold] at hnodup
    obtain ⟨hnot, hrest⟩ := List.nodup_cons.mp hnodup
    refine ⟨fun t' => ?_, hpq.nodup_iff.mpr hrest, fun t' ht' => ?_, ?_⟩
    · rw [hpq.mem_iff, hobjs]
      by_cases heq : t' = t
      · rw [heq, Function.update_self]
        exact iff_of_false (fun hne => hne rfl) hnot
      · rw [Function.update_of_ne heq, h.allocated t', hold, List.mem_cons]
        exact ⟨fun hmem => hmem.resolve_left heq, Or.inr⟩
    · rw [hnext]
      apply h.fresh t'
      rw [hold]
      exact List.mem_cons_of_mem t (hpq.subset ht')
    · have hdeleted : calls.length + h₀.pq.length = h₀.next := h.deleted
      rw [hold, List.length_cons] at hdeleted
      show (calls ++ [call]).length + h₁.pq.length = h₁.next
      rw [hpq.length_eq, hnext, List.length_append, List.length_singleton]
      omega

/-- A timer that is lost stays allocated. -/
theorem Leaked.move {p q : TimerUse} {closes : Bool} (h : Leaked p)
    (hmove : TimerMove closes p q) : Leaked q := by
  obtain ⟨t, hlt, hobj, hnot⟩ := h
  rcases hmove with ⟨u, hpq, hobjs, hnext⟩ | ⟨u, ht, hpq, hobjs, hnext⟩ |
    ⟨call, hold, hpq, hobjs, hnext⟩ | ⟨-, hpq, hobjs, hnext⟩
  case add h₀ h₁ calls =>
    have hne : t ≠ h₀.next := Nat.ne_of_lt hlt
    refine ⟨t, ?_, ?_, ?_⟩
    · rw [hnext]
      exact Nat.lt_succ_of_lt hlt
    · rw [hobjs, Function.update_of_ne hne]
      exact hobj
    · rw [hpq.mem_iff, List.mem_cons]
      exact fun hmem => hmem.elim hne hnot
  case renew h₀ h₁ calls t' =>
    have hne : t ≠ t' := fun heq => hnot (heq ▸ ht)
    refine ⟨t, hnext ▸ hlt, ?_, fun hmem => hnot (hpq.subset hmem)⟩
    rw [hobjs, Function.update_of_ne hne]
    exact hobj
  case delete h₀ h₁ calls t' rest =>
    rw [hold, List.mem_cons, not_or] at hnot
    refine ⟨t, hnext ▸ hlt, ?_, fun hmem => hnot.2 (hpq.subset hmem)⟩
    rw [hobjs, Function.update_of_ne hnot.1]
    exact hobj
  case drop h₀ h₁ calls t' =>
    exact ⟨t, hnext ▸ hlt, hobjs ▸ hobj,
      fun hmem => hnot (List.mem_filter.mp (hpq.subset hmem)).1⟩

/-- A dropped timer is lost. -/
theorem leaked_of_drop {s : Server} {q : TimerUse} (hok : SlotsOk s)
    (hmove : TimerMove true (timerUse s) q) : Leaked q := by
  rcases hmove with _ | _ | _ | ⟨ht, hpq, hobjs, hnext⟩
  rename_i t
  obtain ⟨u, hu, -⟩ := hok.live t ht
  refine ⟨t, hnext ▸ hok.fresh t ht, ?_, fun hmem => ?_⟩
  · rw [hobjs, hu]
    exact Option.some_ne_none u
  · have hne := (List.mem_filter.mp (hpq.subset hmem)).2
    simp at hne

theorem Kept.balanced {s : Server} (h : Kept (timerUse s)) : TimersBalanced s :=
  ⟨h.allocated, h.nodup, h.deleted⟩

theorem Leaked.not_balanced {s : Server} (h : Leaked (timerUse s)) : ¬ TimersBalanced s := by
  obtain ⟨t, -, hobj, hnot⟩ := h
  exact fun hb => hnot ((hb.allocated t).mp hobj)

/-! ## Runs -/

/-- A run loses a timer or keeps them all, as its steps say. -/
theorem exec_timers {cfg : Config} {as : List ServerAction} : ∀ {s s' : Server}, SlotsOk s →
    exec (serverStep cfg) s as = some s' →
      (Leaked (timerUse s) → Leaked (timerUse s')) ∧
      (Kept (timerUse s) → if ∀ a ∈ as, a.loopCloses = false then Kept (timerUse s')
        else Leaked (timerUse s')) := by
  induction as with
  | nil =>
      intro s s' _ h
      cases h
      exact ⟨id, fun hk => by rwa [if_pos (fun a ha => absurd ha List.not_mem_nil)]⟩
  | cons a as ih =>
      intro s s' hok h
      obtain ⟨m, hm, hrest⟩ := exec_cons h
      obtain ⟨hlost, hkept⟩ := ih (serverStep_slotsOk hok hm) hrest
      have hleaked : Leaked (timerUse s) → Leaked (timerUse m) :=
        fun hl => serverStep_timerUse hok hl (fun _ _ hp hmove => hp.move hmove) hm
      refine ⟨fun hl => hlost (hleaked hl), fun hk => ?_⟩
      cases hcloses : a.loopCloses with
      | true =>
        rw [if_neg (fun hall => by simpa [hcloses] using hall a List.mem_cons_self)]
        exact hlost (leaked_of_drop hok (serverStep_drops hok hcloses hm))
      | false =>
        have hm' : Kept (timerUse m) := serverStep_timerUse hok hk
          (fun _ _ hp hmove => hp.move (hcloses ▸ hmove)) hm
        have hiff : (∀ b ∈ a :: as, b.loopCloses = false) ↔ ∀ b ∈ as, b.loopCloses = false := by
          rw [List.forall_mem_cons]
          exact and_iff_right hcloses
        simp only [hiff]
        exact hkept hm'

/-- In every state of every run, the allocated timers are those in the heap, with every
other timer deleted once, exactly when the main loop has closed no connection.
`adjust_timer` neither allocates nor deletes. -/
theorem timersBalanced_iff (cfg : Config) (as : List ServerAction) {s : Server}
    (hexec : exec (serverStep cfg) startServer as = some s) :
    (TimersBalanced s ↔ ∀ a ∈ as, a.loopCloses = false) ∧
    ∀ (h h' : HeapTimer) (t : Nat), h.adjustTimer t = some h' →
      h'.objs = h.objs ∧ h'.next = h.next := by
  have hstart : Kept (timerUse startServer) := by
    refine ⟨fun t => ?_, List.nodup_nil, fun t ht => absurd ht List.not_mem_nil, rfl⟩
    exact iff_of_false (fun hne => hne rfl) List.not_mem_nil
  have hrun := (exec_timers startServer_slotsOk hexec).2 hstart
  constructor
  · split_ifs at hrun with hall
    · exact iff_of_true hrun.balanced hall
    · exact iff_of_false hrun.not_balanced hall
  · intro h h' t hadjust
    rw [HeapTimer.adjustTimer, Option.map_eq_some_iff] at hadjust
    obtain ⟨h₁, hdel, rfl⟩ := hadjust
    obtain ⟨-, hobjs, hnext⟩ := HeapTimer.delTimer_spec hdel
    exact ⟨hobjs, hnext⟩

/-- A connection that is served, and closed by `tick`. -/
def servedAndExpired : List ServerAction :=
  [.epollWait [.listen], .accept, .acceptFails, .endBatch,
    .epollWait [.client 3 .input], .readOnce true, .endBatch, .take,
    .process 3 .noRequest true, .advance 15, .epollWait [.signal], .signals true false, .endBatch]

theorem timersBalanced_expired :
    ∃ s, exec (serverStep (mainConfig [0, 1, 2])) startServer servedAndExpired = some s ∧
      TimersBalanced s := by
  have hsome : (exec (serverStep (mainConfig [0, 1, 2])) startServer servedAndExpired).isSome :=
    by decide
  obtain ⟨s, hs⟩ := Option.isSome_iff_exists.mp hsome
  exact ⟨s, hs, (timersBalanced_iff _ _ hs).1.mpr (by decide)⟩

/-- A peer hangs up: at the end of the iteration its timer is out of the heap, and still
allocated. -/
theorem not_timersBalanced_hangup :
    ∃ s, exec (serverStep (mainConfig [0, 1, 2])) startServer
      [.epollWait [.listen], .accept, .acceptFails, .endBatch,
        .epollWait [.client 3 .hangup], .hangup, .endBatch] = some s ∧
      s.phase = .waiting ∧ ¬ TimersBalanced s := by
  have hany : (exec (serverStep (mainConfig [0, 1, 2])) startServer
      [.epollWait [.listen], .accept, .acceptFails, .endBatch,
        .epollWait [.client 3 .hangup], .hangup, .endBatch]).any
      (fun s => decide (s.phase = .waiting ∧ s.timers.objs 0 ≠ none ∧ 0 ∉ s.timers.pq)) = true := by
    decide
  obtain ⟨s, hs, hstate⟩ := (Option.any_eq_true _ _).mp hany
  obtain ⟨hphase, hobj, hnot⟩ := of_decide_eq_true hstate
  exact ⟨s, hs, hphase, fun hb => hnot ((hb.allocated 0).mp hobj)⟩

end EasyWebServer.Post
