import EasyWebServer.Lib.RoundRobin
import EasyWebServer.Cgi.ProcessPool

/-!
# The children take turns

`run_parent` looks for the child that it notifies in a loop over the slots, from
`sub_process_counter` on, and sets `m_pid` of a child that `waitpid` returns to `-1`.

`History` is the parent with what it has done: the children it has notified, and the
processes that `waitpid` has returned.  A child is reaped when its process is one of these
(`Unreaped` says that it is not), whatever the slots say; that they say the same is part of the
invariant `TurnsOk`.

`takeTurns` says which child every notification goes to, that the children take turns, and
when `m_stop` is set.
-/

namespace EasyWebServer.Cgi

open Transition RoundRobin

/-! ## The events of the parent -/

/-- An event that the parent handles. -/
inductive Handled where
  /-- A report of `m_listenfd`. -/
  | listen
  /-- `SIGCHLD`, with the processes that `waitpid` returns. -/
  | sigchld (dead : List Int)
  deriving DecidableEq, Repr

/-- The parent, and what it has done. -/
structure History where
  parent : Parent
  /-- The children that have been notified, the first one first. -/
  sent : List Nat
  /-- The processes that `waitpid` has returned. -/
  joined : List Int
  deriving DecidableEq, Repr

/-- The parent in front of its first `epoll_wait`. -/
def startHistory (pids : List Int) : History := ⟨⟨pids, 0, false⟩, [], []⟩

/-- The parent handles an event.  The runs include those in which events follow on one that sets
`m_stop`, as they do in the rest of a batch. -/
def handle (s : History) : Handled → Option History
  | .listen => s.parent.dispatch.map fun r =>
      { s with parent := r.1, sent := s.sent ++ r.2.toList }
  | .sigchld dead => some
      { s with parent := s.parent.sigchld dead, joined := s.joined ++ dead }

/-! ## The property -/

/-- The child `j` of the pool, whose process `waitpid` has not returned. -/
def Unreaped (pids joined : List Int) (j : Nat) : Prop := ∃ pid ∈ pids[j]?, pid ∉ joined

instance (pids joined : List Int) (j : Nat) : Decidable (Unreaped pids joined j) := by
  unfold Unreaped
  infer_instance

/-- The loop over the slots ends, and the notification goes to the first child that is not
reaped, if there is one. -/
def Notifies (pids : List Int) (s : History) : Handled → Prop
  | .listen => ∃ s', handle s .listen = some s' ∧
      ((∃ j, IsNext pids.length (Unreaped pids s.joined) s.parent.subProcessCounter j ∧
          s'.sent = s.sent ++ [j]) ∨
        (∀ j, ¬ Unreaped pids s.joined j) ∧ s'.sent = s.sent)
  | .sigchld dead => ∃ s', handle s (.sigchld dead) = some s' ∧ s'.sent = s.sent

/-- The children take turns, and `m_stop` says whether all are reaped. -/
structure InOrder (pids : List Int) (s : History) : Prop where
  fair : Fair pids.length (Unreaped pids s.joined) s.sent
  stop : s.parent.stop = true ↔ ∀ j, ¬ Unreaped pids s.joined j

/-! ## The loop over the slots -/

namespace Parent

/-- The ways an iteration ends: at a slot that is in use, at the next one, or back where the
loop started. -/
theorem searchIter_cases (p : Parent) (j : Nat) :
    p.pid j ≠ -1 ∧ p.searchIter j = .inr j ∨
      p.pid j = -1 ∧ (j + 1) % p.processNumber ≠ p.subProcessCounter ∧
        p.searchIter j = .inl ((j + 1) % p.processNumber) ∨
      p.pid j = -1 ∧ (j + 1) % p.processNumber = p.subProcessCounter ∧
        p.searchIter j = .inr ((j + 1) % p.processNumber) := by
  rw [searchIter]
  by_cases hpid : p.pid j = -1
  · rw [if_neg (not_not.mpr hpid)]
    by_cases hback : (j + 1) % p.processNumber = p.subProcessCounter
    · exact .inr (.inr ⟨hpid, hback, if_neg (not_not.mpr hback)⟩)
    · exact .inr (.inl ⟨hpid, hback, if_pos hback⟩)
  · rw [if_pos hpid]
    exact .inl ⟨hpid, rfl⟩

/-- The loop has come to the slot `j`: the slots before it are those of reaped children. -/
structure Searched (p : Parent) (j : Nat) : Prop where
  lt : j < p.processNumber
  before : ∀ k < p.processNumber, offset p.processNumber p.subProcessCounter k <
    offset p.processNumber p.subProcessCounter j → p.pid k = -1

theorem searched_start {p : Parent} (h : p.subProcessCounter < p.processNumber) :
    Searched p p.subProcessCounter where
  lt := h
  before := by
    intro k _ hlt
    rw [offset_self] at hlt
    exact absurd hlt (Nat.not_lt_zero _)

/-- The slots before the next one: those before this one, and this one. -/
theorem Searched.upto {p : Parent} {j k : Nat} (h : p.subProcessCounter < p.processNumber)
    (hj : Searched p j) (hpid : p.pid j = -1) (hk : k < p.processNumber)
    (hle : offset p.processNumber p.subProcessCounter k ≤
      offset p.processNumber p.subProcessCounter j) : p.pid k = -1 := by
  rcases Nat.lt_or_eq_of_le hle with hlt | heq
  · exact hj.before k hk hlt
  · rw [offset_inj h hk hj.lt heq]
    exact hpid

/-- An iteration that goes on comes closer to the end of the slots. -/
theorem Searched.next {p : Parent} {j j' : Nat} (h : p.subProcessCounter < p.processNumber)
    (hj : Searched p j) (hiter : p.searchIter j = .inl j') :
    Searched p j' ∧
      p.processNumber - 1 - offset p.processNumber p.subProcessCounter j' <
        p.processNumber - 1 - offset p.processNumber p.subProcessCounter j := by
  rcases searchIter_cases p j with ⟨-, heq⟩ | ⟨hpid, hne, heq⟩ | ⟨-, -, heq⟩
  · rw [heq] at hiter
    cases hiter
  · rw [heq] at hiter
    cases hiter
    have hsucc := offset_succ h hj.lt hne
    have hlt : (j + 1) % p.processNumber < p.processNumber :=
      Nat.mod_lt _ (Nat.zero_lt_of_lt hj.lt)
    have hbound := offset_lt h hlt
    refine ⟨⟨hlt, fun k hk hless => ?_⟩, by omega⟩
    exact hj.upto h hpid hk (by omega)
  · rw [heq] at hiter
    cases hiter

/-- Where the loop ends, a child is in use, or no child is. -/
theorem Searched.done {p : Parent} {j r : Nat} (h : p.subProcessCounter < p.processNumber)
    (hj : Searched p j) (hiter : p.searchIter j = .inr r) :
    Searched p r ∧ (p.pid r = -1 → ∀ k < p.processNumber, p.pid k = -1) := by
  rcases searchIter_cases p j with ⟨hpid, heq⟩ | ⟨-, -, heq⟩ | ⟨hpid, hback, heq⟩
  · rw [heq] at hiter
    cases hiter
    exact ⟨hj, fun hreaped => absurd hreaped hpid⟩
  · rw [heq] at hiter
    cases hiter
  · rw [heq] at hiter
    cases hiter
    rw [hback]
    refine ⟨searched_start h, fun _ k hk => hj.upto h hpid hk ?_⟩
    have hlast := offset_of_succ h hj.lt hback
    have hbound := offset_lt h hk
    omega

/-- The loop ends.  The slots before the one that it ends at are those of reaped children, and
so are all slots when this one is. -/
theorem search_spec {p : Parent} (h : p.subProcessCounter < p.processNumber) :
    ∃ j, p.search = some j ∧ Searched p j ∧
      (p.pid j = -1 → ∀ k < p.processNumber, p.pid k = -1) := by
  have hstart := searched_start h
  obtain ⟨j, hrun⟩ : ∃ j, p.search = some j := by
    apply Loop.exists_run_of_variant p.searchIter (Searched p)
      (fun j => p.processNumber - 1 - offset p.processNumber p.subProcessCounter j)
      (fun _ _ hj hiter => hj.next h hiter) _ _ hstart
    omega
  exact ⟨j, hrun, (Loop.returns_of_run hrun).invariant (Searched p) _ hstart
    (fun j j' hj hiter => (hj.next h hiter).1) (fun j r hj hiter => hj.done h hiter)⟩

/-- The branch of the listening socket. -/
theorem dispatch_spec {p : Parent} (h : p.subProcessCounter < p.processNumber) :
    (∃ j, IsNext p.processNumber (fun k => p.pid k ≠ -1) p.subProcessCounter j ∧
        p.dispatch =
          some ({ p with subProcessCounter := (j + 1) % p.processNumber }, some j)) ∨
      (∀ k < p.processNumber, p.pid k = -1) ∧
        p.dispatch = some ({ p with stop := true }, none) := by
  obtain ⟨j, hsearch, hj, hall⟩ := search_spec h
  rw [dispatch, hsearch, Option.map_some]
  by_cases hpid : p.pid j = -1
  · right
    rw [if_pos hpid]
    exact ⟨hall hpid, rfl⟩
  · left
    rw [if_neg hpid]
    refine ⟨j, ⟨hj.lt, hpid, fun k hk hlive => ?_⟩, rfl⟩
    by_contra hlt
    exact hlive (hj.before k hk (by omega))

end Parent

/-! ## The slots and the children -/

/-- The children that `waitpid` returns are taken out of the slots, in any order. -/
theorem Parent.foldl_join (dead : List Int) (p : Parent) :
    dead.foldl Parent.join p =
      { p with pids := p.pids.map fun m => if m ∈ dead then -1 else m } := by
  induction dead generalizing p with
  | nil =>
      have hsame : p.pids.map (fun m => if m ∈ ([] : List Int) then -1 else m) = p.pids := by
        apply List.map_id''
        intro m
        exact if_neg List.not_mem_nil
      rw [hsame]
      rfl
  | cons pid dead ih =>
      rw [List.foldl_cons, ih, Parent.join, List.map_map]
      congr 1
      apply List.map_congr_left
      intro m _
      by_cases hm : m = pid
      · rw [Function.comp_apply, if_pos hm, ite_self, if_pos (by rw [hm]; exact List.mem_cons_self)]
      · rw [Function.comp_apply, if_neg hm]
        by_cases hdead : m ∈ dead
        · rw [if_pos hdead, if_pos (List.mem_cons_of_mem _ hdead)]
        · rw [if_neg hdead, if_neg (fun h => (List.mem_cons.mp h).elim hm hdead)]

/-- The slots hold `-1` for the children that are reaped, and the processes of the others. -/
def Slots (pids joined : List Int) (p : Parent) : Prop :=
  p.pids = pids.map fun m => if m ∈ joined then -1 else m

theorem Slots.processNumber {pids joined : List Int} {p : Parent} (h : Slots pids joined p) :
    p.processNumber = pids.length := by
  rw [Parent.processNumber, h, List.length_map]

theorem Slots.pid_iff {pids joined : List Int} {p : Parent} (h : Slots pids joined p)
    (hpids : -1 ∉ pids) (k : Nat) : p.pid k ≠ -1 ↔ Unreaped pids joined k := by
  rw [Parent.pid, h, List.getD_eq_getElem?_getD, List.getElem?_map, Unreaped]
  rcases hk : pids[k]? with _ | pid
  · exact iff_of_false (fun hne => hne rfl) (fun ⟨_, hmem, _⟩ => Option.not_mem_none _ hmem)
  · have hne : pid ≠ -1 := fun heq => hpids (heq ▸ List.mem_of_getElem? hk)
    show (if pid ∈ joined then -1 else pid) ≠ -1 ↔ ∃ m ∈ some pid, m ∉ joined
    split
    · rename_i hmem
      exact iff_of_false (fun h => h rfl) (fun ⟨m, hm, hnot⟩ =>
        hnot (Option.mem_some_iff.mp hm ▸ hmem))
    · rename_i hnot
      exact iff_of_true hne ⟨pid, rfl, hnot⟩

theorem Slots.sigchld {pids joined : List Int} {p : Parent} (h : Slots pids joined p)
    (dead : List Int) : Slots pids (joined ++ dead) (p.sigchld dead) := by
  rw [Slots, Parent.sigchld, Parent.foldl_join, h]
  show List.map _ (List.map _ pids) = _
  rw [List.map_map]
  apply List.map_congr_left
  intro m _
  rw [Function.comp_apply]
  by_cases hjoined : m ∈ joined
  · rw [if_pos hjoined, ite_self, if_pos (List.mem_append_left _ hjoined)]
  · rw [if_neg hjoined]
    by_cases hdead : m ∈ dead
    · rw [if_pos hdead, if_pos (List.mem_append_right _ hdead)]
    · rw [if_neg hdead, if_neg (fun hm => (List.mem_append.mp hm).elim hjoined hdead)]

/-- `waitpid` returns more children. -/
theorem Unreaped.of_append {pids joined dead : List Int} {j : Nat}
    (h : Unreaped pids (joined ++ dead) j) : Unreaped pids joined j := by
  obtain ⟨pid, hpid, hnot⟩ := h
  exact ⟨pid, hpid, fun hmem => hnot (List.mem_append_left _ hmem)⟩

/-- The test behind the loop over the children that `waitpid` returns. -/
theorem Slots.stop_iff {pids joined : List Int} {p : Parent} (h : Slots pids joined p)
    (hpids : -1 ∉ pids) :
    (p.pids.all fun m => decide (m = -1)) = true ↔ ∀ j, ¬ Unreaped pids joined j := by
  rw [List.all_eq_true]
  constructor
  · intro hall j hlive
    have hne := (h.pid_iff hpids j).mpr hlive
    rw [Parent.pid, List.getD_eq_getElem?_getD] at hne
    rcases hj : p.pids[j]? with _ | m
    · rw [hj] at hne
      exact hne rfl
    · rw [hj] at hne
      exact hne (of_decide_eq_true (hall m (List.mem_of_getElem? hj)))
  · intro hnone m hm
    obtain ⟨j, hj⟩ := List.mem_iff_getElem?.mp hm
    have hreaped := mt (h.pid_iff hpids j).mp (hnone j)
    rw [Parent.pid, List.getD_eq_getElem?_getD, hj] at hreaped
    exact decide_eq_true (not_not.mp hreaped)

/-! ## The runs -/

/-- What every event keeps. -/
structure TurnsOk (pids : List Int) (s : History) : Prop where
  slots : Slots pids s.joined s.parent
  turn : InTurn pids.length (Unreaped pids s.joined) s.parent.subProcessCounter s.sent
  order : InOrder pids s

theorem startHistory_turnsOk {pids : List Int} (hsize : pids ≠ []) :
    TurnsOk pids (startHistory pids) where
  slots := by
    show pids = pids.map fun m => if m ∈ ([] : List Int) then -1 else m
    rw [List.map_id'']
    intro m
    exact if_neg List.not_mem_nil
  turn := InTurn.start (List.length_pos_of_ne_nil hsize)
  order := {
    fair := by
      intro before i between h
      exact absurd h.symm (List.append_ne_nil_of_right_ne_nil _ (List.cons_ne_nil _ _))
    stop := by
      refine iff_of_false Bool.false_ne_true (fun hnone => ?_)
      obtain ⟨pid, rest, rfl⟩ := List.exists_cons_of_ne_nil hsize
      exact hnone 0 ⟨pid, rfl, List.not_mem_nil⟩ }

/-- The branch of the listening socket, in terms of the children. -/
theorem TurnsOk.dispatch {pids : List Int} {s : History} (h : TurnsOk pids s)
    (hpids : -1 ∉ pids) :
    (∃ j, IsNext pids.length (Unreaped pids s.joined) s.parent.subProcessCounter j ∧
        handle s .listen = some
          { s with
            parent := { s.parent with subProcessCounter := (j + 1) % pids.length }
            sent := s.sent ++ [j] }) ∨
      (∀ j, ¬ Unreaped pids s.joined j) ∧
        handle s .listen = some { s with parent := { s.parent with stop := true } } := by
  have hnumber := h.slots.processNumber
  have hlt := h.turn.lt
  rw [← hnumber] at hlt
  rcases Parent.dispatch_spec hlt with ⟨j, hnext, hdispatch⟩ | ⟨hnone, hdispatch⟩
  · rw [hnumber] at hnext hdispatch
    refine .inl ⟨j, hnext.congr (fun k _ => h.slots.pid_iff hpids k), ?_⟩
    rw [handle, hdispatch]
    rfl
  · refine .inr ⟨fun j hlive => ?_, ?_⟩
    · have hj : j < pids.length := by
        obtain ⟨pid, hpid, -⟩ := hlive
        exact (List.getElem?_eq_some_iff.mp hpid).1
      exact (h.slots.pid_iff hpids j).mpr hlive (hnone j (by omega))
    · rw [handle, hdispatch]
      show some { s with parent := { s.parent with stop := true }, sent := s.sent ++ [] } = _
      rw [List.append_nil]

theorem TurnsOk.notifies {pids : List Int} {s : History} (h : TurnsOk pids s)
    (hpids : -1 ∉ pids) (a : Handled) : Notifies pids s a := by
  rcases a with _ | dead
  case listen =>
    rcases h.dispatch hpids with ⟨j, hnext, hs'⟩ | ⟨hnone, hs'⟩
    · exact ⟨_, hs', .inl ⟨j, hnext, rfl⟩⟩
    · exact ⟨_, hs', .inr ⟨hnone, rfl⟩⟩
  case sigchld => exact ⟨_, rfl, rfl⟩

theorem TurnsOk.step {pids : List Int} {s s' : History} {a : Handled} (h : TurnsOk pids s)
    (hpids : -1 ∉ pids) (hstep : handle s a = some s') : TurnsOk pids s' := by
  rcases a with _ | dead
  case listen =>
    rcases h.dispatch hpids with ⟨j, hnext, hs'⟩ | ⟨hnone, hs'⟩
    · rw [hs'] at hstep
      cases hstep
      exact ⟨h.slots, h.turn.serve hnext, h.turn.fair hnext, h.order.stop⟩
    · rw [hs'] at hstep
      cases hstep
      exact ⟨h.slots, h.turn, h.order.fair, iff_of_true rfl hnone⟩
  case sigchld =>
    cases hstep
    have hslots := h.slots.sigchld dead
    have hcounter : (s.parent.sigchld dead).subProcessCounter = s.parent.subProcessCounter := by
      rw [Parent.sigchld, Parent.foldl_join]
    refine ⟨hslots, ?_, h.order.fair.mono (fun _ hj => hj.of_append), hslots.stop_iff hpids⟩
    show InTurn pids.length _ (s.parent.sigchld dead).subProcessCounter s.sent
    rw [hcounter]
    exact h.turn.mono (fun _ hj => hj.of_append)

/-- For every pool, and whatever connections arrive and children die: each report of the
listening socket ends the loop over the slots and notifies the first child from
`sub_process_counter` on that is not reaped; between two notifications of a child each of the
others that is not reaped gets one; and behind each event `m_stop` is set exactly when all
children are reaped. -/
theorem takeTurns (pids : List Int) (hsize : pids ≠ []) (hpids : -1 ∉ pids) (as : List Handled) :
    AllSteps handle (Notifies pids) (startHistory pids) as ∧
      Always handle (InOrder pids) (startHistory pids) as := by
  have hstart := startHistory_turnsOk hsize
  constructor
  · exact allSteps_of_step (TurnsOk pids) (fun s a s' h hs' => h.step hpids hs')
      (fun s a h => h.notifies hpids a) hstart as
  · exact always_of_step (TurnsOk pids) (fun s a s' h hs' => h.step hpids hs')
      (fun s h => h.order) hstart as

/-- A pool of three children, one of which dies between two notifications. -/
theorem takeTurns_three :
    AllSteps handle (Notifies [71, 72, 73]) (startHistory [71, 72, 73])
        [.listen, .listen, .sigchld [72], .listen, .listen, .sigchld [71, 73], .listen] ∧
      Always handle (InOrder [71, 72, 73]) (startHistory [71, 72, 73])
        [.listen, .listen, .sigchld [72], .listen, .listen, .sigchld [71, 73], .listen] :=
  takeTurns [71, 72, 73] (by decide) (by decide)
    [.listen, .listen, .sigchld [72], .listen, .listen, .sigchld [71, 73], .listen]

end EasyWebServer.Cgi
