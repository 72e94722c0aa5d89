import EasyWebServer.Cgi.Backlog
import EasyWebServer.Cgi.Dispatch

/-!
# What the parent knows of its children

`waitpid` returns the children that have exited, and the parent writes `-1` over their `m_pid`.
`Roster` is what every step of the pool keeps, whatever signals are lost: the slots hold the
processes that the parent has not reaped, and `m_stop` is set when none is left.
-/

namespace EasyWebServer.Cgi

open Transition Threads

/-! ## The roster -/

/-- What a child is for the parent. -/
def Child.ident (c : Child) : Int × Life := (c.pid, c.life)

/-- What the slot of a child holds. -/
def Child.slot (c : Child) : Int := if c.life = .reaped then -1 else c.pid

/-- The slots hold the processes that are not reaped. -/
structure Roster (pids : List Int) (s : Pool) : Prop where
  slots : s.parent.pids = s.children.map Child.slot
  pids : s.children.map Child.pid = pids
  counter : s.parent.subProcessCounter < s.parent.processNumber
  stop : s.parent.stop = true ↔ ∀ c ∈ s.children, c.life = .reaped

variable {pids : List Int} {s s' : Pool}

theorem startPool_roster (hsize : pids ≠ []) : Roster pids (startPool pids) where
  slots := by
    show pids = (pids.map _).map Child.slot
    rw [List.map_map]
    exact (List.map_id pids).symm
  pids := by
    show (pids.map _).map Child.pid = pids
    rw [List.map_map]
    exact List.map_id pids
  counter := List.length_pos_of_ne_nil hsize
  stop := by
    obtain ⟨pid, hpid⟩ := List.exists_mem_of_ne_nil pids hsize
    refine iff_of_false Bool.false_ne_true (fun hall => ?_)
    have hlife := hall _ (List.mem_map_of_mem hpid)
    cases hlife

/-- `m_pid` of a child is `-1` when it is reaped. -/
theorem Child.slot_eq_iff {c : Child} (hpid : c.pid ≠ -1) : c.slot = -1 ↔ c.life = .reaped := by
  rw [slot]
  by_cases hlife : c.life = .reaped
  · rw [if_pos hlife]
    exact iff_of_true rfl hlife
  · rw [if_neg hlife]
    exact iff_of_false hpid hlife

/-- Every slot is `-1` when all children are reaped. -/
theorem all_slots_iff {slots : List Int} {children : List Child}
    (hslots : slots = children.map Child.slot) (hpids : -1 ∉ children.map Child.pid) :
    (∀ m ∈ slots, m = -1) ↔ ∀ c ∈ children, c.life = .reaped := by
  rw [hslots, List.forall_mem_map]
  refine forall₂_congr (fun c hc => Child.slot_eq_iff (fun heq => hpids ?_))
  rw [← heq]
  exact List.mem_map_of_mem hc

theorem Child.notify_ident (c : Child) : c.notify.ident = c.ident := by
  rw [notify]
  split <;> rfl

theorem modify_notify_ident (children : List Child) (j : Nat) :
    (children.modify j Child.notify).map Child.ident = children.map Child.ident := by
  rcases hk : children[j]? with _ | c
  · rw [List.modify_eq_set_getElem?, hk]
    rfl
  · rw [modify_notify hk]
    exact map_set_same Child.ident hk c.notify_ident

namespace Roster

/-- Children that stay what they are for the parent. -/
theorem congr (h : Roster pids s) (hparent : s'.parent = s.parent)
    (hident : s'.children.map Child.ident = s.children.map Child.ident) : Roster pids s' := by
  have hmap : ∀ {β : Type} (g : Int × Life → β),
      s'.children.map (g ∘ Child.ident) = s.children.map (g ∘ Child.ident) := by
    intro β g
    rw [← List.map_map, hident, List.map_map]
  have hlife : (∀ c ∈ s'.children, c.life = .reaped) ↔ ∀ c ∈ s.children, c.life = .reaped := by
    have hmem : ∀ children : List Child,
        (∀ l ∈ children.map (Prod.snd ∘ Child.ident), l = .reaped) ↔
          ∀ c ∈ children, c.life = .reaped := fun children => List.forall_mem_map
    rw [← hmem, ← hmem, hmap]
  exact {
    slots := by
      rw [hparent, h.slots]
      exact (hmap (fun i => if i.2 = .reaped then -1 else i.1)).symm
    pids := (hmap Prod.fst).trans h.pids
    counter := by
      rw [hparent]
      exact h.counter
    stop := by
      rw [hparent, hlife]
      exact h.stop }

/-- One child takes a step. -/
theorem setChild (h : Roster pids s) {k : Nat} {c c' : Child} (hk : s.children[k]? = some c)
    (hchildren : s'.children = s.children.set k c') (hsame : c'.ident = c.ident)
    (hparent : s'.parent = s.parent) : Roster pids s' := by
  apply h.congr hparent
  rw [hchildren]
  exact map_set_same Child.ident hk hsame

/-- A child exits, and keeps its slot. -/
theorem exit (h : Roster pids s) {k : Nat} {c : Child} (hk : s.children[k]? = some c)
    (halive : c.life = .alive) :
    Roster pids { s with children := s.children.set k { c with life := .zombie } } where
  slots := by
    show s.parent.pids = (s.children.set k { c with life := .zombie }).map Child.slot
    rw [map_set_same Child.slot hk]
    · exact h.slots
    · simp [Child.slot, halive]
  pids := by
    have hsame : ({ c with life := .zombie } : Child).pid = c.pid := rfl
    exact (map_set_same Child.pid hk hsame).trans h.pids
  counter := h.counter
  stop := by
    have hlt : k < s.children.length := (List.getElem?_eq_some_iff.mp hk).1
    show s.parent.stop = true ↔ ∀ d ∈ s.children.set k { c with life := .zombie }, _
    rw [h.stop]
    refine iff_of_false (fun hall => ?_) (fun hall => ?_)
    · have hlife := hall c (List.mem_of_getElem? hk)
      rw [halive] at hlife
      cases hlife
    · have hlife := hall _ (List.mem_set hlt { c with life := .zombie })
      cases hlife

/-- The parent has read `SIGCHLD`. -/
theorem reap (h : Roster pids s) (hpids : -1 ∉ pids) (hdup : pids.Nodup) :
    Roster pids (s.handleSignal .chld) := by
  have hdead : ∀ c ∈ s.children, (c.pid ∈ s.dead ↔ c.life = .zombie) := by
    intro c hc
    rw [Pool.dead, List.mem_map]
    constructor
    · rintro ⟨d, hd, hpid⟩
      obtain ⟨hmem, hlife⟩ := List.mem_filter.mp hd
      have heq : d = c := by
        rw [← h.pids] at hdup
        exact List.inj_on_of_nodup_map hdup hmem hc hpid
      rw [← heq]
      exact of_decide_eq_true hlife
    · intro hlife
      exact ⟨c, List.mem_filter.mpr ⟨hc, decide_eq_true hlife⟩, rfl⟩
  have hslots : (s.parent.sigchld s.dead).pids = (s.children.map Child.wait).map Child.slot := by
    rw [Parent.sigchld, Parent.foldl_join, h.slots]
    show List.map _ (List.map _ s.children) = _
    rw [List.map_map, List.map_map]
    apply List.map_congr_left
    intro c hc
    have hiff := hdead c hc
    rw [Function.comp_apply, Function.comp_apply, Child.wait, Child.slot]
    rcases hlife : c.life with _ | _ | _
    · have hnot : c.pid ∉ s.dead := by
        rw [hiff, hlife]
        decide
      simp [Child.slot, hlife, hnot]
    · have hmem : c.pid ∈ s.dead := hiff.mpr hlife
      simp [Child.slot, hmem]
    · simp [Child.slot, hlife]
  have hpid : (s.children.map Child.wait).map Child.pid = pids := by
    rw [List.map_map, ← h.pids]
    apply List.map_congr_left
    intro c _
    rw [Function.comp_apply, Child.wait]
    split <;> rfl
  exact {
    slots := hslots
    pids := hpid
    counter := by
      show (s.parent.sigchld s.dead).subProcessCounter < (s.parent.sigchld s.dead).processNumber
      rw [Parent.sigchld, Parent.foldl_join, Parent.processNumber, List.length_map]
      exact h.counter
    stop := by
      have hall := all_slots_iff hslots (by rw [hpid]; exact hpids)
      refine Iff.trans ?_ hall
      show ((s.dead.foldl Parent.join s.parent).pids.all fun m => decide (m = -1)) = true ↔ _
      rw [List.all_eq_true]
      exact forall₂_congr (fun m _ => decide_eq_true_iff) }

/-- The parent notifies a child. -/
theorem dispatch (h : Roster pids s) {p : Parent} {j : Nat}
    (hdispatch : s.parent.dispatch = some (p, some j)) (phase : ParentPhase) :
    Roster pids { s with
      parent := p, phase := phase, children := s.children.modify j Child.notify } := by
  have hp : p = { s.parent with subProcessCounter := (j + 1) % s.parent.processNumber } := by
    rcases Parent.dispatch_spec h.counter with ⟨k, -, hk⟩ | ⟨-, hnone⟩
    · rw [hk] at hdispatch
      cases hdispatch
      rfl
    · rw [hnone] at hdispatch
      cases hdispatch
  subst hp
  have hnotify : Roster pids { s with children := s.children.modify j Child.notify } :=
    h.congr rfl (modify_notify_ident s.children j)
  exact { hnotify with
    counter := Nat.mod_lt _ (Nat.zero_lt_of_lt h.counter) }

/-- The parent finds no child, and stops. -/
theorem dispatch_none (h : Roster pids s) {p : Parent}
    (hdispatch : s.parent.dispatch = some (p, none)) :
    (∀ k < s.parent.processNumber, s.parent.pid k = -1) ∧ p = { s.parent with stop := true } := by
  rcases Parent.dispatch_spec h.counter with ⟨k, -, hk⟩ | ⟨hall, hnone⟩
  · rw [hk] at hdispatch
    cases hdispatch
  · rw [hnone] at hdispatch
    cases hdispatch
    exact ⟨hall, rfl⟩

theorem stopped (h : Roster pids s) (hpids : -1 ∉ pids) {p : Parent}
    (hdispatch : s.parent.dispatch = some (p, none)) (phase : ParentPhase) :
    Roster pids { s with parent := p, phase := phase } := by
  obtain ⟨hall, hp⟩ := h.dispatch_none hdispatch
  subst hp
  refine { h with stop := iff_of_true rfl ?_ }
  apply (all_slots_iff h.slots (by rw [h.pids]; exact hpids)).mp
  intro m hm
  obtain ⟨k, hk⟩ := List.mem_iff_getElem?.mp hm
  have hpid := hall k (List.getElem?_eq_some_iff.mp hk).1
  rw [Parent.pid, List.getD_eq_getElem?_getD, hk] at hpid
  exact hpid

/-- The parent has read signals. -/
theorem readSignals (h : Roster pids s) (hpids : -1 ∉ pids) (hdup : pids.Nodup) :
    Roster pids s.readSignals := by
  have hfold : ∀ (sigs : List Signal) (s : Pool), Roster pids s →
      Roster pids (sigs.foldl Pool.handleSignal s) := by
    intro sigs
    induction sigs with
    | nil => exact fun _ h => h
    | cons sig sigs ih =>
        intro s h
        rcases sig with _ | _
        · exact ih _ (h.reap hpids hdup)
        · exact ih _ h
  exact hfold _ _ { h with }

end Roster

/-- Every step keeps the roster. -/
theorem poolStep_roster {a : PoolAction} (hpids : -1 ∉ pids) (hdup : pids.Nodup)
    (h : Roster pids s) (hstep : poolStep s a = some s') : Roster pids s' := by
  rcases poolStep_inv hstep with _ | _ | _ | _ | _ | ⟨_, hdispatch⟩ | ⟨_, hdispatch⟩ |
    ⟨hphase⟩ | ⟨hk, halive, -, -⟩ | ⟨hk, halive, -⟩ | ⟨hk, halive, -⟩ | ⟨hk, halive, -, -⟩ |
    ⟨hk, halive, -⟩ | ⟨hk, halive⟩
  case dispatch events p j _ => exact h.dispatch hdispatch (.handling events)
  case stop events p _ => exact h.stopped hpids hdispatch (.stopped (.listen :: events))
  case readSignals events =>
    have h' : Roster pids { s with phase := .handling events } := { h with }
    exact h'.readSignals hpids hdup
  case childWait => exact h.setChild hk rfl rfl rfl
  case childEnd => exact h.setChild hk rfl rfl rfl
  case recv => exact h.setChild hk rfl rfl rfl
  case childOther => exact h.setChild hk rfl rfl rfl
  case accept => exact h.setChild hk rfl rfl rfl
  case exit => exact h.exit hk halive
  all_goals exact { h with }

end EasyWebServer.Cgi
