import EasyWebServer.Cgi.Family

/-!
# The end of the process pool

About the runs of the family in which every signal handler finds room for its byte and fewer than
1024 bytes that are not read, and `epoll_wait` of the parent does not fail (`Heard`).

* `always_wellReaped`: the parent never rests over a zombie, and leaves its loop only when it
  has reaped every child.  A zombie has sent `SIGCHLD`, which is on its way to the parent.
* `always_not_atRest_of_term`: from a `SIGTERM` to the parent on, the family never comes to rest
  before that.  The signal is on its way to the parent, or to every child that lives (`Terminating`).
-/

namespace EasyWebServer.Cgi

open Transition Threads

variable {pids : List Int} {s s' : Pool}

/-! ## The children are reaped -/

/-- The parent is in `epoll_wait`, no handler has to run, and it has nothing to read. -/
def ParentRests (f : Family) : Prop :=
  f.pool.phase = .waiting ∧ (∀ sig, f.raised sig = false) ∧ ¬ f.pipe.Comes f.Reported

/-- When the parent rests, there is no zombie, and a child lives; when it has left its loop,
every child is reaped. -/
def WellReaped (f : Family) : Prop :=
  (ParentRests f → (∀ c ∈ f.pool.children, c.life ≠ .zombie) ∧
      ∃ c ∈ f.pool.children, c.life = .alive) ∧
    ∀ events, f.pool.phase = .stopped events → ∀ c ∈ f.pool.children, c.life = .reaped

/-- A handler that runs finds room in its pipe, and less in it than the loop reads at once; and
`epoll_wait` of the parent does not fail. -/
def Heard (capacity : Nat) (f : Family) : FamilyAction → Prop
  | .handler _ => f.pool.signals.length < capacity ∧ f.pool.signals.length < 1024
  | .childHandler k _ =>
      (f.kids k).bytes.length < capacity ∧ (f.kids k).bytes.length < 1024
  | .pool .parentFails => False
  | _ => True

instance (capacity : Nat) (f : Family) (a : FamilyAction) : Decidable (Heard capacity f a) := by
  unfold Heard
  split <;> infer_instance

/-- What every step keeps. -/
structure FamilyOk (pids : List Int) (f : Family) : Prop where
  roster : Roster pids f.pool
  waiting : f.pool.phase = .waiting → f.pool.parent.stop = false
  stopped : ∀ events, f.pool.phase = .stopped events → f.pool.parent.stop = true
  zombies : (∃ c ∈ f.pool.children, c.life = .zombie) → f.pipe.OnItsWay f.Reported .chld
  room : f.pool.signals.length ≤ 1024
  kidRoom : ∀ k, (f.kids k).bytes.length ≤ 1024

theorem startFamily_ok (hsize : pids ≠ []) : FamilyOk pids (startFamily pids) where
  roster := startPool_roster hsize
  waiting := fun _ => rfl
  stopped := fun events h => by cases h
  zombies := by
    rintro ⟨c, hc, hzombie⟩
    obtain ⟨pid, -, rfl⟩ := List.mem_map.mp hc
    cases hzombie
  room := Nat.zero_le 1024
  kidRoom := fun _ => Nat.zero_le 1024

theorem FamilyOk.wellReaped {f : Family} (h : FamilyOk pids f) : WellReaped f := by
  refine ⟨?_, fun events hphase => h.roster.stop.mp (h.stopped events hphase)⟩
  rintro ⟨hphase, hraised, hcomes⟩
  have hnone : ∀ c ∈ f.pool.children, c.life ≠ .zombie := by
    intro c hc hzombie
    rcases h.zombies ⟨c, hc, hzombie⟩ with hs | ⟨hmem, hread⟩
    · rw [show f.pipe.raised .chld = f.raised .chld from rfl, hraised] at hs
      cases hs
    · exact hcomes ⟨List.ne_nil_of_mem hmem, hread⟩
  refine ⟨hnone, ?_⟩
  -- `m_stop` is not set, so a child is not reaped.
  have hleft : ¬ ∀ c ∈ f.pool.children, c.life = .reaped := by
    rw [← h.roster.stop, h.waiting hphase]
    exact Bool.false_ne_true
  obtain ⟨c, hc, hne⟩ : ∃ c ∈ f.pool.children, c.life ≠ .reaped := by
    by_contra hnone'
    exact hleft (fun c hc => not_not.mp (fun hne => hnone' ⟨c, hc, hne⟩))
  refine ⟨c, hc, ?_⟩
  have hzombie := hnone c hc
  rcases hlife : c.life with _ | _ | _
  · rfl
  · exact absurd hlife hzombie
  · exact absurd hlife hne

/-- Behind `recv`, the children that had exited are reaped. -/
theorem foldl_no_zombie {sigs : List Signal} (hmem : .chld ∈ sigs) (s : Pool) :
    ∀ c ∈ (sigs.foldl Pool.handleSignal s).children, c.life ≠ .zombie := by
  have hwait : ∀ (s : Pool), ∀ c ∈ (s.handleSignal .chld).children, c.life ≠ .zombie := by
    intro s c hc
    obtain ⟨d, -, rfl⟩ := List.mem_map.mp hc
    rw [Child.wait]
    split
    · show Life.reaped ≠ .zombie
      decide
    · assumption
  have hkeep : ∀ (sigs : List Signal) (s : Pool), (∀ c ∈ s.children, c.life ≠ .zombie) →
      ∀ c ∈ (sigs.foldl Pool.handleSignal s).children, c.life ≠ .zombie := by
    intro sigs
    induction sigs with
    | nil => exact fun _ h => h
    | cons sig sigs ih =>
        intro s h
        rcases sig with _ | _
        · exact ih _ (hwait s)
        · exact ih _ h
  induction sigs generalizing s with
  | nil => cases hmem
  | cons sig sigs ih =>
      rcases List.mem_cons.mp hmem with rfl | hrest
      · exact hkeep sigs _ (hwait s)
      · exact ih hrest _

/-- Without `SIGCHLD`, the pool is as it was. -/
theorem foldl_no_chld {sigs : List Signal} (hmem : .chld ∉ sigs) (s : Pool) :
    sigs.foldl Pool.handleSignal s = s := by
  induction sigs with
  | nil => rfl
  | cons sig sigs ih =>
      rcases sig with _ | _
      · exact absurd List.mem_cons_self hmem
      · exact ih (fun hrest => hmem (List.mem_cons_of_mem _ hrest))

/-- The signals leave the loop and the pipe of the parent as they are. -/
theorem foldl_handleSignal_frame (sigs : List Signal) (s : Pool) :
    (sigs.foldl Pool.handleSignal s).phase = s.phase ∧
      (sigs.foldl Pool.handleSignal s).signals = s.signals ∧
      (sigs.foldl Pool.handleSignal s).signalEdge = s.signalEdge := by
  induction sigs generalizing s with
  | nil => exact ⟨rfl, rfl, rfl⟩
  | cons sig sigs ih =>
      rcases sig with _ | _
      · exact ih _
      · exact ih _

/-- What the parent does for a signal leaves the bytes in the pipes of the children. -/
theorem readSignals_bytes (f : Family) (k : Nat) :
    (f.readSignals.kids k).bytes = (f.kids k).bytes := by
  have hfold : ∀ (sigs : List Signal) (f : Family),
      ((sigs.foldl Family.handleSignal f).kids k).bytes = (f.kids k).bytes := by
    intro sigs
    induction sigs with
    | nil => exact fun _ => rfl
    | cons sig sigs ih =>
        intro f
        rw [List.foldl_cons, ih]
        rcases sig with _ | _
        · rfl
        · show (if f.pool.parent.pid k ≠ -1 then (f.kids k).raise .term else f.kids k).bytes = _
          split <;> rfl
  exact hfold _ _

/-- What the signal handlers leave in a pipe that the loop empties at once. -/
theorem length_handle_le {p : SelfPipe Signal} {capacity : Nat} (sig : Signal)
    (hroom : p.bytes.length < capacity ∧ p.bytes.length < 1024) :
    (p.handle capacity sig).bytes.length ≤ 1024 := by
  rw [SelfPipe.handle, if_pos hroom.1]
  show (p.bytes ++ [sig]).length ≤ 1024
  rw [List.length_append, List.length_singleton]
  exact hroom.2

theorem update_bytes_le {kids : Nat → SelfPipe Signal}
    (h : ∀ j, (kids j).bytes.length ≤ 1024) (k : Nat) {p : SelfPipe Signal}
    (hp : p.bytes.length ≤ 1024) (j : Nat) : (Function.update kids k p j).bytes.length ≤ 1024 := by
  by_cases hj : j = k
  · rw [hj, Function.update_self]
    exact hp
  · rw [Function.update_of_ne hj]
    exact h j

/-- The read end is in the batch when something has arrived. -/
theorem reported_of_edge {f : Family} {events : List ParentEvent}
    (hsignal : events.count .signal = f.pool.signalEdge.toNat) (hedge : f.pipe.edge = true) :
    .signal ∈ events := by
  change f.pool.signalEdge = true at hedge
  rw [hedge] at hsignal
  exact List.count_pos_iff.mp (by rw [hsignal]; exact Nat.one_pos)

namespace FamilyOk

variable {f f' : Family}

/-- One child takes a step, which does not end it. -/
theorem setChild (h : FamilyOk pids f) {k : Nat} {c : Child} (c' : Child)
    (hk : f.pool.children[k]? = some c) (hident : c'.ident = c.ident) {backlog : Nat}
    {kids : Nat → SelfPipe Signal} (hkids : ∀ k, (kids k).bytes.length ≤ 1024) :
    FamilyOk pids
      ⟨{ f.pool with children := f.pool.children.set k c', backlog := backlog }, f.raised, kids⟩ :=
  { h with
    roster := h.roster.setChild hk rfl hident rfl
    zombies := by
      rintro ⟨d, hd, hzombie⟩
      apply h.zombies
      obtain ⟨j, hj⟩ := List.mem_iff_getElem?.mp hd
      rcases set_cases hj with ⟨-, rfl⟩ | ⟨-, hold⟩
      · refine ⟨c, List.mem_of_getElem? hk, ?_⟩
        rw [← hzombie]
        exact (congrArg Prod.snd hident).symm
      · exact ⟨d, List.mem_of_getElem? hold, hzombie⟩
    kidRoom := hkids }

theorem parent (h : FamilyOk pids f) (hpids : -1 ∉ pids) (hdup : pids.Nodup)
    (hmove : ParentMove f f') : FamilyOk pids f' := by
  rcases hmove with ⟨hphase, hstop⟩ | ⟨hphase, hstop⟩ | ⟨hphase, hdispatch⟩ |
    ⟨hphase, hdispatch⟩ | ⟨hphase⟩
  case wait =>
    exact { h with
      roster := { h.roster with }
      waiting := fun _ => hstop
      stopped := nofun
      zombies := by
        intro hzombie
        have hway := h.zombies hzombie
        rw [Family.Reported, hphase] at hway
        exact hway }
  case leave =>
    exact { h with
      roster := { h.roster with }
      waiting := nofun
      stopped := fun _ _ => hstop
      zombies := by
        intro hzombie
        have hway := h.zombies hzombie
        rw [Family.Reported, hphase] at hway
        exact hway }
  case dispatch events p j =>
    exact { h with
      roster := h.roster.dispatch hdispatch (.handling events)
      waiting := nofun
      stopped := nofun
      zombies := by
        rintro ⟨d, hd, hzombie⟩
        have hlife : Life.zombie ∈ (f.pool.children.modify j Child.notify).map
            (Prod.snd ∘ Child.ident) := List.mem_map.mpr ⟨d, hd, hzombie⟩
        rw [← List.map_map, modify_notify_ident, List.map_map] at hlife
        obtain ⟨e, he, hezombie⟩ := List.mem_map.mp hlife
        refine (h.zombies ⟨e, he, hezombie⟩).mono ?_
        rw [Family.Reported, hphase]
        exact fun hmem => (List.mem_cons.mp hmem).resolve_left nofun }
  case stop events p =>
    have hroster := h.roster.stopped hpids hdispatch (.stopped (.listen :: events))
    obtain ⟨-, rfl⟩ := h.roster.dispatch_none hdispatch
    exact { h with
      roster := hroster
      waiting := nofun
      stopped := fun _ _ => rfl
      zombies := by
        rintro ⟨d, hd, hzombie⟩
        rw [hroster.stop.mp rfl d hd] at hzombie
        cases hzombie }
  case readSignals events =>
    let g : Family := { f with pool := { f.pool with phase := .handling events } }
    let sigs := f.pool.signals.take 1024
    have hroster : Roster pids g.pool := { h.roster with }
    obtain ⟨hpool, hraised⟩ := readSignals_pool g
    obtain ⟨hphase', hsignals, -⟩ := foldl_handleSignal_frame sigs
      { g.pool with signals := f.pool.signals.drop 1024 }
    change g.pool.readSignals.phase = .handling events at hphase'
    change g.pool.readSignals.signals = f.pool.signals.drop 1024 at hsignals
    exact {
      roster := by
        rw [hpool]
        exact hroster.readSignals hpids hdup
      waiting := by
        rw [hpool, hphase']
        exact nofun
      stopped := by
        rw [hpool, hphase']
        exact nofun
      zombies := by
        rw [hpool]
        rintro ⟨d, hd, hzombie⟩
        by_cases hchld : .chld ∈ sigs
        · exact absurd hzombie (foldl_no_zombie hchld _ d hd)
        · rw [Pool.readSignals, foldl_no_chld hchld] at hd
          rcases (h.zombies ⟨d, hd, hzombie⟩).read h.room with hs | hmem
          · refine .inl ?_
            show g.readSignals.raised .chld = true
            rw [hraised]
            exact hs
          · exact absurd hmem hchld
      room := by
        rw [hpool, hsignals, List.length_drop]
        exact (Nat.sub_le _ _).trans h.room
      kidRoom := by
        intro k
        rw [readSignals_bytes]
        exact h.kidRoom k }

end FamilyOk

theorem familyStep_ok {f f' : Family} {capacity : Nat} {a : FamilyAction} (hpids : -1 ∉ pids)
    (hdup : pids.Nodup) (h : FamilyOk pids f) (hheard : Heard capacity f a)
    (hstep : familyStep capacity f a = some f') : FamilyOk pids f' := by
  rcases familyStep_inv hstep with ⟨sig⟩ | ⟨k, sig⟩ | ⟨sig⟩ | ⟨k, sig⟩ | _ | ⟨hphase, hsignal⟩ | _ |
    ⟨hmove⟩ | ⟨hk, hphase, hsignal⟩ | ⟨hk, hident, -, -, -⟩ | ⟨hk, hphase⟩ | ⟨hk, halive⟩
  case kill => exact { h with zombies := fun hzombie => (h.zombies hzombie).raise sig }
  case killChild => exact { h with kidRoom := update_bytes_le h.kidRoom k (h.kidRoom k) }
  case handler =>
    exact { h with
      roster := { h.roster with }
      zombies := fun hzombie => (h.zombies hzombie).handle hheard.1 sig
      room := length_handle_le sig hheard }
  case childHandler =>
    exact { h with kidRoom := update_bytes_le h.kidRoom k (length_handle_le sig hheard) }
  case arrive => exact { h with roster := { h.roster with } }
  case parentWait events =>
    exact { h with
      roster := { h.roster with }
      waiting := nofun
      stopped := nofun
      zombies := by
        intro hzombie
        have hway := h.zombies hzombie
        rw [Family.Reported, hphase, ParentPhase.events, eq_false List.not_mem_nil] at hway
        exact hway.report (reported_of_edge hsignal) }
  case parentFails => exact hheard.elim
  case parent => exact h.parent hpids hdup hmove
  case childWait k c events =>
    exact h.setChild { c with phase := .handling events, edge := false } hk rfl
      (update_bytes_le h.kidRoom k (p := (f.kids k).report) (h.kidRoom k))
  case childNext => exact h.setChild _ hk hident h.kidRoom
  case childSignal k c events =>
    refine h.setChild { c with
      stop := c.stop || decide (.term ∈ (f.kids k).bytes.take 1024)
      phase := .handling events } hk rfl (update_bytes_le h.kidRoom k ?_)
    show ((f.kids k).bytes.drop 1024).length ≤ 1024
    rw [List.length_drop]
    exact (Nat.sub_le _ _).trans (h.kidRoom k)
  case exit =>
    exact { h with
      roster := h.roster.exit hk halive
      zombies := fun _ => .inl (f.pipe.raised_raise .chld) }

/-- When every handler finds room for its byte and fewer than 1024 bytes that are not read, and
`epoll_wait` of the parent does not fail, the parent never rests over a zombie, nor without a
child, and it leaves its loop when every child is reaped. -/
theorem always_wellReaped (capacity : Nat) (hsize : pids ≠ []) (hpids : -1 ∉ pids)
    (hdup : pids.Nodup) (as : List FamilyAction)
    (hheard : AllSteps (familyStep capacity) (Heard capacity) (startFamily pids) as) :
    Always (familyStep capacity) WellReaped (startFamily pids) as :=
  always_of_invariant (FamilyOk pids) (Heard capacity)
    (fun _ _ _ h hg hstep => familyStep_ok hpids hdup h hg hstep) (fun _ h => h.wellReaped)
    (startFamily_ok hsize) hheard

/-- Two children: one exits, and the parent reaps it. -/
theorem always_wellReaped_one :
    Always (familyStep 4) WellReaped (startFamily [7, 8])
      [.pool (.childExit 1), .handler .chld, .pool (.parentWait [.signal]), .pool .parentNext,
        .pool .parentNext] :=
  always_wellReaped 4 (by decide) (by decide) (by decide)
    [.pool (.childExit 1), .handler .chld, .pool (.parentWait [.signal]), .pool .parentNext,
      .pool .parentNext] (by decide)

/-! ## A SIGTERM ends the family -/

/-- The child has a report of its signal pipe that it has not handled. -/
def Child.Reported (c : Child) : Prop := ∃ term, .signal term ∈ c.phase.events

/-- The child is in `epoll_wait`, no handler has to run, and it has nothing to read. -/
def KidRests (p : SelfPipe Signal) (c : Child) : Prop :=
  c.phase = .waiting ∧ (∀ sig, p.raised sig = false) ∧ ¬ p.Comes c.Reported

/-- The parent and the children that live rest. -/
def AtRest (f : Family) : Prop :=
  ParentRests f ∧
    ∀ k c, f.pool.children[k]? = some c → c.life = .alive → KidRests (f.kids k) c

/-- The child leaves its loop, or will read `SIGTERM`. -/
def KidEnds (p : SelfPipe Signal) (c : Child) : Prop :=
  c.stop = true ∨ p.OnItsWay c.Reported .term

/-- The parent leaves its loop, or will read `SIGTERM`, or the children end. -/
def Terminating (f : Family) : Prop :=
  f.pool.parent.stop = true ∨ f.pipe.OnItsWay f.Reported .term ∨
    ∀ k c, f.pool.children[k]? = some c → c.life = .alive → KidEnds (f.kids k) c

/-- A child whose `m_stop` is set is not in `epoll_wait`. -/
def StopsLeave (f : Family) : Prop :=
  ∀ (k : Nat) (c : Child), f.pool.children[k]? = some c → c.life = .alive →
    c.phase = .waiting → c.stop = false

theorem Terminating.not_atRest {f : Family} (h : Terminating f) (hok : FamilyOk pids f)
    (hleave : StopsLeave f) : ¬ AtRest f := by
  rintro ⟨hparent, hkids⟩
  obtain ⟨-, c, hc, halive⟩ := hok.wellReaped.1 hparent
  obtain ⟨hphase, hraised, hcomes⟩ := hparent
  rcases h with hs | ⟨hs | ⟨hmem, hread⟩⟩ | hs
  · rw [hok.waiting hphase] at hs
    cases hs
  · rw [show f.pipe.raised .term = f.raised .term from rfl, hraised] at hs
    cases hs
  · exact hcomes ⟨List.ne_nil_of_mem hmem, hread⟩
  · obtain ⟨k, hk⟩ := List.mem_iff_getElem?.mp hc
    obtain ⟨hwait, hquiet, hnone⟩ := hkids k c hk halive
    rcases hs k c hk halive with hstop | hraised' | ⟨hmem, hread⟩
    · rw [hleave k c hk halive hwait] at hstop
      cases hstop
    · rw [hquiet] at hraised'
      cases hraised'
    · exact hnone ⟨List.ne_nil_of_mem hmem, hread⟩

/-- A child that lives behind the signals has lived before. -/
theorem foldl_alive {sigs : List Signal} {s : Pool} {k : Nat} {c : Child}
    (hk : (sigs.foldl Pool.handleSignal s).children[k]? = some c) (halive : c.life = .alive) :
    s.children[k]? = some c := by
  induction sigs generalizing s with
  | nil => exact hk
  | cons sig sigs ih =>
      have hrest := ih hk
      rcases sig with _ | _
      · change (s.children.map Child.wait)[k]? = some c at hrest
        rw [List.getElem?_map] at hrest
        obtain ⟨d, hd, hwait⟩ := Option.map_eq_some_iff.mp hrest
        rw [Child.wait] at hwait
        split at hwait
        · rw [← hwait] at halive
          cases halive
        · rw [← hwait]
          exact hd
      · exact hrest

/-- The slot of a child that lives. -/
theorem Roster.pid_of_alive (h : Roster pids s) (hpids : -1 ∉ pids) {k : Nat} {c : Child}
    (hk : s.children[k]? = some c) (halive : c.life = .alive) : s.parent.pid k ≠ -1 := by
  have hne : c.pid ≠ -1 := by
    intro heq
    apply hpids
    rw [← heq, ← h.pids]
    exact List.mem_map_of_mem (List.mem_of_getElem? hk)
  rw [Parent.pid, h.slots, List.getD_eq_getElem?_getD, List.getElem?_map, hk]
  show c.slot ≠ -1
  rw [Ne, Child.slot_eq_iff hne, halive]
  decide

/-- `SIGTERM` is sent to every child that lives. -/
theorem foldl_killAll {sigs : List Signal} {f : Family} (h : Roster pids f.pool)
    (hpids : -1 ∉ pids) (hdup : pids.Nodup) {k : Nat} {c : Child}
    (hk : (sigs.foldl Family.handleSignal f).pool.children[k]? = some c)
    (halive : c.life = .alive) (hterm : .term ∈ sigs ∨ (f.kids k).raised .term = true) :
    ((sigs.foldl Family.handleSignal f).kids k).raised .term = true := by
  induction sigs generalizing f with
  | nil => exact hterm.resolve_left List.not_mem_nil
  | cons sig sigs ih =>
      rcases sig with _ | _
      · refine ih (f := f.handleSignal .chld) (h.reap hpids hdup) hk ?_
        rcases hterm with hmem | hraised
        · exact .inl ((List.mem_cons.mp hmem).resolve_left nofun)
        · exact .inr hraised
      · refine ih (f := f.handleSignal .term) h hk (.inr ?_)
        rw [(foldl_handleSignal_pool _ f).1] at hk
        have hpid := h.pid_of_alive hpids (foldl_alive hk halive) halive
        show (if f.pool.parent.pid k ≠ -1 then (f.kids k).raise .term else f.kids k).raised _ = true
        rw [if_pos hpid]
        exact (f.kids k).raised_raise .term

/-- The signals leave what the children will read. -/
theorem foldl_onItsWay (sigs : List Signal) {f : Family} {k : Nat} {reported : Prop}
    (h : (f.kids k).OnItsWay reported .term) :
    ((sigs.foldl Family.handleSignal f).kids k).OnItsWay reported .term := by
  induction sigs generalizing f with
  | nil => exact h
  | cons sig sigs ih =>
      rcases sig with _ | _
      · exact ih h
      · refine ih (f := f.handleSignal .term) ?_
        show (if f.pool.parent.pid k ≠ -1 then (f.kids k).raise .term else f.kids k).OnItsWay _ _
        split
        · exact h.raise .term
        · exact h

/-- A notification leaves the loop of the child as it is. -/
theorem modify_notify_loop {children : List Child} {j k : Nat} {c : Child}
    (hk : (children.modify j Child.notify)[k]? = some c) :
    ∃ d, children[k]? = some d ∧ c.life = d.life ∧ c.stop = d.stop ∧ c.phase = d.phase := by
  rw [List.getElem?_modify] at hk
  obtain ⟨d, hd, hc⟩ := Option.map_eq_some_iff.mp hk
  refine ⟨d, hd, ?_⟩
  split at hc
  · rw [← hc, Child.notify]
    split <;> exact ⟨rfl, rfl, rfl⟩
  · rw [← hc]
    exact ⟨rfl, rfl, rfl⟩

theorem parent_terminating {f f' : Family} (hpids : -1 ∉ pids) (hdup : pids.Nodup)
    (hok : FamilyOk pids f) (h : Terminating f) (hmove : ParentMove f f') : Terminating f' := by
  have hreported : ∀ {events : List ParentEvent} {e : ParentEvent} {p : SelfPipe Signal},
      f.pool.phase = .handling (e :: events) → e ≠ .signal → p.OnItsWay f.Reported .term →
      p.OnItsWay (.signal ∈ events) .term := by
    intro events e p hphase he hway
    refine hway.mono ?_
    rw [Family.Reported, hphase]
    exact fun hmem => (List.mem_cons.mp hmem).resolve_left he.symm
  rcases hmove with ⟨hphase, hstop⟩ | ⟨hphase, hstop⟩ | ⟨hphase, hdispatch⟩ |
    ⟨hphase, hdispatch⟩ | ⟨hphase⟩
  case wait =>
    rw [Terminating, Family.Reported, hphase] at h
    exact h
  case leave => exact .inl hstop
  case dispatch events p j =>
    have hp : p.stop = f.pool.parent.stop := by
      rcases Parent.dispatch_spec hok.roster.counter with ⟨k, -, hk⟩ | ⟨-, hnone⟩
      · rw [hk] at hdispatch
        cases hdispatch
        rfl
      · rw [hnone] at hdispatch
        cases hdispatch
    rcases h with h | h | h
    · exact .inl (hp.trans h)
    · exact .inr (.inl (hreported hphase nofun h))
    · refine .inr (.inr (fun k c hk halive => ?_))
      obtain ⟨d, hd, hlife, hstop, hphase'⟩ := modify_notify_loop hk
      have hends := h k d hd (hlife.symm.trans halive)
      rw [KidEnds, Child.Reported, ← hstop, ← hphase'] at hends
      exact hends
  case stop events p =>
    obtain ⟨-, rfl⟩ := hok.roster.dispatch_none hdispatch
    exact .inl rfl
  case readSignals events =>
    let g : Family := { f with pool := { f.pool with phase := .handling events } }
    let sigs := f.pool.signals.take 1024
    let start : Family := { g with pool := { g.pool with signals := f.pool.signals.drop 1024 } }
    have hroster : Roster pids start.pool := { hok.roster with }
    have hpool : g.readSignals.pool = sigs.foldl Pool.handleSignal start.pool :=
      (foldl_handleSignal_pool sigs start).1
    by_cases hterm : .term ∈ sigs
    · exact .inr (.inr (fun k c hk halive =>
        .inr (.inl (foldl_killAll hroster hpids hdup hk halive (.inl hterm)))))
    · have hold : ∀ {k : Nat} {c : Child}, g.readSignals.pool.children[k]? = some c →
          c.life = .alive → f.pool.children[k]? = some c := by
        intro k c hk halive
        rw [hpool] at hk
        exact foldl_alive (s := start.pool) hk halive
      rcases h with h | h | h
      · refine .inr (.inr (fun k c hk halive => ?_))
        have hreaped := hok.roster.stop.mp h c (List.mem_of_getElem? (hold hk halive))
        rw [halive] at hreaped
        cases hreaped
      · rcases h.read hok.room with hraised | hmem
        · refine .inr (.inl (.inl ?_))
          show g.readSignals.raised .term = true
          rw [(readSignals_pool g).2]
          exact hraised
        · exact absurd hmem hterm
      · exact .inr (.inr (fun k c hk halive =>
          (h k c (hold hk halive) halive).imp_right (foldl_onItsWay sigs)))

theorem familyStep_terminating {f f' : Family} {capacity : Nat} {a : FamilyAction} (hpids : -1 ∉ pids)
    (hdup : pids.Nodup) (hok : FamilyOk pids f) (h : Terminating f) (hheard : Heard capacity f a)
    (hstep : familyStep capacity f a = some f') : Terminating f' := by
  -- A step of one child, which ends as before.
  have hchild : ∀ {k : Nat} {c c' : Child} {b : Nat} {raised : Signal → Bool}
      {p : SelfPipe Signal}, f.pool.children[k]? = some c → (c'.life = .alive → c.life = .alive) →
      (c'.life = .alive → KidEnds (f.kids k) c → KidEnds p c') →
      (∀ sig, f.raised sig = true → raised sig = true) →
      Terminating ⟨{ f.pool with children := f.pool.children.set k c', backlog := b }, raised,
        Function.update f.kids k p⟩ := by
    intro k c c' b raised p hk halive hends hraised
    rcases h with h | h | h
    · exact .inl h
    · exact .inr (.inl (h.imp_left (hraised .term)))
    · refine .inr (.inr (fun j d hj hd => ?_))
      rcases set_cases hj with ⟨rfl, rfl⟩ | ⟨hne, hold⟩
      · show KidEnds (Function.update f.kids j p j) d
        rw [Function.update_self]
        exact hends hd (h j c hk (halive hd))
      · show KidEnds (Function.update f.kids k p j) d
        rw [Function.update_of_ne hne]
        exact h j d hold hd
  -- A signal for one child, or its handler.
  have hpipe : ∀ {k : Nat} {p : SelfPipe Signal},
      (∀ {reported : Prop}, (f.kids k).OnItsWay reported .term → p.OnItsWay reported .term) →
      Terminating { f with kids := Function.update f.kids k p } := by
    intro k p hway
    refine h.imp_right (fun h => h.imp_right (fun h j c hj halive => ?_))
    show KidEnds (Function.update f.kids k p j) c
    by_cases hjk : j = k
    · subst hjk
      rw [Function.update_self]
      exact (h j c hj halive).imp_right hway
    · rw [Function.update_of_ne hjk]
      exact h j c hj halive
  rcases familyStep_inv hstep with ⟨sig⟩ | ⟨k, sig⟩ | ⟨sig⟩ | ⟨k, sig⟩ | _ | ⟨hphase, hsignal⟩ | _ |
    ⟨hmove⟩ | ⟨hk, hphase, hsignal⟩ | ⟨hk, hident, hstop, -, hevents⟩ | ⟨hk, hphase⟩ |
    ⟨hk, halive⟩
  case kill => exact h.imp_right (fun h => h.imp_left (fun h => h.raise sig))
  case killChild => exact hpipe (fun hway => hway.raise sig)
  case handler =>
    exact h.imp_right (fun h => h.imp_left (fun h => h.handle hheard.1 sig))
  case childHandler => exact hpipe (fun hway => hway.handle hheard.1 sig)
  case arrive => exact h
  case parentWait events =>
    rcases h with h | h | h
    · exact .inl h
    · rw [Family.Reported, hphase, ParentPhase.events, eq_false List.not_mem_nil] at h
      exact .inr (.inl (h.report (reported_of_edge hsignal)))
    · exact .inr (.inr h)
  case parentFails => exact hheard.elim
  case parent => exact parent_terminating hpids hdup hok h hmove
  case childWait k c events =>
    refine hchild hk id (fun _ hends => ?_) (fun _ hs => hs)
    refine hends.imp_right (fun hway => ?_)
    have hnot : ¬ c.Reported := by
      rintro ⟨term, hmem⟩
      rw [hphase] at hmem
      cases hmem
    rw [eq_false hnot] at hway
    refine hway.report (fun hedge => ?_)
    rw [hedge] at hsignal
    obtain ⟨e, he, hesig⟩ := List.countP_pos_iff.mp (show 0 < events.countP ChildEvent.isSignal by
      rw [hsignal]
      exact Nat.one_pos)
    rcases e with _ | term | _
    · cases hesig
    · exact ⟨term, he⟩
    · cases hesig
  case childNext k c c' backlog =>
    have hstep := hchild (p := f.kids k) (b := backlog) hk
      (fun halive => (congrArg Prod.snd hident).symm.trans halive) (fun _ hends => ?_)
      (fun _ hs => hs)
    · rw [Function.update_eq_self] at hstep
      exact hstep
    · rw [KidEnds, hstop]
      refine hends.imp_right (fun hway => hway.mono (fun hreported => ?_))
      obtain ⟨term, hmem⟩ := hreported
      exact ⟨term, (hevents term).mpr hmem⟩
  case childSignal k c events =>
    refine hchild hk id (fun _ hends => ?_) (fun _ hs => hs)
    rcases hends with hs | hway
    · refine .inl ?_
      show (c.stop || _) = true
      rw [hs, Bool.true_or]
    · rcases hway.read (hok.kidRoom k) with hs | hmem
      · exact .inr (.inl hs)
      · refine .inl ?_
        show (c.stop || decide (.term ∈ (f.kids k).bytes.take 1024)) = true
        rw [decide_eq_true hmem, Bool.or_true]
  case exit k c =>
    have hstep := @hchild k c { c with life := .zombie } f.pool.backlog _ (f.kids k) hk
      (fun halive => Life.noConfusion halive) (fun halive => Life.noConfusion halive)
      (fun _ hs => SelfPipe.raised_raise_mono (p := f.pipe) hs .chld)
    rw [Function.update_eq_self] at hstep
    exact hstep

/-- A child goes back to `epoll_wait` only when its `m_stop` is not set. -/
theorem familyStep_leave {f f' : Family} {capacity : Nat} {a : FamilyAction} (h : StopsLeave f)
    (hstep : familyStep capacity f a = some f') : StopsLeave f' := by
  have hset : ∀ {k : Nat} {c' : Child}, (c'.life = .alive → c'.phase = .waiting → c'.stop = false) →
      ∀ (j : Nat) (d : Child), (f.pool.children.set k c')[j]? = some d → d.life = .alive →
        d.phase = .waiting → d.stop = false := by
    intro k c' hc' j d hj
    rcases set_cases hj with ⟨-, rfl⟩ | ⟨-, hold⟩
    · exact hc'
    · exact h j d hold
  rcases familyStep_inv hstep with _ | _ | _ | _ | _ | _ | _ | ⟨hmove⟩ | _ |
    ⟨_, _, hstop, hwait, -⟩ | _ | _
  case parent =>
    rcases hmove with _ | _ | _ | _ | ⟨hphase⟩
    case dispatch =>
      intro k c hk halive hphase
      obtain ⟨d, hd, hlife, hstop, hphase'⟩ := modify_notify_loop hk
      rw [hstop]
      exact h k d hd (hlife.symm.trans halive) (hphase'.symm.trans hphase)
    case readSignals =>
      intro k c hk halive
      rw [(readSignals_pool _).1, Pool.readSignals] at hk
      have hold := foldl_alive hk halive
      exact h k c hold halive
    all_goals exact h
  case childWait => exact hset nofun
  case childNext => exact hset (fun _ hphase => hstop.trans (hwait hphase))
  case childSignal => exact hset nofun
  case exit => exact hset nofun
  all_goals exact h

/-- When every handler finds room for its byte and fewer than 1024 bytes that are not read, and
`epoll_wait` of the parent does not fail, a `SIGTERM` to the parent ends the family: from the time it
is sent, the parent and the children never rest together. -/
theorem always_not_atRest_of_term (capacity : Nat) (hsize : pids ≠ []) (hpids : -1 ∉ pids)
    (hdup : pids.Nodup) (as bs : List FamilyAction) {f : Family}
    (hheard : AllSteps (familyStep capacity) (Heard capacity) (startFamily pids)
      (as ++ .kill .term :: bs))
    (hterm : exec (familyStep capacity) (startFamily pids) as = some f) :
    Always (familyStep capacity) (fun f => ¬ AtRest f)
      { f with raised := Function.update f.raised .term true } bs := by
  have hinv : ∀ f a f', FamilyOk pids f ∧ StopsLeave f → Heard capacity f a →
      familyStep capacity f a = some f' → FamilyOk pids f' ∧ StopsLeave f' := by
    intro f a f' h hg hstep
    exact ⟨familyStep_ok hpids hdup h.1 hg hstep, familyStep_leave h.2 hstep⟩
  have hstart : StopsLeave (startFamily pids) := by
    intro k c hc _ _
    obtain ⟨pid, -, rfl⟩ := List.mem_map.mp (List.mem_of_getElem? hc)
    rfl
  have hf : FamilyOk pids f ∧ StopsLeave f :=
    ((always_of_invariant _ _ hinv (fun _ h => h) ⟨startFamily_ok hsize, hstart⟩ hheard).drop
      hterm).head
  have hguard := hheard.drop hterm
  refine always_of_invariant (fun f => (FamilyOk pids f ∧ StopsLeave f) ∧ Terminating f)
    (Heard capacity) ?_ ?_ ⟨hinv f (.kill .term) _ hf hguard.1 rfl, ?_⟩ (hguard.2 _ rfl)
  · rintro f a f' ⟨h, hterminating⟩ hg hstep
    exact ⟨hinv f a f' h hg hstep, familyStep_terminating hpids hdup h.1 hterminating hg hstep⟩
  · exact fun f h => h.2.not_atRest h.1.1 h.1.2
  · exact .inr (.inl (.inl (f.pipe.raised_raise .term)))

/-- The parent sends the `SIGTERM` on to two children, which leave their loops. -/
theorem always_not_atRest_of_term_two :
    ∃ f, exec (familyStep 4) (startFamily [7, 8]) [.pool .arrive] = some f ∧
      Always (familyStep 4) (fun f => ¬ AtRest f)
        { f with raised := Function.update f.raised .term true }
        [.handler .term, .pool (.parentWait [.signal, .listen]), .pool .parentNext,
          .childHandler 0 .term, .pool (.childWait 0 [.signal true]), .pool (.childNext 0),
          .pool (.childExit 0), .childHandler 1 .term, .pool (.childWait 1 [.signal true]),
          .pool (.childNext 1), .pool (.childExit 1), .handler .chld, .pool .parentNext,
          .pool .parentNext, .pool (.parentWait [.signal]), .pool .parentNext,
          .pool .parentNext] :=
  ⟨_, rfl, always_not_atRest_of_term 4 (by decide) (by decide) (by decide) [.pool .arrive] _
    (by decide) rfl⟩

end EasyWebServer.Cgi
