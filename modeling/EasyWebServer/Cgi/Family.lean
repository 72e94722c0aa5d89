import EasyWebServer.Lib.SelfPipe
import EasyWebServer.Cgi.Roster

/-!
# The signals of the process pool

The processes of the pool end each other through signals.  A child that exits sends `SIGCHLD`
to the parent, which reaps it; a `SIGTERM` to the parent is sent on to every child whose `m_pid`
is not `-1`; a child that has read it leaves its loop; and the parent leaves its own when every
`m_pid` is `-1`.  All of it goes through the signal pipes, of the parent and of each child.

`Family` adds to the pool what lies between the signals and the loops.  `familyStep_inv` gives
the cases of a step, and `family_refines` says that every run is one of the pool.
-/

namespace EasyWebServer.Cgi

open Transition

/-! ## The family -/

/-- The pool, with the signals of the parent whose handler has not run, and what lies between
the signals and the loop of each child. -/
structure Family where
  pool : Pool
  raised : Signal → Bool
  kids : Nat → SelfPipe Signal

/-- The family when its processes are at their first `epoll_wait`. -/
def startFamily (pids : List Int) : Family := ⟨startPool pids, fun _ => false, fun _ => .quiet⟩

/-- A step of the pool, a signal, or its handler. -/
inductive FamilyAction where
  /-- Another process sends the parent a signal. -/
  | kill (sig : Signal)
  /-- Another process sends the child `k` a signal, or a process that it has started exits. -/
  | killChild (k : Nat) (sig : Signal)
  /-- `sig_handler` in the parent. -/
  | handler (sig : Signal)
  /-- `sig_handler` in the child `k`. -/
  | childHandler (k : Nat) (sig : Signal)
  | pool (a : PoolAction)
  deriving DecidableEq, Repr

/-- The event of the signal pipe. -/
def ChildEvent.isSignal : ChildEvent → Bool
  | .signal _ => true
  | _ => false

namespace Family

/-- What lies between the signals and the loop of the parent. -/
def pipe (f : Family) : SelfPipe Signal := ⟨f.raised, f.pool.signals, f.pool.signalEdge⟩

/-- The parent has a report of its signal pipe that it has not handled. -/
def Reported (f : Family) : Prop := .signal ∈ f.pool.phase.events

/-- The parent sends `SIGTERM` to its children. -/
def killAll (f : Family) : Family :=
  { f with
    kids := fun k =>
      if f.pool.parent.pid k ≠ -1 then (f.kids k).raise .term else f.kids k }

/-- A signal that the parent has read. -/
def handleSignal (f : Family) : Signal → Family
  | .chld => { f with pool := f.pool.handleSignal .chld }
  | .term => f.killAll

/-- The branch of the signal pipe: `recv` takes at most 1024 bytes. -/
def readSignals (f : Family) : Family :=
  (f.pool.signals.take 1024).foldl handleSignal
    { f with pool := { f.pool with signals := f.pool.signals.drop 1024 } }

/-- The child `k` handles the next event of its batch.  Its signal pipe has `SIGTERM` or `SIGINT`
in it as its event says. -/
def childNext (f : Family) (k : Nat) (c : Child) : Option Family :=
  match c.phase with
  | .handling (.signal term :: _) =>
      if term = decide (.term ∈ (f.kids k).bytes.take 1024) then
        (poolStep f.pool (.childNext k)).map (fun pool =>
          { f with pool := pool, kids := Function.update f.kids k ((f.kids k).drop 1024) })
      else none
  | _ => (poolStep f.pool (.childNext k)).map (fun pool => { f with pool := pool })

end Family

open Family in
/-- One step; the signal pipes have room for `capacity` bytes. -/
def familyStep (capacity : Nat) (f : Family) : FamilyAction → Option Family
  | .kill sig => some { f with raised := Function.update f.raised sig true }
  | .killChild k sig =>
      some { f with kids := Function.update f.kids k ((f.kids k).raise sig) }
  | .handler sig =>
      if f.raised sig then
        let p := f.pipe.handle capacity sig
        some { f with
          raised := p.raised
          pool := { f.pool with signals := p.bytes, signalEdge := p.edge } }
      else none
  | .childHandler k sig =>
      if (f.kids k).raised sig then
        some { f with kids := Function.update f.kids k ((f.kids k).handle capacity sig) }
      else none
  | .pool (.signal _) => none
  | .pool .parentNext =>
      match f.pool.phase with
      | .handling (.signal :: events) =>
          some { f with pool := { f.pool with phase := .handling events } }.readSignals
      | _ => (poolStep f.pool .parentNext).map (fun pool => { f with pool := pool })
  | .pool (.childWait k events) =>
      if events.countP ChildEvent.isSignal = (f.kids k).edge.toNat then
        (poolStep f.pool (.childWait k events)).map (fun pool =>
          { f with pool := pool, kids := Function.update f.kids k (f.kids k).report })
      else none
  | .pool (.childNext k) => f.pool.children[k]?.bind (f.childNext k)
  | .pool (.childExit k) =>
      (poolStep f.pool (.childExit k)).map (fun pool =>
        { f with pool := pool, raised := Function.update f.raised .chld true })
  | .pool a => (poolStep f.pool a).map (fun pool => { f with pool := pool })

/-! ## What a step does -/

/-- The parent handles the signals of the pool below. -/
theorem foldl_handleSignal_pool (sigs : List Signal) (f : Family) :
    (sigs.foldl Family.handleSignal f).pool = sigs.foldl Pool.handleSignal f.pool ∧
      (sigs.foldl Family.handleSignal f).raised = f.raised := by
  induction sigs generalizing f with
  | nil => exact ⟨rfl, rfl⟩
  | cons sig sigs ih =>
      obtain ⟨hpool, hraised⟩ := ih (f.handleSignal sig)
      refine ⟨?_, ?_⟩
      · rw [List.foldl_cons, List.foldl_cons, hpool]
        rcases sig with _ | _ <;> rfl
      · rw [List.foldl_cons, hraised]
        rcases sig with _ | _ <;> rfl

theorem readSignals_pool (f : Family) :
    f.readSignals.pool = f.pool.readSignals ∧ f.readSignals.raised = f.raised :=
  foldl_handleSignal_pool _ _

/-- What a step of the parent does. -/
inductive ParentMove (f : Family) : Family → Prop where
  | wait (hphase : f.pool.phase = .handling []) (hstop : f.pool.parent.stop = false) :
      ParentMove f { f with pool := { f.pool with phase := .waiting } }
  | leave (hphase : f.pool.phase = .handling []) (hstop : f.pool.parent.stop = true) :
      ParentMove f { f with pool := { f.pool with phase := .stopped [] } }
  | dispatch {events : List ParentEvent} {p : Parent} {j : Nat}
      (hphase : f.pool.phase = .handling (.listen :: events))
      (hdispatch : f.pool.parent.dispatch = some (p, some j)) :
      ParentMove f { f with pool := { f.pool with
        parent := p
        phase := .handling events
        children := f.pool.children.modify j Child.notify } }
  | stop {events : List ParentEvent} {p : Parent}
      (hphase : f.pool.phase = .handling (.listen :: events))
      (hdispatch : f.pool.parent.dispatch = some (p, none)) :
      ParentMove f { f with pool := { f.pool with
        parent := p, phase := .stopped (.listen :: events) } }
  | readSignals {events : List ParentEvent}
      (hphase : f.pool.phase = .handling (.signal :: events)) :
      ParentMove f { f with pool := { f.pool with phase := .handling events } }.readSignals

/-- What a step of the family does. -/
inductive FamilyMove (capacity : Nat) (f : Family) : FamilyAction → Family → Prop where
  | kill (sig : Signal) :
      FamilyMove capacity f (.kill sig) { f with raised := Function.update f.raised sig true }
  | killChild (k : Nat) (sig : Signal) :
      FamilyMove capacity f (.killChild k sig)
        { f with kids := Function.update f.kids k ((f.kids k).raise sig) }
  | handler (sig : Signal) :
      FamilyMove capacity f (.handler sig) { f with
        raised := (f.pipe.handle capacity sig).raised
        pool := { f.pool with
          signals := (f.pipe.handle capacity sig).bytes
          signalEdge := (f.pipe.handle capacity sig).edge } }
  | childHandler (k : Nat) (sig : Signal) :
      FamilyMove capacity f (.childHandler k sig)
        { f with kids := Function.update f.kids k ((f.kids k).handle capacity sig) }
  | arrive :
      FamilyMove capacity f (.pool .arrive)
        { f with pool := { f.pool with backlog := f.pool.backlog + 1, listenEdge := true } }
  | parentWait {events : List ParentEvent} (hphase : f.pool.phase = .waiting)
      (hsignal : events.count .signal = f.pool.signalEdge.toNat) :
      FamilyMove capacity f (.pool (.parentWait events))
        { f with pool := { f.pool with
          phase := .handling events, listenEdge := false, signalEdge := false } }
  | parentFails (hphase : f.pool.phase = .waiting) :
      FamilyMove capacity f (.pool .parentFails)
        { f with pool := { f.pool with phase := .stopped [] } }
  | parent {f' : Family} (hmove : ParentMove f f') : FamilyMove capacity f (.pool .parentNext) f'
  | childWait {k : Nat} {c : Child} {events : List ChildEvent}
      (hk : f.pool.children[k]? = some c) (hphase : c.phase = .waiting)
      (hsignal : events.countP ChildEvent.isSignal = (f.kids k).edge.toNat) :
      FamilyMove capacity f (.pool (.childWait k events))
        ⟨{ f.pool with
            children := f.pool.children.set k { c with phase := .handling events, edge := false } },
          f.raised, Function.update f.kids k (f.kids k).report⟩
  /-- An event that is not one of the signal pipe, or the end of a batch. -/
  | childNext {k : Nat} {c c' : Child} {backlog : Nat} (hk : f.pool.children[k]? = some c)
      (hident : c'.ident = c.ident) (hstop : c'.stop = c.stop)
      (hwait : c'.phase = .waiting → c.stop = false)
      (hevents : ∀ term, .signal term ∈ c'.phase.events ↔ .signal term ∈ c.phase.events) :
      FamilyMove capacity f (.pool (.childNext k))
        { f with pool := { f.pool with
          children := f.pool.children.set k c', backlog := backlog } }
  | childSignal {k : Nat} {c : Child} {events : List ChildEvent}
      (hk : f.pool.children[k]? = some c)
      (hphase : c.phase =
        .handling (.signal (decide (.term ∈ (f.kids k).bytes.take 1024)) :: events)) :
      FamilyMove capacity f (.pool (.childNext k))
        ⟨{ f.pool with
            children := f.pool.children.set k { c with
              stop := c.stop || decide (.term ∈ (f.kids k).bytes.take 1024)
              phase := .handling events } },
          f.raised, Function.update f.kids k ((f.kids k).drop 1024)⟩
  | exit {k : Nat} {c : Child} (hk : f.pool.children[k]? = some c) (halive : c.life = .alive) :
      FamilyMove capacity f (.pool (.childExit k))
        ⟨{ f.pool with children := f.pool.children.set k { c with life := .zombie } },
          Function.update f.raised .chld true, f.kids⟩

theorem familyParent_inv {f f' : Family} {capacity : Nat}
    (h : familyStep capacity f (.pool .parentNext) = some f') : ParentMove f f' := by
  rw [familyStep] at h
  split at h
  · rename_i events hphase
    cases h
    exact .readSignals hphase
  · rename_i hnot
    obtain ⟨pool, hstep, rfl⟩ := Option.map_eq_some_iff.mp h
    rw [poolStep, Pool.parentNext] at hstep
    split at hstep
    · rename_i hphase
      cases hstep
      by_cases hstop : f.pool.parent.stop = true
      · rw [if_pos hstop]
        exact .leave hphase hstop
      · rw [if_neg hstop]
        exact .wait hphase (Bool.eq_false_iff.mpr hstop)
    · rename_i events hphase
      split at hstep
      · rename_i p j hdispatch
        cases hstep
        exact .dispatch hphase hdispatch
      · rename_i p hdispatch
        cases hstep
        exact .stop hphase hdispatch
      · cases hstep
    · rename_i events hphase
      exact absurd hphase (hnot events)
    · cases hstep

theorem familyChild_inv {f f' : Family} {capacity k : Nat}
    (h : familyStep capacity f (.pool (.childNext k)) = some f') :
    FamilyMove capacity f (.pool (.childNext k)) f' := by
  rw [familyStep] at h
  obtain ⟨c, hk, hc⟩ := Option.bind_eq_some_iff.mp h
  rw [Family.childNext] at hc
  split at hc
  · rename_i term events hphase
    split at hc
    · rename_i hterm
      subst hterm
      obtain ⟨pool, hstep, rfl⟩ := Option.map_eq_some_iff.mp hc
      simp only [poolStep, hk] at hstep
      split at hstep
      · rw [Pool.childNext, hphase] at hstep
        cases hstep
        exact .childSignal hk hphase
      · cases hstep
    · cases hc
  · rename_i hnot
    obtain ⟨pool, hstep, rfl⟩ := Option.map_eq_some_iff.mp hc
    simp only [poolStep, hk] at hstep
    split at hstep
    · rw [Pool.childNext] at hstep
      split at hstep
      · rename_i hphase
        split at hstep
        · cases hstep
        · rename_i hstop
          cases hstep
          exact .childNext hk rfl rfl (fun _ => Bool.eq_false_iff.mpr hstop)
            (fun _ => by rw [hphase]; rfl)
      · rename_i events hphase
        cases hstep
        exact .childNext hk rfl rfl (by simp) (fun _ => by rw [hphase]; simp [ChildPhase.events])
      · rename_i term events hphase
        exact absurd hphase (hnot term events)
      · rename_i events hphase
        cases hstep
        exact .childNext hk rfl rfl (by simp) (fun _ => by rw [hphase]; simp [ChildPhase.events])
      · rename_i events hphase
        cases hstep
        exact .childNext hk rfl rfl (by simp) (fun _ => by rw [hphase]; rfl)
      · cases hstep
    · cases hstep

theorem familyStep_inv {f f' : Family} {capacity : Nat} {a : FamilyAction}
    (h : familyStep capacity f a = some f') : FamilyMove capacity f a f' := by
  rcases a with sig | ⟨k, sig⟩ | sig | ⟨k, sig⟩ | a
  case kill =>
    cases h
    exact .kill sig
  case killChild =>
    cases h
    exact .killChild k sig
  case handler =>
    rw [familyStep] at h
    split at h
    · cases h
      exact .handler sig
    · cases h
  case childHandler =>
    rw [familyStep] at h
    split at h
    · cases h
      exact .childHandler k sig
    · cases h
  case pool =>
    rcases a with _ | sig | events | _ | _ | ⟨k, events⟩ | k | k
    case arrive =>
      cases h
      exact .arrive
    case signal => cases h
    case parentWait =>
      obtain ⟨pool, hstep, rfl⟩ := Option.map_eq_some_iff.mp h
      rw [poolStep] at hstep
      split at hstep
      · rename_i hready
        cases hstep
        exact .parentWait hready.1 hready.2.2
      · cases hstep
    case parentFails =>
      obtain ⟨pool, hstep, rfl⟩ := Option.map_eq_some_iff.mp h
      rw [poolStep] at hstep
      split at hstep
      · rename_i hphase
        cases hstep
        exact .parentFails hphase
      · cases hstep
    case parentNext => exact .parent (familyParent_inv h)
    case childWait =>
      rw [familyStep] at h
      split at h
      · rename_i hsignal
        obtain ⟨pool, hstep, rfl⟩ := Option.map_eq_some_iff.mp h
        rw [poolStep] at hstep
        split at hstep
        · rename_i c hk
          split at hstep
          · rename_i hready
            cases hstep
            exact .childWait hk hready.2.1 hsignal
          · cases hstep
        · cases hstep
      · cases h
    case childNext => exact familyChild_inv h
    case childExit =>
      obtain ⟨pool, hstep, rfl⟩ := Option.map_eq_some_iff.mp h
      rw [poolStep] at hstep
      split at hstep
      · rename_i c hk
        split at hstep
        · rename_i halive
          cases hstep
          exact .exit hk halive
        · cases hstep
      · cases hstep

/-- A step is one of the pool, or leaves the pool as it is. -/
theorem familyStep_pool {f f' : Family} {capacity : Nat} {a : FamilyAction}
    (h : familyStep capacity f a = some f') :
    f'.pool = f.pool ∨ ∃ b, poolStep f.pool b = some f'.pool := by
  have hplain : ∀ {b : PoolAction} {g : Pool → Family},
      (poolStep f.pool b).map g = some f' → (∀ pool, (g pool).pool = pool) →
      ∃ b, poolStep f.pool b = some f'.pool := by
    intro b g hg hpool
    obtain ⟨pool, hstep, rfl⟩ := Option.map_eq_some_iff.mp hg
    exact ⟨b, by rw [hpool]; exact hstep⟩
  rcases a with sig | ⟨k, sig⟩ | sig | ⟨k, sig⟩ | a
  case kill =>
    cases h
    exact .inl rfl
  case killChild =>
    cases h
    exact .inl rfl
  case handler =>
    rw [familyStep] at h
    split at h
    · cases h
      by_cases hroom : f.pipe.bytes.length < capacity
      · refine .inr ⟨.signal sig, ?_⟩
        simp only [SelfPipe.handle, if_pos hroom]
        rfl
      · refine .inl ?_
        simp only [SelfPipe.handle, if_neg hroom]
        rfl
    · cases h
  case childHandler =>
    rw [familyStep] at h
    split at h
    · cases h
      exact .inl rfl
    · cases h
  case pool =>
    right
    rcases a with _ | sig | events | _ | _ | ⟨k, events⟩ | k | k
    case signal => cases h
    case parentNext =>
      rw [familyStep] at h
      split at h
      · rename_i events hphase
        cases h
        refine ⟨.parentNext, ?_⟩
        rw [(readSignals_pool _).1, poolStep, Pool.parentNext, hphase]
      · exact hplain h (fun _ => rfl)
    case childWait =>
      rw [familyStep] at h
      split at h
      · exact hplain h (fun _ => rfl)
      · cases h
    case childNext =>
      rw [familyStep] at h
      obtain ⟨c, -, hc⟩ := Option.bind_eq_some_iff.mp h
      rw [Family.childNext] at hc
      split at hc
      · split at hc
        · exact hplain hc (fun _ => rfl)
        · cases hc
      · exact hplain hc (fun _ => rfl)
    all_goals
      simp only [familyStep] at h
      exact hplain h (fun _ => rfl)

/-- Every run of the family is a run of the pool. -/
theorem family_refines {capacity : Nat} {pids : List Int} {as : List FamilyAction} {f : Family}
    (h : exec (familyStep capacity) (startFamily pids) as = some f) :
    Reachable poolStep (startPool pids) f.pool :=
  exec_reachable Family.pool (fun _ _ _ hstep => familyStep_pool hstep) h

end EasyWebServer.Cgi
