import EasyWebServer.Lib.Threads
import EasyWebServer.Cgi.ProcessPool

/-!
# The backlog of the process pool

A connection is accepted after its arrival has gone through two descriptors: the listening
socket is reported to the parent, and the pipe of a child is reported to the child.  Both
are edge-triggered, and both reports are answered by one call, of `send` and of `accept`.

`Pool.announced` counts the calls of `accept` that are on their way: the reports to come, the
reports that are being handled, and the children at `accept`.  Every connection in the
backlog beyond that number is lost (`Pool.loss`), and the loss never becomes less.  A step
adds to it when a descriptor with a report to come gets something more, when a child is
notified that has exited, and when a child exits that has something left.

`always_noneStranded` says that the other runs strand no connection.
-/

namespace EasyWebServer.Cgi

open Transition Threads

/-! ## The property and the guard -/

/-- The parent and the children that live are in `epoll_wait` and have no report to come,
and a child lives. -/
structure Blocked (s : Pool) : Prop where
  phase : s.phase = .waiting
  listenEdge : s.listenEdge = false
  signalEdge : s.signalEdge = false
  child : ∀ c ∈ s.children, c.life = .alive → c.phase = .waiting ∧ c.edge = false
  alive : ∃ c ∈ s.children, c.life = .alive

/-- When all are blocked, the pipes and the backlog are empty. -/
def NoneStranded (s : Pool) : Prop :=
  Blocked s → (∀ c ∈ s.children, c.life = .alive → c.pipe = 0) ∧ s.backlog = 0

/-- The child that the next step of the parent notifies. -/
def Pool.notified (s : Pool) : Option Nat :=
  match s.phase with
  | .handling (.listen :: _) => s.parent.dispatch.bind Prod.snd
  | _ => none

/-- The calls of `accept` that a child is at. -/
def ChildPhase.accepts : ChildPhase → Nat
  | .accepting _ => 1
  | _ => 0

/-- A connection arrives when the last one has been reported.  A child is notified when it
lives and its last `int` has been reported.  A child exits with an empty pipe, and not
between `recv` and `accept`. -/
def OneAtATime (s : Pool) : PoolAction → Prop
  | .arrive => s.listenEdge = false
  | .parentNext =>
      ∀ j ∈ s.notified, ∃ c ∈ s.children[j]?, c.life = .alive ∧ c.edge = false
  | .childExit k =>
      ∀ c ∈ s.children[k]?, c.life = .alive → c.pipe = 0 ∧ c.phase.accepts = 0
  | _ => True

instance (s : Pool) (a : PoolAction) : Decidable (OneAtATime s a) := by
  unfold OneAtATime
  split <;> infer_instance

/-! ## The account -/

/-- The calls of `accept` of a child that are on their way. -/
def Child.announced (c : Child) : Nat :=
  if c.life = .alive then c.edge.toNat + c.phase.events.count .pipe + c.phase.accepts else 0

/-- The calls of `accept` that a child owes. -/
def Child.queued (c : Child) : Nat :=
  if c.life = .alive then c.pipe + c.phase.accepts else 0

/-- The calls of `accept` that are on their way. -/
def Pool.announced (s : Pool) : Nat :=
  s.listenEdge.toNat + s.phase.events.count .listen + total Child.announced s.children

/-- The calls of `accept` that the pool owes. -/
def Pool.queued (s : Pool) : Nat :=
  s.listenEdge.toNat + s.phase.events.count .listen + total Child.queued s.children

/-- The connections that no call of `accept` is on its way for. -/
def Pool.loss (s : Pool) : Nat := s.backlog - s.announced

/-- No call of `accept` is without a connection, and no report is without an `int`. -/
structure Accounted (s : Pool) : Prop where
  queued_le : s.queued ≤ s.backlog
  announced_le : ∀ c ∈ s.children, c.announced ≤ c.queued

variable {s s' : Pool} {a : PoolAction}

theorem Accounted.announced_le_backlog (h : Accounted s) : s.announced ≤ s.backlog := by
  have htotal := total_le h.announced_le
  have hle := h.queued_le
  unfold Pool.queued at hle
  unfold Pool.announced
  omega

theorem startPool_accounted (pids : List Int) :
    Accounted (startPool pids) ∧ (startPool pids).loss = 0 := by
  have hnone : ∀ c ∈ (startPool pids).children, c.queued = 0 ∧ c.announced = 0 := by
    intro c hc
    obtain ⟨pid, -, rfl⟩ := List.mem_map.mp hc
    exact ⟨rfl, rfl⟩
  refine ⟨⟨?_, fun c hc => ?_⟩, Nat.zero_sub _⟩
  · show 0 + 0 + total Child.queued (startPool pids).children ≤ 0
    rw [total_eq_zero.mpr fun c hc => (hnone c hc).1]
  · rw [(hnone c hc).2]
    exact Nat.zero_le _

/-! ## The steps -/

/-- What a step of the pool does. -/
inductive PoolMove (s : Pool) : PoolAction → Pool → Prop where
  | arrive : PoolMove s .arrive { s with backlog := s.backlog + 1, listenEdge := true }
  | signal (sig : Signal) : PoolMove s (.signal sig)
      { s with signals := s.signals ++ [sig], signalEdge := true }
  | parentWait {events : List ParentEvent} (hphase : s.phase = .waiting)
      (hlisten : events.count .listen = s.listenEdge.toNat) :
      PoolMove s (.parentWait events)
        { s with phase := .handling events, listenEdge := false, signalEdge := false }
  | parentFails (hphase : s.phase = .waiting) :
      PoolMove s .parentFails { s with phase := .stopped [] }
  | endBatch {phase : ParentPhase} (hphase : s.phase = .handling []) (hevents : phase.events = []) :
      PoolMove s .parentNext { s with phase := phase }
  | dispatch {events : List ParentEvent} {p : Parent} {j : Nat}
      (hphase : s.phase = .handling (.listen :: events))
      (hdispatch : s.parent.dispatch = some (p, some j)) :
      PoolMove s .parentNext { s with
        parent := p
        phase := .handling events
        children := s.children.modify j Child.notify }
  /-- No child is left. -/
  | stop {events : List ParentEvent} {p : Parent}
      (hphase : s.phase = .handling (.listen :: events))
      (hdispatch : s.parent.dispatch = some (p, none)) :
      PoolMove s .parentNext { s with parent := p, phase := .stopped (.listen :: events) }
  | readSignals {events : List ParentEvent} (hphase : s.phase = .handling (.signal :: events)) :
      PoolMove s .parentNext { s with phase := .handling events }.readSignals
  | childWait {k : Nat} {c : Child} {events : List ChildEvent} (hk : s.children[k]? = some c)
      (halive : c.life = .alive) (hphase : c.phase = .waiting)
      (hpipe : events.count .pipe = c.edge.toNat) :
      PoolMove s (.childWait k events) { s with
        children := s.children.set k { c with phase := .handling events, edge := false } }
  | childEnd {k : Nat} {c : Child} (hk : s.children[k]? = some c) (halive : c.life = .alive)
      (hphase : c.phase = .handling []) :
      PoolMove s (.childNext k) { s with children := s.children.set k { c with phase := .waiting } }
  | recv {k : Nat} {c : Child} {events : List ChildEvent} (hk : s.children[k]? = some c)
      (halive : c.life = .alive) (hphase : c.phase = .handling (.pipe :: events)) :
      PoolMove s (.childNext k) { s with
        children := s.children.set k { c with pipe := c.pipe - 1, phase := .accepting events } }
  /-- An event of another descriptor. -/
  | childOther {k : Nat} {c : Child} {e : ChildEvent} {events : List ChildEvent} {stop : Bool}
      (hk : s.children[k]? = some c) (halive : c.life = .alive)
      (hphase : c.phase = .handling (e :: events)) (hne : e ≠ .pipe) :
      PoolMove s (.childNext k) { s with
        children := s.children.set k { c with stop := stop, phase := .handling events } }
  | accept {k : Nat} {c : Child} {events : List ChildEvent} (hk : s.children[k]? = some c)
      (halive : c.life = .alive) (hphase : c.phase = .accepting events) :
      PoolMove s (.childNext k) { s with
        children := s.children.set k { c with phase := .handling events }
        backlog := s.backlog - 1 }
  | exit {k : Nat} {c : Child} (hk : s.children[k]? = some c) (halive : c.life = .alive) :
      PoolMove s (.childExit k) { s with children := s.children.set k { c with life := .zombie } }

/-- Every step of the parent is one of these moves. -/
theorem parentNext_inv (h : s.parentNext = some s') : PoolMove s .parentNext s' := by
  unfold Pool.parentNext at h
  split at h
  · rename_i hphase
    cases h
    refine .endBatch hphase ?_
    split <;> rfl
  · rename_i events hphase
    split at h
    · rename_i p j hdispatch
      cases h
      exact .dispatch hphase hdispatch
    · rename_i p hdispatch
      cases h
      exact .stop hphase hdispatch
    · cases h
  · rename_i events hphase
    cases h
    exact .readSignals hphase
  · cases h

/-- Every step of a child is one of these moves. -/
theorem childNext_inv {k : Nat} {c : Child} (hk : s.children[k]? = some c)
    (halive : c.life = .alive) (h : s.childNext k c = some s') : PoolMove s (.childNext k) s' := by
  unfold Pool.childNext at h
  split at h
  · rename_i hphase
    split_ifs at h
    cases h
    exact .childEnd hk halive hphase
  · rename_i events hphase
    cases h
    exact .recv hk halive hphase
  · rename_i term events hphase
    cases h
    exact .childOther hk halive hphase nofun
  · rename_i events hphase
    cases h
    have hmove : PoolMove s (.childNext k) { s with
        children := s.children.set k { c with stop := c.stop, phase := .handling events } } :=
      .childOther hk halive hphase nofun
    exact hmove
  · rename_i events hphase
    cases h
    exact .accept hk halive hphase
  · cases h

/-- Every step is one of these moves. -/
theorem poolStep_inv (h : poolStep s a = some s') : PoolMove s a s' := by
  cases a with
  | arrive =>
    cases h
    exact .arrive
  | signal sig =>
    cases h
    exact .signal sig
  | parentWait events =>
    rw [poolStep] at h
    split_ifs at h with hready
    cases h
    exact .parentWait hready.1 hready.2.1
  | parentFails =>
    rw [poolStep] at h
    split_ifs at h with hphase
    cases h
    exact .parentFails hphase
  | parentNext => exact parentNext_inv h
  | childWait k events =>
    rw [poolStep] at h
    split at h
    · rename_i c hk
      split_ifs at h with hready
      cases h
      exact .childWait hk hready.1 hready.2.1 hready.2.2
    · cases h
  | childNext k =>
    rw [poolStep] at h
    split at h
    · rename_i c hk
      split_ifs at h with halive
      exact childNext_inv hk halive h
    · cases h
  | childExit k =>
    rw [poolStep] at h
    split at h
    · rename_i c hk
      split_ifs at h with halive
      cases h
      exact .exit hk halive
    · cases h

/-! ## What a step does to the account -/

/-- The account of the state behind a step, and what the step loses. -/
structure Ledger (s : Pool) (a : PoolAction) (s' : Pool) (lost : Nat) : Prop where
  accounted : Accounted s'
  balance : s'.backlog + s.announced = s.backlog + s'.announced + lost
  guard : s.loss = 0 → (OneAtATime s a ↔ lost = 0)

/-- A child changes, and the backlog. -/
theorem Accounted.setChild (h : Accounted s) {k : Nat} {c c' : Child}
    (hk : s.children[k]? = some c) (hc' : c'.announced ≤ c'.queued) {backlog : Nat}
    (hbacklog : s.queued + c'.queued ≤ backlog + c.queued) :
    Accounted { s with children := s.children.set k c', backlog := backlog } := by
  refine ⟨?_, fun d hd => ?_⟩
  · have hset := total_set Child.queued hk c'
    unfold Pool.queued at hbacklog ⊢
    simp only
    omega
  · rcases List.mem_or_eq_of_mem_set hd with hd | rfl
    · exact h.announced_le d hd
    · exact hc'

/-- A child takes a step that changes nothing of what it owes. -/
theorem Ledger.child (h : Accounted s) {k : Nat} {c c' : Child} (hk : s.children[k]? = some c)
    (hannounced : c'.announced = c.announced) (hqueued : c'.queued = c.queued)
    (hguard : OneAtATime s a) : Ledger s a { s with children := s.children.set k c' } 0 := by
  refine ⟨?_, ?_, fun _ => iff_of_true hguard rfl⟩
  · have hle := h.announced_le c (List.mem_of_getElem? hk)
    apply h.setChild hk (by omega)
    have hbacklog := h.queued_le
    omega
  · have hset := total_set Child.announced hk c'
    unfold Pool.announced
    simp only
    omega

/-- The parent takes a step that notifies no child. -/
theorem Ledger.parent (h : Accounted s) {p : Parent} {phase : ParentPhase} {listenEdge : Bool}
    {signals : List Signal} {signalEdge : Bool}
    (hcount : listenEdge.toNat + phase.events.count .listen =
      s.listenEdge.toNat + s.phase.events.count .listen) (hguard : OneAtATime s a) :
    Ledger s a { s with
      parent := p
      phase := phase
      signals := signals
      signalEdge := signalEdge
      listenEdge := listenEdge } 0 := by
  refine ⟨⟨?_, h.announced_le⟩, ?_, fun _ => iff_of_true hguard rfl⟩
  · have hle := h.queued_le
    unfold Pool.queued at hle ⊢
    simp only
    omega
  · unfold Pool.announced
    simp only
    omega

theorem Child.announced_of_alive {c : Child} (halive : c.life = .alive) :
    c.announced = c.edge.toNat + c.phase.events.count .pipe + c.phase.accepts := if_pos halive

theorem Child.queued_of_alive {c : Child} (halive : c.life = .alive) :
    c.queued = c.pipe + c.phase.accepts := if_pos halive

theorem notified_eq_none (h : ∀ events, s.phase ≠ .handling (.listen :: events)) :
    OneAtATime s .parentNext := by
  intro j hj
  unfold Pool.notified at hj
  split at hj
  · rename_i events hphase
    exact absurd hphase (h events)
  · cases hj

/-- `waitpid` changes nothing of what the children owe. -/
theorem Child.wait_announced (c : Child) : c.wait.announced = c.announced := by
  unfold Child.wait
  split_ifs with hzombie
  · simp [Child.announced, hzombie]
  · rfl

theorem Child.wait_queued (c : Child) : c.wait.queued = c.queued := by
  unfold Child.wait
  split_ifs with hzombie
  · simp [Child.queued, hzombie]
  · rfl

theorem total_wait {f : Child → Nat} (hf : ∀ c : Child, f c.wait = f c) (cs : List Child) :
    total f (cs.map Child.wait) = total f cs := by
  unfold total
  rw [List.map_map]
  exact congrArg List.sum (List.map_congr_left fun c _ => hf c)

/-- The signals change nothing of the account. -/
theorem handleSignal_account (h : Accounted s) (sig : Signal) :
    Accounted (s.handleSignal sig) ∧ (s.handleSignal sig).announced = s.announced ∧
      (s.handleSignal sig).backlog = s.backlog := by
  cases sig with
  | term => exact ⟨h, rfl, rfl⟩
  | chld =>
    have hannounced := total_wait Child.wait_announced s.children
    have hqueued := total_wait Child.wait_queued s.children
    refine ⟨⟨?_, fun c hc => ?_⟩, ?_, rfl⟩
    · have hle := h.queued_le
      unfold Pool.queued at hle ⊢
      show s.listenEdge.toNat + s.phase.events.count .listen +
        total Child.queued (s.children.map Child.wait) ≤ s.backlog
      omega
    · obtain ⟨d, hd, rfl⟩ := List.mem_map.mp hc
      rw [d.wait_announced, d.wait_queued]
      exact h.announced_le d hd
    · show s.listenEdge.toNat + s.phase.events.count .listen +
        total Child.announced (s.children.map Child.wait) = s.announced
      rw [hannounced, Pool.announced]

theorem foldl_handleSignal_account (sigs : List Signal) :
    ∀ s : Pool, Accounted s →
      Accounted (sigs.foldl Pool.handleSignal s) ∧
        (sigs.foldl Pool.handleSignal s).announced = s.announced ∧
        (sigs.foldl Pool.handleSignal s).backlog = s.backlog := by
  induction sigs with
  | nil => exact fun s h => ⟨h, rfl, rfl⟩
  | cons sig sigs ih =>
    intro s h
    obtain ⟨hacc, hannounced, hbacklog⟩ := handleSignal_account h sig
    obtain ⟨hacc', hannounced', hbacklog'⟩ := ih _ hacc
    exact ⟨hacc', hannounced'.trans hannounced, hbacklog'.trans hbacklog⟩

theorem Ledger.readSignals (h : Accounted s) {events : List ParentEvent}
    (hphase : s.phase = .handling (.signal :: events)) :
    Ledger s .parentNext { s with phase := .handling events }.readSignals 0 := by
  have hguard : OneAtATime s .parentNext := notified_eq_none (by simp [hphase])
  have hnext : Ledger s .parentNext { s with
      phase := .handling events, signals := s.signals.drop 1024 } 0 := by
    refine .parent h ?_ hguard
    rw [hphase]
    simp [ParentPhase.events]
  obtain ⟨hacc, hannounced, hbacklog⟩ :=
    foldl_handleSignal_account (s.signals.take 1024) _ hnext.accounted
  refine ⟨hacc, ?_, fun _ => iff_of_true hguard rfl⟩
  have hbalance := hnext.balance
  unfold Pool.readSignals
  rw [hannounced, hbacklog]
  exact hbalance

/-- A connection arrives, and is lost when there was a report to come. -/
theorem Ledger.arrive (h : Accounted s) :
    Ledger s .arrive { s with backlog := s.backlog + 1, listenEdge := true }
      s.listenEdge.toNat := by
  have hle := h.queued_le
  unfold Pool.queued at hle
  refine ⟨⟨?_, h.announced_le⟩, ?_, fun _ => ?_⟩
  · unfold Pool.queued
    simp only [Bool.toNat_true]
    omega
  · unfold Pool.announced
    simp only [Bool.toNat_true]
    cases s.listenEdge <;> simp only [Bool.toNat_true, Bool.toNat_false] <;> omega
  · show s.listenEdge = false ↔ s.listenEdge.toNat = 0
    cases s.listenEdge <;> simp

theorem Child.notify_announced (c : Child) (halive : c.life = .alive) :
    c.notify.announced + c.edge.toNat = c.announced + 1 := by
  have hnotify : c.notify = { c with pipe := c.pipe + 1, edge := true } := if_pos halive
  have hnew : c.notify.announced = 1 + c.phase.events.count .pipe + c.phase.accepts := by
    rw [hnotify]
    exact Child.announced_of_alive halive
  rw [hnew, Child.announced_of_alive halive]
  omega

theorem Child.notify_queued (c : Child) (halive : c.life = .alive) :
    c.notify.queued = c.queued + 1 := by
  have hnotify : c.notify = { c with pipe := c.pipe + 1, edge := true } := if_pos halive
  have hnew : c.notify.queued = c.pipe + 1 + c.phase.accepts := by
    rw [hnotify]
    exact Child.queued_of_alive halive
  rw [hnew, Child.queued_of_alive halive]
  omega

theorem modify_notify {children : List Child} {j : Nat} {c : Child}
    (h : children[j]? = some c) :
    children.modify j Child.notify = children.set j c.notify := by
  rw [List.modify_eq_set_getElem?, h]
  rfl

/-- A child that has exited is not notified. -/
theorem modify_notify_dead {children : List Child} {j : Nat}
    (h : ¬∃ c ∈ children[j]?, c.life = .alive) : children.modify j Child.notify = children := by
  rcases hk : children[j]? with _ | c
  · rw [List.modify_eq_set_getElem?, hk]
    rfl
  · have hdead : c.notify = c := if_neg fun hc => h ⟨c, hk, hc⟩
    rw [modify_notify hk, hdead]
    obtain ⟨hlt, rfl⟩ := List.getElem?_eq_some_iff.mp hk
    exact List.set_getElem_self hlt

/-- The parent notifies a child, and loses the connection when the child has exited or had
a report to come. -/
theorem Ledger.dispatch (h : Accounted s) {events : List ParentEvent} {p : Parent} {j : Nat}
    (hphase : s.phase = .handling (.listen :: events))
    (hdispatch : s.parent.dispatch = some (p, some j)) :
    ∃ lost, Ledger s .parentNext { s with
      parent := p
      phase := .handling events
      children := s.children.modify j Child.notify } lost := by
  have hnotified : s.notified = some j := by
    unfold Pool.notified
    rw [hphase]
    simp only [hdispatch, Option.bind_some]
  have hguard : OneAtATime s .parentNext ↔
      ∃ c ∈ s.children[j]?, c.life = .alive ∧ c.edge = false := by
    show (∀ i ∈ s.notified, _) ↔ _
    rw [hnotified]
    simp only [Option.mem_def, Option.some.injEq, forall_eq']
  have hcount : s.phase.events.count .listen = events.count .listen + 1 := by
    rw [hphase, ParentPhase.events, List.count_cons_self]
  have hle := h.queued_le
  unfold Pool.queued at hle
  by_cases halive : ∃ c ∈ s.children[j]?, c.life = .alive
  · obtain ⟨c, hk, halive⟩ := halive
    have hmodify := modify_notify hk
    have hset := total_set Child.announced hk c.notify
    have hqset := total_set Child.queued hk c.notify
    have hcle := h.announced_le c (List.mem_of_getElem? hk)
    have hannounced := c.notify_announced halive
    have hqueued := c.notify_queued halive
    refine ⟨c.edge.toNat, ⟨?_, fun d hd => ?_⟩, ?_, fun _ => ?_⟩
    · unfold Pool.queued
      simp only [hmodify, ParentPhase.events_handling]
      omega
    · rw [hmodify] at hd
      rcases List.mem_or_eq_of_mem_set hd with hd | rfl
      · exact h.announced_le d hd
      · omega
    · unfold Pool.announced
      simp only [hmodify, ParentPhase.events_handling]
      omega
    · rw [hguard, hk]
      cases hedge : c.edge <;> simp [halive, hedge]
  · have hnotify := modify_notify_dead halive
    refine ⟨1, ⟨?_, fun d hd => ?_⟩, ?_, fun _ => ?_⟩
    · unfold Pool.queued
      simp only [hnotify, ParentPhase.events_handling]
      omega
    · rw [hnotify] at hd
      exact h.announced_le d hd
    · unfold Pool.announced
      simp only [hnotify, ParentPhase.events_handling]
      omega
    · rw [hguard]
      exact iff_of_false (fun ⟨c, hc, hlife, _⟩ => halive ⟨c, hc, hlife⟩) (by decide)

/-- A child exits, and loses what is on its way there. -/
theorem Ledger.exit (h : Accounted s) {k : Nat} {c : Child} (hk : s.children[k]? = some c)
    (halive : c.life = .alive) :
    Ledger s (.childExit k) { s with children := s.children.set k { c with life := .zombie } }
      c.announced := by
  have hle := h.queued_le
  have hcle := h.announced_le c (List.mem_of_getElem? hk)
  refine ⟨?_, ?_, fun hloss => ?_⟩
  · have hnone : ({ c with life := .zombie } : Child).announced ≤
        ({ c with life := .zombie } : Child).queued := Nat.le_refl 0
    apply h.setChild hk hnone
    exact h.queued_le.trans (Nat.le_add_right _ _)
  · have hset := total_set Child.announced hk { c with life := .zombie }
    unfold Pool.announced
    simp only
    change _ = total Child.announced s.children + 0 at hset
    omega
  · have hguard : OneAtATime s (.childExit k) ↔ c.pipe = 0 ∧ c.phase.accepts = 0 := by
      show (∀ d ∈ s.children[k]?, _) ↔ _
      rw [hk]
      simp only [Option.mem_def, Option.some.injEq, forall_eq', halive, true_imp_iff]
    have hsame : c.announced = c.queued := by
      -- Nothing is lost yet, so every `int` is announced.
      unfold Pool.loss at hloss
      unfold Pool.announced at hloss
      unfold Pool.queued at hle
      exact eq_of_total_le h.announced_le (by omega) c (List.mem_of_getElem? hk)
    rw [hguard, hsame, Child.queued_of_alive halive]
    omega

/-- A child accepts a connection. -/
theorem Ledger.accept (h : Accounted s) {k : Nat} {c : Child} {events : List ChildEvent}
    (hk : s.children[k]? = some c) (halive : c.life = .alive)
    (hphase : c.phase = .accepting events) :
    Ledger s (.childNext k) { s with
      children := s.children.set k { c with phase := .handling events }
      backlog := s.backlog - 1 } 0 := by
  have hmem := List.mem_of_getElem? hk
  have hle := h.queued_le
  have hcle := h.announced_le c hmem
  have hone : c.queued ≤ s.queued := (le_total Child.queued hk).trans (Nat.le_add_left _ _)
  have hannounced : c.announced = ({ c with phase := .handling events } : Child).announced + 1 := by
    simp only [Child.announced, halive, hphase, ChildPhase.events, ChildPhase.accepts, if_true]
  have hqueued : c.queued = ({ c with phase := .handling events } : Child).queued + 1 := by
    simp only [Child.queued, halive, hphase, ChildPhase.accepts, if_true]
  refine ⟨h.setChild hk (by omega) (by omega), ?_, fun _ => iff_of_true trivial rfl⟩
  have hset := total_set Child.announced hk { c with phase := .handling events }
  unfold Pool.announced
  simp only
  omega

/-- Every step has a ledger. -/
theorem poolStep_ledger (h : Accounted s) (hstep : poolStep s a = some s') :
    ∃ lost, Ledger s a s' lost := by
  cases poolStep_inv hstep with
  | arrive => exact ⟨_, .arrive h⟩
  | signal sig => exact ⟨0, .parent h rfl trivial⟩
  | parentWait hphase hlisten =>
    refine ⟨0, .parent h ?_ trivial⟩
    rw [hphase, ParentPhase.events_handling, hlisten]
    exact Nat.add_comm _ _
  | parentFails hphase =>
    refine ⟨0, .parent h ?_ trivial⟩
    rw [hphase]
    rfl
  | endBatch hphase hevents =>
    refine ⟨0, .parent h ?_ (notified_eq_none (by simp [hphase]))⟩
    rw [hevents, hphase, ParentPhase.events_handling]
  | dispatch hphase hdispatch => exact Ledger.dispatch h hphase hdispatch
  | stop hphase hdispatch =>
    refine ⟨0, .parent h ?_ ?_⟩
    · rw [hphase]
      rfl
    · intro j hj
      unfold Pool.notified at hj
      rw [hphase] at hj
      simp only [hdispatch, Option.bind_some] at hj
      cases hj
  | readSignals hphase => exact ⟨0, .readSignals h hphase⟩
  | childWait hk halive hphase hpipe =>
    refine ⟨0, .child h hk ?_ ?_ trivial⟩
    · simp only [Child.announced, halive, hphase, hpipe, ChildPhase.events, ChildPhase.accepts,
        Bool.toNat_false, List.count_nil, if_true]
      omega
    · simp only [Child.queued, halive, hphase, ChildPhase.accepts]
  | childEnd hk halive hphase =>
    refine ⟨0, .child h hk ?_ ?_ trivial⟩
    · simp only [Child.announced, hphase, ChildPhase.events, ChildPhase.accepts]
    · simp only [Child.queued, hphase, ChildPhase.accepts]
  | @recv k c events hk halive hphase =>
    have hle := h.announced_le c (List.mem_of_getElem? hk)
    rw [Child.announced_of_alive halive, Child.queued_of_alive halive, hphase, ChildPhase.events,
      List.count_cons_self] at hle
    refine ⟨0, .child h hk ?_ ?_ trivial⟩
    · simp only [Child.announced, halive, hphase, ChildPhase.events, ChildPhase.accepts,
        List.count_cons_self, if_true]
      omega
    · simp only [Child.queued, halive, hphase, ChildPhase.accepts, if_true] at hle ⊢
      omega
  | childOther hk halive hphase hne =>
    refine ⟨0, .child h hk ?_ ?_ trivial⟩
    · simp only [Child.announced, halive, hphase, ChildPhase.events, ChildPhase.accepts,
        List.count_cons_of_ne hne, if_true]
    · simp only [Child.queued, hphase, ChildPhase.accepts]
  | accept hk halive hphase => exact ⟨0, .accept h hk halive hphase⟩
  | exit hk halive => exact ⟨_, .exit h hk halive⟩

theorem Ledger.loss {lost : Nat} (h : Accounted s) (hl : Ledger s a s' lost) :
    s'.loss = s.loss + lost := by
  have hle := h.announced_le_backlog
  have hle' := hl.accounted.announced_le_backlog
  have hbalance := hl.balance
  unfold Pool.loss
  omega

/-! ## Runs -/

/-- When all are blocked, what waits is what is lost. -/
theorem Blocked.noneStranded_iff (hb : Blocked s) (h : Accounted s) :
    NoneStranded s ↔ s.loss = 0 := by
  have hchild : ∀ c ∈ s.children, c.announced = 0 := by
    intro c hc
    by_cases halive : c.life = .alive
    · obtain ⟨hphase, hedge⟩ := hb.child c hc halive
      rw [Child.announced_of_alive halive, hphase, hedge]
      rfl
    · exact if_neg halive
  have hloss : s.loss = s.backlog := by
    unfold Pool.loss Pool.announced
    rw [hb.phase, hb.listenEdge, total_eq_zero.mpr hchild]
    exact Nat.sub_zero _
  rw [hloss]
  refine ⟨fun hnone => (hnone hb).2, fun hbacklog _ => ⟨fun c hc halive => ?_, hbacklog⟩⟩
  have hle := h.queued_le
  unfold Pool.queued at hle
  have hzero : total Child.queued s.children = 0 := by omega
  have hqueued := total_eq_zero.mp hzero c hc
  rw [Child.queued_of_alive halive] at hqueued
  omega

/-- A run strands no connection in any of its states when its steps meet the guard.  When it
ends with all blocked, none is stranded in no other case. -/
theorem always_noneStranded (pids : List Int) (as : List PoolAction) :
    (AllSteps poolStep OneAtATime (startPool pids) as →
      Always poolStep NoneStranded (startPool pids) as) ∧
    ∀ s, exec poolStep (startPool pids) as = some s → Blocked s →
      (NoneStranded s ↔ AllSteps poolStep OneAtATime (startPool pids) as) := by
  obtain ⟨hstart, hnone⟩ := startPool_accounted pids
  refine account_runs (p := NoneStranded) Accounted Pool.loss ?_ (fun _ h hb => h hb hb)
    (fun _ h hb => Blocked.noneStranded_iff hb h) hstart hnone as
  intro s a s' h hstep
  obtain ⟨lost, hl⟩ := poolStep_ledger h hstep
  exact ⟨lost, hl.accounted, hl.loss h, hl.guard⟩

instance (s : Pool) : Decidable (Blocked s) :=
  decidable_of_iff (s.phase = .waiting ∧ s.listenEdge = false ∧ s.signalEdge = false ∧
      (∀ c ∈ s.children, c.life = .alive → c.phase = .waiting ∧ c.edge = false) ∧
      ∃ c ∈ s.children, c.life = .alive)
    ⟨fun ⟨h₁, h₂, h₃, h₄, h₅⟩ => ⟨h₁, h₂, h₃, h₄, h₅⟩,
      fun h => ⟨h.phase, h.listenEdge, h.signalEdge, h.child, h.alive⟩⟩

/-- The parent handles a report of the listening socket, and the child `k` its `int`. -/
def serve (k : Nat) : List PoolAction :=
  [.parentWait [.listen], .parentNext, .parentNext,
    .childWait k [.pipe], .childNext k, .childNext k, .childNext k]

/-- Two connections arrive one behind the other, and the second child exits in between. -/
theorem always_noneStranded_two :
    Always poolStep NoneStranded (startPool [101, 102])
      ([.arrive] ++ serve 0 ++ [.childExit 1, .signal .chld, .parentWait [.signal], .parentNext,
        .parentNext, .arrive] ++ serve 0) :=
  (always_noneStranded [101, 102] _).1 (by decide)

/-- Two connections arrive before the first is reported, and one stays in the backlog. -/
theorem not_always_noneStranded_burst :
    ¬ Always poolStep NoneStranded (startPool [101, 102]) ([.arrive, .arrive] ++ serve 0) := by
  intro h
  obtain ⟨s, ⟨hblocked, hbacklog⟩, hnone⟩ :=
    h.exists_last (fun s : Pool => Blocked s ∧ s.backlog = 1) (by decide)
  rw [(hnone hblocked).2] at hbacklog
  exact absurd hbacklog (by decide)

end EasyWebServer.Cgi
