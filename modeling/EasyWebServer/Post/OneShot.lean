import EasyWebServer.Post.Slots

/-!
# One handler at a time

Client descriptors are armed with `EPOLLONESHOT`, so that one thread at a time
handles a slot.  `occupancy` counts the places where a slot is: armed in epoll,
in the work queue, with a worker, or in the batch of the main loop.

Each operation moves a slot from one place to another, or takes it out.  The one
that adds a place is `accept`, which arms a descriptor that `tick` or a worker may
have closed while its slot was still waiting for a worker.
`always_oneHandler_iff` shows that this is the only way to a second handler.
-/

namespace EasyWebServer.Post

open Server Transition

/-- The places where the slot is. -/
def occupancy (s : Server) (fd : Nat) : Nat :=
  (if s.armed fd = none then 0 else 1) + s.workqueue.count fd + s.processing.count fd +
    s.pendingFds.count fd

/-- Every slot is in one place at most, and once. -/
def OneHandler (s : Server) : Prop := ∀ fd, occupancy s fd ≤ 1

/-- A connection that `accept` admits does not get a slot that waits for a worker,
or that a worker has taken. -/
def SlotFree (cfg : Config) (s : Server) : ServerAction → Prop
  | .accept =>
      s.pending.head? = some .listen → s.userCount < MAX_FD →
        s.lowestFree cfg ∉ s.workqueue ∧ s.lowestFree cfg ∉ s.processing
  | _ => True

/-! ## The invariant -/

/-- One handler for every slot, and what is reported is open. -/
structure Exclusive (s : Server) : Prop where
  once : OneHandler s
  pending_open : ∀ fd ∈ s.pendingFds, fd ∈ s.fds

theorem startServer_exclusive : Exclusive startServer where
  once := by
    intro fd
    show 0 + [].count fd + [].count fd + [].count fd ≤ 1
    rw [List.count_nil]
    exact Nat.zero_le 1
  pending_open := by
    intro fd hfd
    cases hfd

theorem occupancy_eq_zero {s : Server} {fd : Nat} :
    occupancy s fd = 0 ↔
      s.armed fd = none ∧ fd ∉ s.workqueue ∧ fd ∉ s.processing ∧ fd ∉ s.pendingFds := by
  rw [occupancy, ← List.count_eq_zero (l := s.workqueue), ← List.count_eq_zero (l := s.processing),
    ← List.count_eq_zero (l := s.pendingFds)]
  by_cases harmed : s.armed fd = none
  · rw [if_pos harmed]
    constructor
    · intro h
      exact ⟨harmed, by omega, by omega, by omega⟩
    · rintro ⟨-, hq, hp, hb⟩
      omega
  · rw [if_neg harmed]
    constructor
    · intro h
      omega
    · intro h
      exact absurd h.1 harmed

/-- The operations that add no place. -/
theorem Exclusive.mono {s s' : Server} (h : Exclusive s)
    (hocc : ∀ fd, occupancy s' fd ≤ occupancy s fd)
    (hpending : ∀ fd ∈ s'.pendingFds, fd ∈ s'.fds) : Exclusive s' :=
  ⟨fun fd => (hocc fd).trans (h.once fd), hpending⟩

/-- The operations that find a place for a slot that has none. -/
theorem Exclusive.enter {s s' : Server} (h : Exclusive s) (fd : Nat) (hfd : occupancy s' fd ≤ 1)
    (hocc : ∀ g, g ≠ fd → occupancy s' g ≤ occupancy s g)
    (hpending : ∀ g ∈ s'.pendingFds, g ∈ s'.fds) : Exclusive s' := by
  refine ⟨fun g => ?_, hpending⟩
  by_cases hg : g = fd
  · rw [hg]
    exact hfd
  · exact (hocc g hg).trans (h.once g)

theorem occupancy_same {s s' : Server} (h : SameSockets s s') (fd : Nat) :
    occupancy s' fd = occupancy s fd := by
  rw [occupancy, occupancy, pendingFds, pendingFds, h.armed, h.workqueue, h.processing, h.pending]

theorem Exclusive.same {s s' : Server} (h : Exclusive s) (hsame : SameSockets s s') :
    Exclusive s' := by
  apply h.mono
  · exact fun fd => (occupancy_same hsame fd).le
  · intro fd hfd
    rw [pendingFds, hsame.pending] at hfd
    rw [hsame.fds]
    exact h.pending_open fd hfd

/-- A descriptor is closed: no event is pending for it. -/
theorem Exclusive.remove {s s' : Server} (h : Exclusive s) {fd : Nat}
    (hfds : s'.fds = s.fds.erase fd) (harmed : s'.armed = Function.update s.armed fd none)
    (hqueue : s'.workqueue = s.workqueue) (hproc : s'.processing = s.processing)
    (hpending : s'.pending = s.pending) (hfd : fd ∉ s.pendingFds) : Exclusive s' := by
  apply h.mono
  · intro g
    rw [occupancy, occupancy, pendingFds, pendingFds, hqueue, hproc, hpending, harmed]
    by_cases hg : g = fd
    · rw [hg, Function.update_self, if_pos rfl]
      omega
    · rw [Function.update_of_ne hg]
  · intro g hg
    rw [pendingFds, hpending] at hg
    rw [hfds]
    exact AList.mem_erase.mpr ⟨fun heq => hfd (heq ▸ hg), h.pending_open g hg⟩

/-- A slot that is in no place is armed. -/
theorem Exclusive.arm {s : Server} (h : Exclusive s) {fd : Nat} (ev : Interest)
    (hidle : occupancy s fd = 0) : Exclusive (s.arm fd ev) := by
  rw [Server.arm]
  split
  · obtain ⟨-, hq, hp, hb⟩ := occupancy_eq_zero.mp hidle
    apply h.enter fd
    · show (if Function.update s.armed fd (some ev) fd = none then 0 else 1) +
        s.workqueue.count fd + s.processing.count fd + s.pendingFds.count fd ≤ 1
      rw [Function.update_self, List.count_eq_zero.mpr hq, List.count_eq_zero.mpr hp,
        List.count_eq_zero.mpr hb, if_neg (Option.some_ne_none ev)]
    · intro g hg
      show (if Function.update s.armed fd (some ev) g = none then 0 else 1) +
        s.workqueue.count g + s.processing.count g + s.pendingFds.count g ≤ occupancy s g
      rw [Function.update_of_ne hg]
      exact Nat.le_refl _
    · exact h.pending_open
  · exact h

/-- The slot of the event that is taken is then in no place. -/
theorem Exclusive.takeEvent {s : Server} (h : Exclusive s) {e : Event} {rest : List Event}
    (hpending : s.pending = e :: rest) :
    Exclusive { s with pending := rest } ∧
      ∀ fd, e.fd? = some fd → occupancy { s with pending := rest } fd = 0 := by
  have hsub : List.Sublist (rest.filterMap Event.fd?) s.pendingFds := by
    rw [pendingFds, hpending]
    exact (List.sublist_cons_self e rest).filterMap Event.fd?
  refine ⟨h.mono ?_ ?_, ?_⟩
  · intro fd
    have hle := hsub.count_le fd
    show (if s.armed fd = none then 0 else 1) + s.workqueue.count fd + s.processing.count fd +
      (rest.filterMap Event.fd?).count fd ≤ occupancy s fd
    rw [occupancy]
    omega
  · exact fun fd hfd => h.pending_open fd (hsub.subset hfd)
  · intro fd hfd
    have honce := h.once fd
    have hcount : s.pendingFds.count fd = (rest.filterMap Event.fd?).count fd + 1 := by
      rw [pendingFds, hpending, List.filterMap_cons_some hfd, List.count_cons_self]
    rw [occupancy, hcount] at honce
    show (if s.armed fd = none then 0 else 1) + s.workqueue.count fd + s.processing.count fd +
      (rest.filterMap Event.fd?).count fd = 0
    omega

theorem Exclusive.closeEvent {s : Server} (h : Exclusive s) (hok : SlotsOk s) {fd : Nat}
    (htracks : Tracks s fd) (hfd : fd ∉ s.pendingFds) : Exclusive (s.closeEvent fd) := by
  obtain ⟨t, timers, -, -, heq⟩ := closeEvent_eq hok.live htracks
  rw [heq]
  exact h.remove rfl rfl rfl rfl rfl hfd

theorem Exclusive.handleInput {s : Server} (h : Exclusive s) (hok : SlotsOk s) (cfg : Config)
    {fd : Nat} (htracks : Tracks s fd) (hidle : occupancy s fd = 0) (ok : Bool) :
    Exclusive (s.handleInput cfg fd ok) := by
  obtain ⟨harmed, hq, hp, hb⟩ := occupancy_eq_zero.mp hidle
  rw [Server.handleInput]
  split
  · rw [Server.append]
    split
    · exact h.same (refresh_same s fd)
    · apply Exclusive.same _ (refresh_same _ fd)
      apply h.enter fd
      · show (if s.armed fd = none then 0 else 1) + (s.workqueue ++ [fd]).count fd +
          s.processing.count fd + s.pendingFds.count fd ≤ 1
        rw [if_pos harmed, List.count_append, List.count_eq_zero.mpr hq,
          List.count_eq_zero.mpr hp, List.count_eq_zero.mpr hb, List.count_singleton_self]
      · intro g hg
        show (if s.armed g = none then 0 else 1) + (s.workqueue ++ [fd]).count g +
          s.processing.count g + s.pendingFds.count g ≤ occupancy s g
        have hnone : [fd].count g = 0 :=
          List.count_eq_zero.mpr (fun hmem => hg (List.mem_singleton.mp hmem))
        rw [List.count_append, hnone]
        exact Nat.le_refl _
      · exact h.pending_open
  · exact h.closeEvent hok htracks hb

theorem Exclusive.handleOutput {s : Server} (h : Exclusive s) (hok : SlotsOk s) {fd : Nat}
    (htracks : Tracks s fd) (hidle : occupancy s fd = 0) (exit : WriteExit) :
    Exclusive (s.handleOutput fd exit) := by
  obtain ⟨-, -, -, hb⟩ := occupancy_eq_zero.mp hidle
  have hops : Exclusive (s.sockOps fd exit.ops) := by
    apply writeOps_rule fd exit h
    intro g ev hg
    rw [hok.sockfd fd g hg]
    exact h.arm ev hidle
  rw [Server.handleOutput]
  show Exclusive (if exit.result then _ else _)
  split
  · exact hops.same (refresh_same _ fd)
  · apply hops.closeEvent (hok.sockOps fd exit.ops) (htracks.writeOps exit)
    rw [writeOps_pendingFds]
    exact hb

/-- What epoll reports is not armed any more. -/
theorem Exclusive.deliver {s : Server} (h : Exclusive s) (hok : SlotsOk s) {events : List Event}
    (hphase : s.phase = .waiting) (hbatch : s.Batch events) : Exclusive (s.deliver events) := by
  have hnil : s.pending = [] := hok.pending_phase (by rw [hphase]; decide)
  apply h.mono
  · intro fd
    show (if (if fd ∈ events.filterMap Event.fd? then none else s.armed fd) = none then 0 else 1) +
      s.workqueue.count fd + s.processing.count fd + (events.filterMap Event.fd?).count fd ≤
        occupancy s fd
    rw [occupancy, pendingFds, hnil, List.filterMap_nil, List.count_nil]
    by_cases hfd : fd ∈ events.filterMap Event.fd?
    · -- The place in epoll becomes a place in the batch.
      have harmed : s.armed fd ≠ none := SlotsOk.reported_armed hbatch fd hfd
      have hcount := List.nodup_iff_count_le_one.mp hbatch.nodup fd
      rw [if_pos hfd, if_pos rfl, if_neg harmed]
      omega
    · rw [if_neg hfd, List.count_eq_zero.mpr hfd]
  · exact hok.reported_open hbatch

theorem Exclusive.newConn {s : Server} (h : Exclusive s) {connfd : Nat}
    (hclosed : connfd ∉ s.fds) (hqueue : connfd ∉ s.workqueue) (hproc : connfd ∉ s.processing) :
    Exclusive (s.newConn connfd) := by
  have hb : connfd ∉ s.pendingFds := fun hmem => hclosed (h.pending_open connfd hmem)
  apply h.enter connfd
  · show (if Function.update s.armed connfd (some .input) connfd = none then 0 else 1) +
      s.workqueue.count connfd + s.processing.count connfd + s.pendingFds.count connfd ≤ 1
    rw [Function.update_self, List.count_eq_zero.mpr hqueue, List.count_eq_zero.mpr hproc,
      List.count_eq_zero.mpr hb]
    decide
  · intro g hg
    show (if Function.update s.armed connfd (some .input) g = none then 0 else 1) +
      s.workqueue.count g + s.processing.count g + s.pendingFds.count g ≤ occupancy s g
    rw [Function.update_of_ne hg]
    exact Nat.le_refl _
  · exact fun fd hfd => (AList.mem_insert _).mpr (.inr (h.pending_open fd hfd))

/-- A worker leaves its slot in no place, before `process` arms the descriptor. -/
theorem Exclusive.finish {s : Server} (h : Exclusive s) {fd : Nat} (hmem : fd ∈ s.processing) :
    Exclusive { s with processing := s.processing.erase fd } ∧
      occupancy { s with processing := s.processing.erase fd } fd = 0 := by
  refine ⟨h.mono ?_ h.pending_open, ?_⟩
  · intro g
    have hle := (List.erase_sublist (a := fd) (l := s.processing)).count_le g
    show (if s.armed g = none then 0 else 1) + s.workqueue.count g +
      (s.processing.erase fd).count g + s.pendingFds.count g ≤ occupancy s g
    rw [occupancy]
    omega
  · have honce := h.once fd
    have hpos := List.count_pos_iff.mpr hmem
    show (if s.armed fd = none then 0 else 1) + s.workqueue.count fd +
      (s.processing.erase fd).count fd + s.pendingFds.count fd = 0
    rw [occupancy] at honce
    rw [List.count_erase_self]
    omega

/-! ## One handler, exactly when accept finds its slot free -/

theorem serverStep_exclusive {cfg : Config} {s s' : Server} {a : ServerAction} (hok : SlotsOk s)
    (h : Exclusive s) (hguard : SlotFree cfg s a) (hstep : serverStep cfg s a = some s') :
    Exclusive s' := by
  rcases serverStep_inv hstep with _ | ⟨events, hphase, hbatch⟩ | _ | ⟨rest, hpending, -⟩ |
    ⟨rest, hpending, hroom⟩ | ⟨rest, hpending⟩ | ⟨rest, alarm, term, hpending⟩ |
    ⟨rest, fd, hpending⟩ | ⟨rest, fd, ok, hpending⟩ | ⟨rest, fd, exit, hpending⟩ |
    ⟨_, hpending⟩ | ⟨rest, fd, hqueue⟩ | ⟨fd, code, writeRet, hmem⟩
  case advance => exact ⟨h.once, h.pending_open⟩
  case epollWait => exact h.deliver hok hphase hbatch
  case epollFails => exact ⟨h.once, h.pending_open⟩
  case refuse => exact (h.takeEvent hpending).1
  case newConn =>
    obtain ⟨hqueue, hproc⟩ := hguard (by rw [hpending]; rfl) hroom
    exact h.newConn (lowestFree_not_open cfg s) hqueue hproc
  case acceptFails => exact (h.takeEvent hpending).1
  case signals =>
    have h' := (h.takeEvent hpending).1
    exact ⟨h'.once, h'.pending_open⟩
  case hangup =>
    obtain ⟨htracks, hfd⟩ := hok.takeEvent_client hpending
    exact (h.takeEvent hpending).1.closeEvent (hok.takeEvent hpending) htracks hfd
  case input =>
    obtain ⟨h', hidle⟩ := h.takeEvent hpending
    exact h'.handleInput (hok.takeEvent hpending) cfg (hok.takeEvent_client hpending).1
      (hidle fd rfl) ok
  case output =>
    obtain ⟨h', hidle⟩ := h.takeEvent hpending
    exact h'.handleOutput (hok.takeEvent hpending) (hok.takeEvent_client hpending).1
      (hidle fd rfl) exit
  case endBatch =>
    apply (endBatch_rule Exclusive hok hpending h (fun _ _ _ h' => ⟨h'.once, h'.pending_open⟩) ?_).2
    intro s₁ t rest u hok₁ h₁ _ hpend hpq hu _
    obtain ⟨hfds, harmed, -, -⟩ := hok₁.expireTop_fields hpq hu
    apply h₁.remove hfds harmed rfl rfl rfl
    rw [pendingFds, hpend]
    exact List.not_mem_nil
  case take =>
    refine h.mono (fun g => ?_) (fun g hg => h.pending_open g hg)
    show (if s.armed g = none then 0 else 1) + rest.count g +
      (s.processing ++ [fd]).count g + s.pendingFds.count g ≤ occupancy s g
    rw [occupancy, hqueue, List.count_append, List.count_cons (l := rest), List.count_singleton]
    omega
  case process =>
    obtain ⟨h', hidle⟩ := h.finish hmem
    have hsock : ∀ g, (s.slots fd).sockfd = some g → g = fd := hok.sockfd fd
    rcases processOps_eq (s := { s with processing := s.processing.erase fd }) hsock code
      writeRet with ⟨-, heq⟩ | ⟨ev, heq⟩ | ⟨-, -, heq⟩
    · rw [heq]
      exact h'
    · rw [heq]
      exact h'.arm ev hidle
    · rw [heq]
      exact h'.remove rfl rfl rfl rfl rfl (occupancy_eq_zero.mp hidle).2.2.2

/-- Two handlers after an `accept` on a slot that still waits for a worker, or that
a worker has taken. -/
theorem slotFree_of_oneHandler {s : Server} {connfd : Nat} (h : OneHandler (s.newConn connfd)) :
    connfd ∉ s.workqueue ∧ connfd ∉ s.processing := by
  have honce := h connfd
  change (if Function.update s.armed connfd (some .input) connfd = none then 0 else 1) +
    s.workqueue.count connfd + s.processing.count connfd + s.pendingFds.count connfd ≤ 1 at honce
  rw [Function.update_self, if_neg (Option.some_ne_none _)] at honce
  exact ⟨List.count_eq_zero.mp (by omega), List.count_eq_zero.mp (by omega)⟩

/-- A step that leads to no second handler finds its slot free. -/
theorem slotFree_of_next {cfg : Config} {s : Server} {a : ServerAction} (hok : SlotsOk s)
    (h : ∀ s', serverStep cfg s a = some s' → OneHandler s') : SlotFree cfg s a := by
  rcases a with _ | _ | _ | _ | _ | _ | _ | _ | _ | _ | _ | _
  case accept =>
    intro hhead hroom
    obtain ⟨rest, hpending⟩ := List.head?_eq_some_iff.mp hhead
    have hphase : s.phase = .dispatching := by
      by_contra hne
      rw [hok.pending_phase hne] at hpending
      cases hpending
    apply slotFree_of_oneHandler (s := s)
    apply h (s.newConn (s.lowestFree cfg))
    rw [serverStep, hphase, hpending]
    exact if_neg (by omega)
  all_goals trivial

/-- Every slot is in one place at most, in every state of a run, exactly when every
connection that `accept` admits gets a slot that waits for no worker and that no
worker has taken. -/
theorem always_oneHandler_iff (cfg : Config) (as : List ServerAction) :
    Always (serverStep cfg) OneHandler startServer as ↔
      AllSteps (serverStep cfg) (SlotFree cfg) startServer as :=
  always_iff_allSteps (fun s => SlotsOk s ∧ Exclusive s) (SlotFree cfg) (fun _ h => h.2.once)
    (fun _ _ _ h hguard hstep =>
      ⟨serverStep_slotsOk h.1 hstep, serverStep_exclusive h.1 h.2 hguard hstep⟩)
    (fun _ _ h hnext => slotFree_of_next h.1 hnext) ⟨startServer_slotsOk, startServer_exclusive⟩ as

/-- A request waits in the queue until the timer of its connection expires, and
`accept` gets the same descriptor. -/
theorem not_always_oneHandler_reused :
    ¬ Always (serverStep (mainConfig [0, 1, 2])) OneHandler startServer
      [.epollWait [.listen], .accept, .acceptFails, .endBatch,
        .epollWait [.client 3 .input], .readOnce true, .endBatch, .advance 15,
        .epollWait [.signal], .signals true false, .endBatch,
        .epollWait [.listen], .accept] := by
  intro h
  obtain ⟨s, htwo, hone⟩ := h.exists_last (fun s : Server => occupancy s 3 = 2)
    (by decide)
  exact absurd (hone 3) (by omega)

end EasyWebServer.Post
