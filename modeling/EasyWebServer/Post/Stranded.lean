import EasyWebServer.Post.OneShot

/-!
# No stranded connection

When epoll has reported a descriptor it is disarmed, and somebody has to arm it
again: the main loop after a write, or the worker behind `append`.  `Served` is
the invariant that every open descriptor has a place in the sense of `occupancy`.

The one step that loses a place is a read event whose request `append` refuses,
since the main loop does not look at the answer.  A run in which `append` never
refuses leaves no connection without a place (`always_notStranded`).
`exec_crowd` fills the queue, and `not_always_notStranded_crowd` is the read event
that is then lost.
-/

namespace EasyWebServer.Post

open Server Transition

/-- Behind the loop over `events`, an open descriptor is armed, or its slot is in
the queue or with a worker. -/
def NotStranded (s : Server) : Prop :=
  s.phase ≠ .dispatching → ∀ fd ∈ s.fds,
    s.armed fd ≠ none ∨ fd ∈ s.workqueue ∨ fd ∈ s.processing

/-- The queue has room when a read event has succeeded. -/
def QueueRoom (cfg : Config) (s : Server) : ServerAction → Prop
  | .readOnce ok => ok = true → s.workqueue.length ≤ cfg.maxRequests
  | _ => True

instance (cfg : Config) (s : Server) : ∀ a : ServerAction, Decidable (QueueRoom cfg s a)
  | .readOnce _ => inferInstanceAs (Decidable (_ → _))
  | .advance _ | .epollWait _ | .epollFails | .accept | .acceptFails | .signals _ _
  | .hangup | .write _ | .endBatch | .take | .process _ _ _ => .isTrue trivial

/-! ## The invariant -/

/-- Every open descriptor has a place. -/
def Served (s : Server) : Prop := ∀ fd ∈ s.fds, 0 < occupancy s fd

/-- Every open descriptor but `fd` has a place. -/
def ServedBut (s : Server) (fd : Nat) : Prop :=
  ∀ g ∈ s.fds, g ≠ fd → 0 < occupancy s g

theorem occupancy_pos {s : Server} {fd : Nat} :
    0 < occupancy s fd ↔
      s.armed fd ≠ none ∨ fd ∈ s.workqueue ∨ fd ∈ s.processing ∨ fd ∈ s.pendingFds := by
  rw [Nat.pos_iff_ne_zero, Ne, occupancy_eq_zero]
  constructor
  · intro h
    by_contra hnot
    push Not at hnot
    exact h hnot
  · rintro (h | h | h | h) ⟨harmed, hq, hp, hb⟩
    · exact h harmed
    · exact hq h
    · exact hp h
    · exact hb h

theorem Served.notStranded {s : Server} (h : Served s) (hok : SlotsOk s) : NotStranded s := by
  intro hphase fd hfd
  rcases occupancy_pos.mp (h fd hfd) with harmed | hq | hp | hb
  · exact .inl harmed
  · exact .inr (.inl hq)
  · exact .inr (.inr hp)
  · rw [pendingFds, hok.pending_phase hphase] at hb
    cases hb

theorem Served.but {s : Server} (h : Served s) (fd : Nat) : ServedBut s fd :=
  fun g hg _ => h g hg

/-- The slot has a place again. -/
theorem ServedBut.served {s : Server} {fd : Nat} (h : ServedBut s fd)
    (hfd : fd ∈ s.fds → 0 < occupancy s fd) : Served s := by
  intro g hg
  by_cases hgfd : g = fd
  · rw [hgfd] at hg ⊢
    exact hfd hg
  · exact h g hg hgfd

theorem Served.same {s s' : Server} (h : Served s) (hsame : SameSockets s s') : Served s' := by
  intro fd hfd
  rw [hsame.fds] at hfd
  rw [occupancy_same hsame]
  exact h fd hfd

/-- The descriptor of the slot without a place is closed. -/
theorem ServedBut.remove {s s' : Server} {fd : Nat} (h : ServedBut s fd)
    (hfds : s'.fds = s.fds.erase fd) (harmed : s'.armed = Function.update s.armed fd none)
    (hqueue : s'.workqueue = s.workqueue) (hproc : s'.processing = s.processing)
    (hpending : s'.pending = s.pending) : Served s' := by
  intro g hg
  rw [hfds] at hg
  obtain ⟨hne, hopen⟩ := AList.mem_erase.mp hg
  have hpos := h g hopen hne
  rw [occupancy, pendingFds] at hpos ⊢
  rw [hqueue, hproc, hpending, harmed, Function.update_of_ne hne]
  exact hpos

theorem ServedBut.arm {s : Server} {fd : Nat} (h : ServedBut s fd) (ev : Interest) :
    Served (s.arm fd ev) := by
  intro g hg
  rw [arm_fds] at hg
  apply occupancy_pos.mpr
  by_cases hgfd : g = fd
  · subst hgfd
    apply Or.inl
    rw [arm_armed, if_pos ⟨rfl, hg⟩]
    exact Option.some_ne_none ev
  · have hplace := occupancy_pos.mp (h g hg hgfd)
    rw [arm_armed, if_neg (fun hc => hgfd hc.1)]
    rw [Server.arm]
    split <;> exact hplace

/-- The event that is taken was the place of its slot. -/
theorem Served.takeEvent {s : Server} (h : Served s) {fd : Nat} {kind : EventKind}
    {rest : List Event} (hpending : s.pending = .client fd kind :: rest) :
    ServedBut { s with pending := rest } fd := by
  intro g hg hne
  have hpos := h g hg
  have hsome : (Event.client fd kind).fd? = some fd := rfl
  rw [occupancy, pendingFds, hpending, List.filterMap_cons_some hsome,
    List.count_cons_of_ne (Ne.symm hne)] at hpos
  exact hpos

/-- An event of another kind is no place. -/
theorem Served.skipEvent {s : Server} (h : Served s) {e : Event} {rest : List Event}
    (hpending : s.pending = e :: rest) (he : e.fd? = none) :
    Served { s with pending := rest } := by
  intro g hg
  have hpos := h g hg
  rw [occupancy, pendingFds, hpending, List.filterMap_cons_none he] at hpos
  exact hpos

theorem ServedBut.closeEvent {s : Server} {fd : Nat} (h : ServedBut s fd) (hok : SlotsOk s)
    (htracks : Tracks s fd) : Served (s.closeEvent fd) := by
  obtain ⟨t, timers, -, -, heq⟩ := closeEvent_eq hok.live htracks
  rw [heq]
  exact h.remove rfl rfl rfl rfl rfl

/-- A read event, when the queue has room. -/
theorem ServedBut.handleInput {s : Server} {fd : Nat} (h : ServedBut s fd) (hok : SlotsOk s)
    (cfg : Config) (htracks : Tracks s fd) {ok : Bool}
    (hroom : ok = true → s.workqueue.length ≤ cfg.maxRequests) :
    Served (s.handleInput cfg fd ok) := by
  rw [Server.handleInput]
  split
  · rename_i hread
    have hlen := hroom hread
    rw [append_eq, if_neg (by omega)]
    apply Served.same _ (refresh_same _ fd)
    intro g hg
    apply occupancy_pos.mpr
    show s.armed g ≠ none ∨ g ∈ s.workqueue ++ [fd] ∨ g ∈ s.processing ∨ g ∈ s.pendingFds
    by_cases hgfd : g = fd
    · exact .inr (.inl (List.mem_append_right _ (List.mem_singleton.mpr hgfd)))
    · rcases occupancy_pos.mp (h g hg hgfd) with harmed | hq | hrest
      · exact .inl harmed
      · exact .inr (.inl (List.mem_append_left _ hq))
      · exact .inr (.inr hrest)
  · exact h.closeEvent hok htracks

/-- A write event: `write` arms the descriptor whenever it succeeds. -/
theorem ServedBut.handleOutput {s : Server} {fd : Nat} (h : ServedBut s fd) (hok : SlotsOk s)
    (htracks : Tracks s fd) (exit : WriteExit) : Served (s.handleOutput fd exit) := by
  have hops : ServedBut (s.sockOps fd exit.ops) fd ∧
      (exit.result = true → Served (s.sockOps fd exit.ops)) := by
    rcases writeOps_eq s fd exit with ⟨hwhy, heq⟩ | ⟨g, ev, hg, heq⟩
    · rw [heq]
      refine ⟨h, fun hresult => h.served (fun hopen => ?_)⟩
      rcases hwhy with rfl | hnone
      · cases hresult
      · rw [hok.open_sockfd fd hopen] at hnone
        cases hnone
    · rw [heq, hok.sockfd fd g hg]
      exact ⟨(h.arm ev).but fd, fun _ => h.arm ev⟩
  rw [Server.handleOutput]
  show Served (if exit.result then _ else _)
  split
  · rename_i hresult
    exact (hops.2 hresult).same (refresh_same _ fd)
  · exact hops.1.closeEvent (hok.sockOps fd exit.ops) (htracks.writeOps exit)

/-- A place in epoll becomes a place in the batch. -/
theorem Served.deliver {s : Server} (h : Served s) (hok : SlotsOk s) {events : List Event}
    (hphase : s.phase = .waiting) : Served (s.deliver events) := by
  intro fd hfd
  apply occupancy_pos.mpr
  show (if fd ∈ events.filterMap Event.fd? then none else s.armed fd) ≠ none ∨
    fd ∈ s.workqueue ∨ fd ∈ s.processing ∨ fd ∈ events.filterMap Event.fd?
  by_cases hmem : fd ∈ events.filterMap Event.fd?
  · exact .inr (.inr (.inr hmem))
  · rw [if_neg hmem]
    rcases occupancy_pos.mp (h fd hfd) with harmed | hq | hp | hb
    · exact .inl harmed
    · exact .inr (.inl hq)
    · exact .inr (.inr (.inl hp))
    · rw [pendingFds, hok.pending_phase (by rw [hphase]; decide)] at hb
      cases hb

/-- A new connection is armed. -/
theorem Served.newConn {s : Server} (h : Served s) (connfd : Nat) : Served (s.newConn connfd) := by
  intro fd hfd
  apply occupancy_pos.mpr
  show Function.update s.armed connfd (some .input) fd ≠ none ∨ fd ∈ s.workqueue ∨
    fd ∈ s.processing ∨ fd ∈ s.pendingFds
  by_cases heq : fd = connfd
  · apply Or.inl
    rw [heq, Function.update_self]
    exact Option.some_ne_none _
  · rw [Function.update_of_ne heq]
    exact occupancy_pos.mp (h fd (((AList.mem_insert _).mp hfd).resolve_left heq))

/-- The worker was the place of its slot. -/
theorem Served.finish {s : Server} (h : Served s) (fd : Nat) :
    ServedBut { s with processing := s.processing.erase fd } fd := by
  intro g hg hne
  have hpos := h g hg
  rw [occupancy, ← List.count_erase_of_ne hne (l := s.processing)] at hpos
  exact hpos

/-! ## Nothing is stranded while the queue has room -/

theorem serverStep_served {cfg : Config} {s s' : Server} {a : ServerAction} (hok : SlotsOk s)
    (h : Served s) (hguard : QueueRoom cfg s a) (hstep : serverStep cfg s a = some s') :
    Served s' := by
  rcases serverStep_inv hstep with _ | ⟨events, hphase, -⟩ | _ | ⟨rest, hpending, -⟩ | _ |
    ⟨rest, hpending⟩ | ⟨rest, alarm, term, hpending⟩ | ⟨rest, fd, hpending⟩ |
    ⟨rest, fd, ok, hpending⟩ | ⟨rest, fd, exit, hpending⟩ | ⟨_, hpending⟩ |
    ⟨rest, fd, hqueue⟩ | ⟨fd, code, writeRet, -⟩
  case advance => exact h
  case epollWait => exact h.deliver hok hphase
  case epollFails => exact h
  case refuse => exact h.skipEvent hpending rfl
  case newConn => exact h.newConn _
  case acceptFails => exact h.skipEvent hpending rfl
  case signals => exact h.skipEvent hpending rfl
  case hangup =>
    exact (h.takeEvent hpending).closeEvent (hok.takeEvent hpending)
      (hok.takeEvent_client hpending).1
  case input =>
    exact (h.takeEvent hpending).handleInput (hok.takeEvent hpending) cfg
      (hok.takeEvent_client hpending).1 hguard
  case output =>
    exact (h.takeEvent hpending).handleOutput (hok.takeEvent hpending)
      (hok.takeEvent_client hpending).1 exit
  case endBatch =>
    apply (endBatch_rule Served hok hpending h (fun _ _ _ h' => h') ?_).2
    intro s₁ t rest u hok₁ h₁ _ _ hpq hu _
    obtain ⟨hfds, harmed, -, -⟩ := hok₁.expireTop_fields hpq hu
    exact (h₁.but u.userData).remove hfds harmed rfl rfl rfl
  case take =>
    intro g hg
    apply occupancy_pos.mpr
    show s.armed g ≠ none ∨ g ∈ rest ∨ g ∈ s.processing ++ [fd] ∨ g ∈ s.pendingFds
    rcases occupancy_pos.mp (h g hg) with harmed | hq | hp | hb
    · exact .inl harmed
    · rw [hqueue] at hq
      rcases List.mem_cons.mp hq with rfl | hrest
      · exact .inr (.inr (.inl (List.mem_append_right _ (List.mem_singleton_self _))))
      · exact .inr (.inl hrest)
    · exact .inr (.inr (.inl (List.mem_append_left _ hp)))
    · exact .inr (.inr (.inr hb))
  case process =>
    have hsock : ∀ g, (s.slots fd).sockfd = some g → g = fd := hok.sockfd fd
    rcases processOps_eq (s := { s with processing := s.processing.erase fd }) hsock code
      writeRet with ⟨hnone, heq⟩ | ⟨ev, heq⟩ | ⟨-, -, heq⟩
    · rw [heq]
      apply (h.finish fd).served
      intro hopen
      rw [show (s.slots fd).sockfd = some fd from hok.open_sockfd fd hopen] at hnone
      cases hnone
    · rw [heq]
      exact (h.finish fd).arm ev
    · rw [heq]
      exact (h.finish fd).remove rfl rfl rfl rfl rfl

/-- In a run in which `append` refuses no request, every descriptor that is open at
the end of an iteration is armed, or its slot is in the queue or with a worker. -/
theorem always_notStranded (cfg : Config) (as : List ServerAction)
    (hguard : AllSteps (serverStep cfg) (QueueRoom cfg) startServer as) :
    Always (serverStep cfg) NotStranded startServer as := by
  apply always_of_invariant (fun s => SlotsOk s ∧ Served s) (QueueRoom cfg)
  · rintro s a s' ⟨hok, h⟩ hg hstep
    exact ⟨serverStep_slotsOk hok hstep, serverStep_served hok h hg hstep⟩
  · exact fun s h => h.2.notStranded h.1
  · exact ⟨startServer_slotsOk, fun fd hfd => absurd hfd (AList.notMem_empty fd)⟩
  · exact hguard

/-- A request that is answered over a persistent connection. -/
theorem always_notStranded_keepAlive :
    Always (serverStep (mainConfig [0, 1, 2])) NotStranded startServer
      [.epollWait [.listen], .accept, .acceptFails, .endBatch,
        .epollWait [.client 3 .input], .readOnce true, .endBatch, .take,
        .process 3 .fileRequest true, .epollWait [.client 3 .output], .write .keepAlive,
        .endBatch] :=
  always_notStranded (mainConfig [0, 1, 2])
    [.epollWait [.listen], .accept, .acceptFails, .endBatch,
      .epollWait [.client 3 .input], .readOnce true, .endBatch, .take,
      .process 3 .fileRequest true, .epollWait [.client 3 .output], .write .keepAlive,
      .endBatch] (by decide)

/-! ## A queue without room -/

/-- A client connects, and sends a request. -/
def visit (fd : Nat) : List ServerAction :=
  [.epollWait [.listen], .accept, .acceptFails, .endBatch,
    .epollWait [.client fd .input], .readOnce true, .endBatch]

/-- The visits of `n` clients, with no worker at work.  The server itself has the
descriptors 0, 1 and 2. -/
def crowd : Nat → List ServerAction
  | 0 => []
  | n + 1 => crowd n ++ visit (n + 3)

/-- The server after `n` visits. -/
structure Crowded (n : Nat) (s : Server) : Prop where
  slots : SlotsOk s
  phase : s.phase = .waiting
  timeout : s.timeout = false
  stopServer : s.stopServer = false
  fds : ∀ fd, fd ∈ s.fds ↔ 3 ≤ fd ∧ fd < n + 3
  length : s.fds.keys.length = n
  userCount : s.userCount = n
  processing : s.processing = []

theorem crowded_start : Crowded 0 startServer where
  slots := startServer_slotsOk
  phase := rfl
  timeout := rfl
  stopServer := rfl
  fds := by
    intro fd
    constructor
    · intro h
      exact absurd h (AList.notMem_empty fd)
    · intro h
      omega
  length := rfl
  userCount := rfl
  processing := rfl

/-- The descriptors 0 to `n + 2` are in use. -/
theorem Crowded.lowestFree {n : Nat} {s : Server} (h : Crowded n s) :
    s.lowestFree (mainConfig [0, 1, 2]) = n + 3 := by
  have hused : ∀ fd, fd ∈ s.usedFds (mainConfig [0, 1, 2]) ↔ fd < n + 3 := by
    intro fd
    show fd ∈ [0, 1, 2] ++ s.fds.keys ↔ fd < n + 3
    rw [List.mem_append, ← AList.mem_keys, h.fds]
    simp only [List.mem_cons, List.not_mem_nil, or_false]
    omega
  apply Descriptors.lowest_eq
  · rw [hused]
    exact Nat.lt_irrefl _
  · intro fd hfd
    exact (hused fd).mpr hfd

theorem endBatch_quiet {s : Server} (htimeout : s.timeout = false)
    (hstop : s.stopServer = false) : s.endBatch = { s with phase := .waiting } := by
  rw [endBatch, if_neg (by rw [htimeout]; exact Bool.false_ne_true), nextPhase,
    if_neg (by rw [hstop]; exact Bool.false_ne_true)]

theorem batch_listen (s : Server) : s.Batch [.listen] := by
  refine ⟨Nat.le_of_ble_eq_true rfl, ?_, List.nodup_nil⟩
  intro e he
  obtain rfl := List.mem_singleton.mp he
  trivial

theorem batch_input {s : Server} {fd : Nat} (harmed : s.armed fd = some .input) :
    s.Batch [.client fd .input] := by
  refine ⟨Nat.le_of_ble_eq_true rfl, ?_, List.nodup_singleton _⟩
  intro e he
  obtain rfl := List.mem_singleton.mp he
  exact harmed

/-- A visit: the descriptor is open and not armed behind it, and the request is in
the queue when there was room. -/
theorem exec_visit {n : Nat} {s : Server} (h : Crowded n s) (hn : n < MAX_FD) :
    ∃ s', exec (serverStep (mainConfig [0, 1, 2])) s (visit (n + 3)) = some s' ∧
      Crowded (n + 1) s' ∧ s'.armed (n + 3) = none ∧
      s'.workqueue =
        if 10000 < s.workqueue.length then s.workqueue else s.workqueue ++ [n + 3] := by
  let cfg := mainConfig [0, 1, 2]
  let s₁ := s.deliver [.listen]
  let s₂ := s₁.newConn (n + 3)
  let s₃ : Server := { s₂ with pending := [] }
  let s₄ : Server := { s₃ with phase := .waiting }
  let s₅ := s₄.deliver [.client (n + 3) .input]
  let s₆ := { s₅ with pending := [] }.handleInput cfg (n + 3) true
  let s₇ : Server := { s₆ with phase := .waiting }
  have hclosed : n + 3 ∉ s.fds := by
    rw [h.fds]
    omega
  -- The seven steps.
  have h₁ : serverStep cfg s (.epollWait [.listen]) = some s₁ :=
    if_pos ⟨h.phase, batch_listen s⟩
  have h₂ : serverStep cfg s₁ .accept = some s₂ := by
    have hroom : ¬ (MAX_FD : Int) ≤ s.userCount := by
      rw [h.userCount]
      omega
    show (if (MAX_FD : Int) ≤ s.userCount then some { s₁ with pending := [] }
      else some (s₁.newConn (s.lowestFree cfg))) = some s₂
    rw [if_neg hroom, h.lowestFree]
  have h₃ : serverStep cfg s₂ .acceptFails = some s₃ := rfl
  have h₄ : serverStep cfg s₃ .endBatch = some s₄ :=
    congrArg some (endBatch_quiet h.timeout h.stopServer)
  have harmed₄ : s₄.armed (n + 3) = some .input := by
    show Function.update s₁.armed (n + 3) (some .input) (n + 3) = some .input
    rw [Function.update_self]
  have h₅ : serverStep cfg s₄ (.epollWait [.client (n + 3) .input]) = some s₅ :=
    if_pos ⟨rfl, batch_input harmed₄⟩
  have h₆ : serverStep cfg s₅ (.readOnce true) = some s₆ := rfl
  have hok₆ : SlotsOk s₆ := serverStep_slotsOk (serverStep_slotsOk (serverStep_slotsOk
    (serverStep_slotsOk (serverStep_slotsOk (serverStep_slotsOk h.slots h₁) h₂) h₃) h₄) h₅) h₆
  -- What the read event leaves of the state.
  have hsame : SameSockets { s₅ with
      pending := []
      workqueue := if 10000 < s.workqueue.length then s.workqueue
        else s.workqueue ++ [n + 3] } s₆ := by
    have hrefresh := refresh_same (Server.append cfg { s₅ with pending := [] } (n + 3)).2 (n + 3)
    rw [append_eq] at hrefresh
    show SameSockets _ (((Server.append cfg { s₅ with pending := [] } (n + 3)).2.touch
      (n + 3)).renewTimer (n + 3))
    rw [append_eq]
    exact hrefresh
  have hfds : s₆.fds = s.fds.insert (n + 3) s.nextConn := hsame.fds
  have h₇ : serverStep cfg s₆ .endBatch = some s₇ := by
    have hphase : s₆.phase = .dispatching := hsame.phase hok₆.alive
    have hpending : s₆.pending = [] := hsame.pending
    rw [serverStep, hphase, hpending]
    exact congrArg some (endBatch_quiet (hsame.timeout.trans h.timeout)
      (hsame.stopServer.trans h.stopServer))
  refine ⟨s₇, ?_, ?_, ?_, hsame.workqueue⟩
  · simp only [visit, exec, h₁, h₂, h₃, h₄, h₅, h₆, h₇, cfg]
  · exact
      { slots := serverStep_slotsOk hok₆ h₇
        phase := rfl
        timeout := hsame.timeout.trans h.timeout
        stopServer := hsame.stopServer.trans h.stopServer
        fds := by
          intro fd
          show fd ∈ s₆.fds ↔ 3 ≤ fd ∧ fd < n + 1 + 3
          rw [hfds, AList.mem_insert, h.fds]
          omega
        length := by
          show s₆.fds.keys.length = n + 1
          rw [hfds, Descriptors.length_keys_insert hclosed, h.length]
        userCount := by
          show s₆.userCount = (n + 1 : Nat)
          rw [hsame.userCount]
          show s.userCount + 1 = (n + 1 : Nat)
          rw [h.userCount]
          rfl
        processing := hsame.processing.trans h.processing }
  · show s₆.armed (n + 3) = none
    rw [hsame.armed]
    exact if_pos (List.mem_singleton_self _)

/-- As long as the counter is below `MAX_FD`, every client of a crowd is admitted.  The queue
takes the first 10001 requests. -/
theorem exec_crowd : ∀ n, n ≤ MAX_FD →
    ∃ s, exec (serverStep (mainConfig [0, 1, 2])) startServer (crowd n) = some s ∧
      Crowded n s ∧ s.workqueue.length = min n 10001 ∧ ∀ fd ∈ s.workqueue, fd < n + 3 := by
  intro n
  induction n with
  | zero =>
      intro _
      refine ⟨startServer, rfl, crowded_start, rfl, ?_⟩
      intro fd hfd
      cases hfd
  | succ n ih =>
      intro hn
      obtain ⟨s, hexec, hs, hlen, hbound⟩ := ih (by omega)
      obtain ⟨s', hvisit, hs', -, hqueue⟩ := exec_visit hs (by omega)
      refine ⟨s', exec_append hexec hvisit, hs', ?_, ?_⟩
      · rw [hqueue]
        split
        · omega
        · rw [List.length_append, hlen, List.length_singleton]
          omega
      · intro fd hfd
        have hmem : fd ∈ s.workqueue ++ [n + 3] := by
          rw [hqueue] at hfd
          split at hfd
          · exact List.mem_append_left _ hfd
          · exact hfd
        rcases List.mem_append.mp hmem with hold | hnew
        · have := hbound fd hold
          omega
        · obtain rfl := List.mem_singleton.mp hnew
          omega

/-- With 10001 requests in the queue, the request of one more client is refused:
its descriptor is open, not armed, and its slot is nowhere. -/
theorem crowd_stranded {n : Nat} (hn : n = 10001) :
    ¬ Always (serverStep (mainConfig [0, 1, 2])) NotStranded startServer (crowd (n + 1)) := by
  intro h
  have hlt : n < MAX_FD := by
    show n < 65536
    omega
  obtain ⟨s, hexec, hs, hlen, hbound⟩ := exec_crowd n (by omega)
  obtain ⟨s', hvisit, hs', harmed, hqueue⟩ := exec_visit hs hlt
  rw [if_pos (by omega)] at hqueue
  have hlast := h.last (exec_append hexec hvisit)
  have hopen : n + 3 ∈ s'.fds := (hs'.fds _).mpr ⟨by omega, by omega⟩
  have hrest : s'.phase ≠ .dispatching := by
    rw [hs'.phase]
    decide
  rcases hlast hrest (n + 3) hopen with hne | hmem | hmem
  · exact hne harmed
  · rw [hqueue] at hmem
    exact absurd (hbound _ hmem) (Nat.lt_irrefl _)
  · rw [hs'.processing] at hmem
    cases hmem

/-- The queue of the server that `main` starts does not hold a crowd of 10002. -/
theorem not_always_notStranded_crowd :
    ¬ Always (serverStep (mainConfig [0, 1, 2])) NotStranded startServer (crowd (10001 + 1)) :=
  crowd_stranded rfl

end EasyWebServer.Post
