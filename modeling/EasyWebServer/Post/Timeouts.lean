import EasyWebServer.Post.Slots

/-!
# Timers and the connection count

A connection is closed by the main loop after an event, by `tick`, and by a
worker in `close_conn`.  The first two take its timer out of the heap; the third
leaves it there, where it outlives the connection.

`Owned` is the invariant of the runs in which no worker closes an open
descriptor: every timer in the heap is the timer of an open connection, the one
it was created for, and `expire` counts from the last time it was active.  So
`tick` calls `cb_func` for idle connections only (`TicksOk`), and when workers do
not close at all, `m_user_count` is the number of open connections (`CountOk`).
-/

namespace EasyWebServer.Post

open Server Transition

/-! ## What tick and the counter owe -/

/-- Every timer that `tick` has called back for: its descriptor was open, for the
connection that it was created for, which had not been active for three slots. -/
def TicksOk (s : Server) : Prop :=
  ∀ c ∈ s.calls, c.owner = some c.conn ∧ 3 * TIMESLOT ≤ c.idle

/-- `m_user_count` is the number of client descriptors that are open. -/
def CountOk (s : Server) : Prop := s.userCount = s.fds.keys.length

/-- The step is not a `process` that calls `close_conn` while its descriptor is
open. -/
def ClosesNoOpen (s : Server) : ServerAction → Prop
  | .process fd code writeRet =>
      closes code writeRet = true → ∀ g ∈ (s.slots fd).sockfd, g ∉ s.fds
  | _ => True

/-- The step is not a `process` that calls `close_conn`. -/
def NoCloseConn (_ : Server) : ServerAction → Prop
  | .process _ code writeRet => closes code writeRet = false
  | _ => True

instance (s : Server) : ∀ a : ServerAction, Decidable (ClosesNoOpen s a)
  | .process _ _ _ => inferInstanceAs (Decidable (_ → ∀ _ ∈ _, _))
  | .advance _ | .epollWait _ | .epollFails | .accept | .acceptFails | .signals _ _
  | .hangup | .readOnce _ | .write _ | .endBatch | .take => .isTrue trivial

instance (s : Server) : ∀ a : ServerAction, Decidable (NoCloseConn s a)
  | .process _ _ _ => inferInstanceAs (Decidable (_ = _))
  | .advance _ | .epollWait _ | .epollFails | .accept | .acceptFails | .signals _ _
  | .hangup | .readOnce _ | .write _ | .endBatch | .take => .isTrue trivial

theorem NoCloseConn.closesNoOpen {s : Server} {a : ServerAction} (h : NoCloseConn s a) :
    ClosesNoOpen s a := by
  rcases a with _ | _ | _ | _ | _ | _ | _ | _ | _ | _ | _ | ⟨fd, code, writeRet⟩
  case process =>
    intro hcloses
    rw [show closes code writeRet = false from h] at hcloses
    cases hcloses
  all_goals trivial

/-! ## The invariant -/

/-- Every timer in the heap belongs to an open connection. -/
structure Owned (s : Server) : Prop where
  owner : ∀ t ∈ s.timers.pq, ∀ u, s.timers.objs t = some u →
    s.fds.lookup u.userData = some u.conn ∧ (s.slots u.userData).timer = some t ∧
      u.expire = s.lastActive u.conn + 3 * TIMESLOT
  pending_open : ∀ fd ∈ s.pendingFds, fd ∈ s.fds
  conn_lt : ∀ fd c, s.fds.lookup fd = some c → c < s.nextConn
  conn_inj : ∀ fd g c, s.fds.lookup fd = some c → s.fds.lookup g = some c → fd = g
  ticks : TicksOk s

theorem startServer_owned : Owned startServer where
  owner := by
    intro t ht
    cases ht
  pending_open := by
    intro fd hfd
    cases hfd
  conn_lt := by
    intro fd c hc
    cases hc
  conn_inj := by
    intro fd g c hc
    cases hc
  ticks := by
    intro c hc
    cases hc

theorem lookup_erase_some {fds : AList (fun _ : Nat => Nat)} {a b c : Nat}
    (h : (fds.erase a).lookup b = some c) : b ≠ a ∧ fds.lookup b = some c := by
  by_cases hb : b = a
  · rw [hb, AList.lookup_erase] at h
    cases h
  · rw [AList.lookup_erase_ne hb] at h
    exact ⟨hb, h⟩

namespace Owned

theorem arm {s : Server} (h : Owned s) (fd : Nat) (ev : Interest) : Owned (s.arm fd ev) := by
  rw [Server.arm]
  split
  · exact { h with }
  · exact h

theorem takeEvent {s : Server} (h : Owned s) {e : Event} {rest : List Event}
    (hpending : s.pending = e :: rest) : Owned { s with pending := rest } :=
  { h with
    pending_open := by
      intro fd hfd
      apply h.pending_open fd
      rw [pendingFds, hpending]
      exact ((List.sublist_cons_self e rest).filterMap Event.fd?).subset hfd }

theorem takeEvent_open {s : Server} (h : Owned s) {fd : Nat} {kind : EventKind}
    {rest : List Event} (hpending : s.pending = .client fd kind :: rest) : fd ∈ s.fds := by
  apply h.pending_open fd
  rw [pendingFds, hpending]
  exact List.mem_cons_self

/-- A closed descriptor and its timer leave together. -/
theorem remove {s s' : Server} (h : Owned s) (fd t : Nat)
    (htimer : ∀ t' u', t' ∈ s.timers.pq → s.timers.objs t' = some u' → u'.userData = fd → t' = t)
    (hpq : ∀ t', t' ∈ s'.timers.pq → t' ∈ s.timers.pq ∧ t' ≠ t)
    (hobjs : ∀ t', t' ∈ s'.timers.pq → s'.timers.objs t' = s.timers.objs t')
    (hfds : s'.fds = s.fds.erase fd) (hslots : s'.slots = s.slots)
    (hactive : s'.lastActive = s.lastActive) (hnext : s'.nextConn = s.nextConn)
    (hpending : ∀ g ∈ s'.pendingFds, g ∈ s.pendingFds ∧ g ≠ fd) (hticks : TicksOk s') :
    Owned s' where
  owner := by
    intro t' ht' u' hu'
    obtain ⟨hmem, hne⟩ := hpq t' ht'
    rw [hobjs t' ht'] at hu'
    obtain ⟨hlookup, hslot, hexpire⟩ := h.owner t' hmem u' hu'
    have hud : u'.userData ≠ fd := fun heq => hne (htimer t' u' hmem hu' heq)
    rw [hfds, hslots, hactive, AList.lookup_erase_ne hud]
    exact ⟨hlookup, hslot, hexpire⟩
  pending_open := by
    intro g hg
    obtain ⟨hmem, hne⟩ := hpending g hg
    rw [hfds]
    exact AList.mem_erase.mpr ⟨hne, h.pending_open g hmem⟩
  conn_lt := by
    intro g c hc
    rw [hfds] at hc
    rw [hnext]
    exact h.conn_lt g c (lookup_erase_some hc).2
  conn_inj := by
    intro g g' c hg hg'
    rw [hfds] at hg hg'
    exact h.conn_inj g g' c (lookup_erase_some hg).2 (lookup_erase_some hg').2
  ticks := hticks

/-- Two timers in the heap have different slots. -/
theorem timer_unique {s : Server} (h : Owned s) {t t' : Nat} {u u' : UtilTimer}
    (ht : t ∈ s.timers.pq) (hu : s.timers.objs t = some u) (ht' : t' ∈ s.timers.pq)
    (hu' : s.timers.objs t' = some u') (hud : u'.userData = u.userData) : t' = t := by
  have hslot := (h.owner t ht u hu).2.1
  have hslot' := (h.owner t' ht' u' hu').2.1
  rw [hud, hslot] at hslot'
  exact (Option.some.inj hslot').symm

theorem closeEvent {s : Server} (h : Owned s) (hok : SlotsOk s) {fd : Nat}
    (htracks : Tracks s fd) (hfd : fd ∉ s.pendingFds) : Owned (s.closeEvent fd) := by
  obtain ⟨t, timers, htimer, hdel, heq⟩ := closeEvent_eq hok.live htracks
  obtain ⟨t₀, u, ht₀, ht, hu, hud⟩ := htracks
  rw [htimer] at ht₀
  cases ht₀
  have hobjs := (HeapTimer.delTimer_spec hdel).2.1
  rw [heq]
  apply h.remove fd t
  · intro t' u' ht' hu' hud'
    exact h.timer_unique ht hu ht' hu' (hud'.trans hud.symm)
  · exact fun t' ht' => (HeapTimer.mem_delTimer hdel t').mp ht'
  · exact fun t' _ => congrFun hobjs t'
  · rfl
  · rfl
  · rfl
  · rfl
  · exact fun g hg => ⟨hg, fun hgfd => hfd (hgfd ▸ hg)⟩
  · exact h.ticks

/-- A round of `tick` calls back for the connection of the timer on top. -/
theorem expireTop {s : Server} (h : Owned s) (hok : SlotsOk s) {t : Nat} {rest : List Nat}
    {u : UtilTimer} (hpq : s.timers.pq = t :: rest) (hu : s.timers.objs t = some u)
    (hpending : s.pending = []) (hdue : u.expire ≤ s.clock) : Owned (s.expireTop t u) := by
  obtain ⟨hfds, -, hperm, hcalls⟩ := hok.expireTop_fields hpq hu
  have ht : t ∈ s.timers.pq := by
    rw [hpq]
    exact List.mem_cons_self
  have hnodup := hok.pq_nodup
  rw [hpq] at hnodup
  have hrest : ∀ t', t' ∈ (s.expireTop t u).timers.pq → t' ∈ s.timers.pq ∧ t' ≠ t := by
    intro t' ht'
    have hmem := hperm.subset ht'
    rw [hpq]
    exact ⟨List.mem_cons_of_mem t hmem, fun heq => (List.nodup_cons.mp hnodup).1 (heq ▸ hmem)⟩
  obtain ⟨hlookup, -, hexpire⟩ := h.owner t ht u hu
  apply h.remove u.userData t
  · exact fun t' u' ht' hu' hud' => h.timer_unique ht hu ht' hu' hud'
  · exact hrest
  · intro t' ht'
    show Function.update s.timers.objs t none t' = s.timers.objs t'
    exact Function.update_of_ne (hrest t' ht').2 none s.timers.objs
  · exact hfds
  · rfl
  · rfl
  · rfl
  · intro g hg
    change g ∈ s.pendingFds at hg
    rw [pendingFds, hpending] at hg
    cases hg
  · intro c hc
    rw [hcalls] at hc
    rcases List.mem_append.mp hc with hc | hc
    · exact h.ticks c hc
    · obtain rfl := List.mem_singleton.mp hc
      refine ⟨hlookup, ?_⟩
      show 3 * TIMESLOT ≤ s.clock - s.lastActive u.conn
      omega

/-- The timer of a connection moves with the time it was last active. -/
theorem refresh {s : Server} (h : Owned s) (hok : SlotsOk s) {fd : Nat}
    (htracks : Tracks s fd) (hopen : fd ∈ s.fds) : Owned ((s.touch fd).renewTimer fd) := by
  obtain ⟨c, hc⟩ := Option.isSome_iff_exists.mp (AList.lookup_isSome.mpr hopen)
  have htouch : s.touch fd =
      { s with lastActive := Function.update s.lastActive c s.clock } := by
    rw [touch, hc]
  have htracks' : Tracks (s.touch fd) fd := by
    rw [htouch]
    exact htracks
  obtain ⟨t, u, timers, htimer, ht, hu, hud, hperm, hobjs, -, heq⟩ :=
    renewTimer_eq (hok.touch fd).pq_nodup htracks'
  rw [heq, htouch]
  rw [htouch] at htimer ht hu hperm hobjs
  have hconn : u.conn = c := by
    have hlookup := (h.owner t ht u hu).1
    rw [hud, hc] at hlookup
    exact (Option.some.inj hlookup).symm
  exact { h with
    owner := by
      intro t' ht' u' hu'
      show s.fds.lookup u'.userData = some u'.conn ∧ (s.slots u'.userData).timer = some t' ∧
        u'.expire = Function.update s.lastActive c s.clock u'.conn + 3 * TIMESLOT
      have hmem : t' ∈ s.timers.pq := hperm.subset ht'
      change timers.objs t' = some u' at hu'
      rw [hobjs] at hu'
      by_cases htt : t' = t
      · rw [htt, Function.update_self] at hu'
        cases hu'
        obtain ⟨hlookup, hslot, -⟩ := h.owner t ht u hu
        rw [htt]
        refine ⟨hlookup, hslot, ?_⟩
        show s.clock + 3 * TIMESLOT = _
        rw [hconn, Function.update_self]
      · rw [Function.update_of_ne htt] at hu'
        obtain ⟨hlookup, hslot, hexpire⟩ := h.owner t' hmem u' hu'
        have hne : u'.conn ≠ c := by
          intro hcc
          rw [hcc] at hlookup
          have hud' := h.conn_inj _ _ _ hlookup hc
          exact htt (h.timer_unique ht hu hmem hu' (hud'.trans hud.symm))
        rw [Function.update_of_ne hne]
        exact ⟨hlookup, hslot, hexpire⟩ }

/-- A new connection has a timer of its own. -/
theorem newConn {s : Server} (h : Owned s) (hok : SlotsOk s) {connfd : Nat}
    (hclosed : connfd ∉ s.fds) : Owned (s.newConn connfd) := by
  have hpq : (s.newConn connfd).timers.pq.Perm (s.timers.next :: s.timers.pq) :=
    HeapTimer.addTimer_pq _ _
  have hlookup_ne : ∀ {fd}, fd ≠ connfd →
      (s.newConn connfd).fds.lookup fd = s.fds.lookup fd :=
    fun hne => AList.lookup_insert_ne hne
  have hlookup_self : (s.newConn connfd).fds.lookup connfd = some s.nextConn :=
    AList.lookup_insert s.fds
  have hcases : ∀ {fd c}, (s.newConn connfd).fds.lookup fd = some c →
      (fd = connfd ∧ c = s.nextConn) ∨ (fd ≠ connfd ∧ s.fds.lookup fd = some c) := by
    intro fd c hc
    by_cases hfd : fd = connfd
    · rw [hfd, hlookup_self] at hc
      exact .inl ⟨hfd, (Option.some.inj hc).symm⟩
    · rw [hlookup_ne hfd] at hc
      exact .inr ⟨hfd, hc⟩
  exact
  { h with
    owner := by
      intro t ht u hu
      change Function.update s.timers.objs s.timers.next _ t = some u at hu
      show (s.newConn connfd).fds.lookup u.userData = some u.conn ∧
        (Function.update s.slots connfd _ u.userData).timer = some t ∧
        u.expire = Function.update s.lastActive s.nextConn s.clock u.conn + 3 * TIMESLOT
      rcases List.mem_cons.mp (hpq.subset ht) with rfl | hmem
      · rw [Function.update_self] at hu
        cases hu
        refine ⟨hlookup_self, ?_, ?_⟩
        · show (Function.update s.slots connfd _ connfd).timer = some s.timers.next
          rw [Function.update_self]
        · show s.clock + 3 * TIMESLOT =
            Function.update s.lastActive s.nextConn s.clock s.nextConn + 3 * TIMESLOT
          rw [Function.update_self]
      · rw [Function.update_of_ne (hok.fresh t hmem).ne] at hu
        obtain ⟨hlookup, hslot, hexpire⟩ := h.owner t hmem u hu
        have hne : u.userData ≠ connfd := by
          intro heq
          rw [heq] at hlookup
          exact hclosed (AList.lookup_isSome.mp (by rw [hlookup]; rfl))
        have hconn : u.conn ≠ s.nextConn := (h.conn_lt _ _ hlookup).ne
        rw [hlookup_ne hne, Function.update_of_ne hne, Function.update_of_ne hconn]
        exact ⟨hlookup, hslot, hexpire⟩
    pending_open := by
      intro fd hfd
      exact (AList.mem_insert _).mpr (.inr (h.pending_open fd hfd))
    conn_lt := by
      intro fd c hc
      show c < s.nextConn + 1
      rcases hcases hc with ⟨-, rfl⟩ | ⟨-, hold⟩
      · exact Nat.lt_succ_self _
      · exact Nat.lt_succ_of_lt (h.conn_lt fd c hold)
    conn_inj := by
      intro fd g c hfd hg
      rcases hcases hfd with ⟨rfl, rfl⟩ | ⟨-, hold⟩
      · rcases hcases hg with ⟨rfl, -⟩ | ⟨-, hold'⟩
        · rfl
        · exact absurd rfl (h.conn_lt g _ hold').ne
      · rcases hcases hg with ⟨-, rfl⟩ | ⟨-, hold'⟩
        · exact absurd rfl (h.conn_lt fd _ hold).ne
        · exact h.conn_inj fd g c hold hold' }

/-- A `close_conn` on a descriptor that is not open leaves the timers as they
are. -/
theorem closeConn {s : Server} (h : Owned s) {fd : Nat} (hclosed : fd ∉ s.fds) :
    Owned (s.closeConn fd fd) := by
  have hfds : (s.closeConn fd fd).fds = s.fds.erase fd := rfl
  have hlookup : ∀ g, (s.fds.erase fd).lookup g = s.fds.lookup g := by
    intro g
    by_cases hg : g = fd
    · rw [hg, AList.lookup_erase, AList.lookup_eq_none.mpr hclosed]
    · exact AList.lookup_erase_ne hg
  exact
  { h with
    owner := by
      intro t ht u hu
      rw [hfds, hlookup]
      obtain ⟨hown, hslot, hexpire⟩ := h.owner t ht u hu
      refine ⟨hown, ?_, hexpire⟩
      show (Function.update s.slots fd { s.slots fd with sockfd := none } u.userData).timer = _
      by_cases hud : u.userData = fd
      · rw [hud, Function.update_self]
        rw [hud] at hslot
        exact hslot
      · rw [Function.update_of_ne hud]
        exact hslot
    pending_open := by
      intro g hg
      have hopen := h.pending_open g hg
      rw [hfds]
      exact AList.mem_erase.mpr ⟨fun heq => hclosed (heq ▸ hopen), hopen⟩
    conn_lt := by
      intro g c hc
      rw [hfds, hlookup] at hc
      exact h.conn_lt g c hc
    conn_inj := by
      intro g g' c hg hg'
      rw [hfds, hlookup] at hg hg'
      exact h.conn_inj g g' c hg hg' }

theorem handleInput {s : Server} (h : Owned s) (hok : SlotsOk s) (cfg : Config) {fd : Nat}
    (htracks : Tracks s fd) (hopen : fd ∈ s.fds) (hfd : fd ∉ s.pendingFds) (ok : Bool) :
    Owned (s.handleInput cfg fd ok) := by
  rw [Server.handleInput]
  split
  · have happend : Owned (s.append cfg fd).2 ∧ Tracks (s.append cfg fd).2 fd ∧
        fd ∈ (s.append cfg fd).2.fds := by
      rw [append_eq]
      exact ⟨{ h with }, htracks, hopen⟩
    exact happend.1.refresh (hok.append cfg fd) happend.2.1 happend.2.2
  · exact h.closeEvent hok htracks hfd

theorem handleOutput {s : Server} (h : Owned s) (hok : SlotsOk s) {fd : Nat}
    (htracks : Tracks s fd) (hopen : fd ∈ s.fds) (hfd : fd ∉ s.pendingFds) (exit : WriteExit) :
    Owned (s.handleOutput fd exit) := by
  have hops : Owned (s.sockOps fd exit.ops) := writeOps_rule fd exit h (fun g ev _ => h.arm g ev)
  have htracks' := htracks.writeOps exit
  rw [Server.handleOutput]
  show Owned (if exit.result then _ else _)
  split
  · apply hops.refresh (hok.sockOps fd exit.ops) htracks'
    rw [writeOps_fds]
    exact hopen
  · apply hops.closeEvent (hok.sockOps fd exit.ops) htracks'
    rw [writeOps_pendingFds]
    exact hfd

end Owned

/-! ## Every callback is for an idle connection -/

theorem serverStep_owned {cfg : Config} {s s' : Server} {a : ServerAction} (hok : SlotsOk s)
    (h : Owned s) (hguard : ClosesNoOpen s a) (hstep : serverStep cfg s a = some s') :
    Owned s' := by
  rcases serverStep_inv hstep with _ | ⟨events, -, hbatch⟩ | _ | ⟨rest, hpending, -⟩ | _ |
    ⟨rest, hpending⟩ | ⟨rest, _, _, hpending⟩ | ⟨rest, fd, hpending⟩ |
    ⟨rest, fd, ok, hpending⟩ | ⟨rest, fd, exit, hpending⟩ | ⟨_, hpending⟩ | _ |
    ⟨fd, code, writeRet, -⟩
  case advance => exact { h with }
  case epollWait => exact { h with pending_open := hok.reported_open hbatch }
  case epollFails => exact { h with }
  case refuse => exact h.takeEvent hpending
  case newConn => exact h.newConn hok (lowestFree_not_open cfg s)
  case acceptFails => exact h.takeEvent hpending
  case signals => exact { h.takeEvent hpending with }
  case hangup =>
    obtain ⟨htracks, hfd⟩ := hok.takeEvent_client hpending
    exact (h.takeEvent hpending).closeEvent (hok.takeEvent hpending) htracks hfd
  case input =>
    obtain ⟨htracks, hfd⟩ := hok.takeEvent_client hpending
    exact (h.takeEvent hpending).handleInput (hok.takeEvent hpending) cfg htracks
      (h.takeEvent_open hpending) hfd ok
  case output =>
    obtain ⟨htracks, hfd⟩ := hok.takeEvent_client hpending
    exact (h.takeEvent hpending).handleOutput (hok.takeEvent hpending) htracks
      (h.takeEvent_open hpending) hfd exit
  case endBatch =>
    apply (endBatch_rule Owned hok hpending h (fun _ _ _ h' => { h' with }) ?_).2
    intro s₁ t rest u hok₁ h₁ hclock hpend hpq hu hdue
    exact h₁.expireTop hok₁ hpq hu hpend (hclock ▸ hdue)
  case take => exact { h with }
  case process =>
    have h' : Owned { s with processing := s.processing.erase fd } := { h with }
    have hsock : ∀ g, (s.slots fd).sockfd = some g → g = fd := hok.sockfd fd
    rcases processOps_eq (s := { s with processing := s.processing.erase fd }) hsock code
      writeRet with ⟨-, heq⟩ | ⟨ev, heq⟩ | ⟨hcloses, hfd, heq⟩
    · rw [heq]
      exact h'
    · rw [heq]
      exact h'.arm fd ev
    · rw [heq]
      exact h'.closeConn (hguard hcloses fd hfd)

/-- In a run in which no worker closes a descriptor that is still open, `tick`
calls `cb_func` only for a timer whose descriptor is open, for the connection that
the timer was created for, which has not been active for three slots. -/
theorem always_ticksOk (cfg : Config) (as : List ServerAction)
    (hguard : AllSteps (serverStep cfg) ClosesNoOpen startServer as) :
    Always (serverStep cfg) TicksOk startServer as := by
  apply always_of_invariant (fun s => SlotsOk s ∧ Owned s) ClosesNoOpen
  · rintro s a s' ⟨hok, h⟩ hg hstep
    exact ⟨serverStep_slotsOk hok hstep, serverStep_owned hok h hg hstep⟩
  · exact fun s h => h.2.ticks
  · exact ⟨startServer_slotsOk, startServer_owned⟩
  · exact hguard

/-- A connection that sends a request which arrives in two parts, and is idle
until its timer expires. -/
theorem always_ticksOk_idle :
    Always (serverStep (mainConfig [0, 1, 2])) TicksOk startServer
      [.epollWait [.listen], .accept, .acceptFails, .endBatch,
        .epollWait [.client 3 .input], .readOnce true, .endBatch, .take,
        .process 3 .noRequest false, .advance 15, .epollWait [.signal],
        .signals true false, .endBatch] :=
  always_ticksOk (mainConfig [0, 1, 2])
    [.epollWait [.listen], .accept, .acceptFails, .endBatch,
      .epollWait [.client 3 .input], .readOnce true, .endBatch, .take,
      .process 3 .noRequest false, .advance 15, .epollWait [.signal],
      .signals true false, .endBatch] (by decide)

/-- A worker closes the first connection, because the file is not there.  A second
one takes its descriptor, and one second later `tick` closes it for the timer of
the first. -/
theorem not_always_ticksOk_reused :
    ¬ Always (serverStep (mainConfig [0, 1, 2])) TicksOk startServer
      [.epollWait [.listen], .accept, .acceptFails, .endBatch,
        .epollWait [.client 3 .input], .readOnce true, .endBatch, .take,
        .process 3 .noResource false, .advance 14,
        .epollWait [.listen], .accept, .acceptFails, .endBatch, .advance 1,
        .epollWait [.signal], .signals true false, .endBatch] := by
  intro h
  obtain ⟨s, hcalls, hticks⟩ :=
    h.exists_last (fun s : Server => s.calls = [⟨0, some 1, 15⟩]) (by decide)
  have hcall := hticks ⟨0, some 1, 15⟩ (by
    rw [hcalls]
    exact List.mem_singleton_self _)
  exact absurd hcall.1 (by decide)

/-! ## The counter is the number of open connections -/

namespace CountOk

/-- An open descriptor is closed, and the counter goes down. -/
theorem remove {s s' : Server} (h : CountOk s) {fd : Nat} (hopen : fd ∈ s.fds)
    (hfds : s'.fds = s.fds.erase fd) (hcount : s'.userCount = s.userCount - 1) :
    CountOk s' := by
  show s'.userCount = s'.fds.keys.length
  have hlen := Descriptors.length_keys_erase hopen
  rw [hfds, hcount, show s.userCount = s.fds.keys.length from h]
  omega

theorem of_eq {s s' : Server} (h : CountOk s) (hfds : s'.fds = s.fds)
    (hcount : s'.userCount = s.userCount) : CountOk s' := by
  show s'.userCount = s'.fds.keys.length
  rw [hfds, hcount]
  exact h

theorem newConn {s : Server} (h : CountOk s) {connfd : Nat} (hclosed : connfd ∉ s.fds) :
    CountOk (s.newConn connfd) := by
  show s.userCount + 1 = (s.fds.insert connfd s.nextConn).keys.length
  rw [Descriptors.length_keys_insert hclosed, show s.userCount = s.fds.keys.length from h]
  push_cast
  rfl

theorem closeEvent {s : Server} (h : CountOk s) (hok : SlotsOk s) {fd : Nat}
    (htracks : Tracks s fd) (hopen : fd ∈ s.fds) : CountOk (s.closeEvent fd) := by
  obtain ⟨t, timers, -, -, heq⟩ := closeEvent_eq hok.live htracks
  rw [heq]
  exact h.remove hopen rfl rfl

theorem refresh {s : Server} (h : CountOk s) (fd : Nat) :
    CountOk ((s.touch fd).renewTimer fd) :=
  h.of_eq (refresh_same s fd).fds (refresh_same s fd).userCount

theorem arm {s : Server} (h : CountOk s) (fd : Nat) (ev : Interest) : CountOk (s.arm fd ev) := by
  rw [Server.arm]
  split
  · exact h
  · exact h

theorem handleInput {s : Server} (h : CountOk s) (hok : SlotsOk s) (cfg : Config) {fd : Nat}
    (htracks : Tracks s fd) (hopen : fd ∈ s.fds) (ok : Bool) :
    CountOk (s.handleInput cfg fd ok) := by
  rw [Server.handleInput]
  split
  · have happend : CountOk (s.append cfg fd).2 := by
      rw [append_eq]
      exact h
    exact happend.refresh fd
  · exact h.closeEvent hok htracks hopen

theorem handleOutput {s : Server} (h : CountOk s) (hok : SlotsOk s) {fd : Nat}
    (htracks : Tracks s fd) (hopen : fd ∈ s.fds) (exit : WriteExit) :
    CountOk (s.handleOutput fd exit) := by
  have hops : CountOk (s.sockOps fd exit.ops) :=
    writeOps_rule fd exit h (fun g ev _ => h.arm g ev)
  rw [Server.handleOutput]
  show CountOk (if exit.result then _ else _)
  split
  · exact hops.refresh fd
  · apply hops.closeEvent (hok.sockOps fd exit.ops) (htracks.writeOps exit)
    rw [writeOps_fds]
    exact hopen

end CountOk

theorem serverStep_countOk {cfg : Config} {s s' : Server} {a : ServerAction} (hok : SlotsOk s)
    (hown : Owned s) (h : CountOk s) (hguard : NoCloseConn s a)
    (hstep : serverStep cfg s a = some s') : CountOk s' := by
  rcases serverStep_inv hstep with _ | _ | _ | _ | _ | _ | _ | ⟨rest, fd, hpending⟩ |
    ⟨rest, fd, ok, hpending⟩ | ⟨rest, fd, exit, hpending⟩ | ⟨_, hpending⟩ | _ |
    ⟨fd, code, writeRet, -⟩
  case advance => exact h
  case epollWait => exact h
  case epollFails => exact h
  case refuse => exact h
  case newConn => exact h.newConn (lowestFree_not_open cfg s)
  case acceptFails => exact h
  case signals => exact h
  case hangup =>
    exact CountOk.closeEvent (s := { s with pending := rest }) h (hok.takeEvent hpending)
      (hok.takeEvent_client hpending).1 (hown.takeEvent_open hpending)
  case input =>
    exact CountOk.handleInput (s := { s with pending := rest }) h (hok.takeEvent hpending) cfg
      (hok.takeEvent_client hpending).1 (hown.takeEvent_open hpending) ok
  case output =>
    exact CountOk.handleOutput (s := { s with pending := rest }) h (hok.takeEvent hpending)
      (hok.takeEvent_client hpending).1 (hown.takeEvent_open hpending) exit
  case endBatch =>
    have hboth := endBatch_rule (fun s => Owned s ∧ CountOk s) hok hpending ⟨hown, h⟩
      (fun _ _ _ h' => ⟨{ h'.1 with }, h'.2⟩) (by
        rintro s₁ t rest u hok₁ ⟨hown₁, h₁⟩ hclock hpend hpq hu hdue
        refine ⟨hown₁.expireTop hok₁ hpq hu hpend (hclock ▸ hdue), ?_⟩
        -- The timer on top belongs to an open connection.
        have ht : t ∈ s₁.timers.pq := by
          rw [hpq]
          exact List.mem_cons_self
        have hlookup := (hown₁.owner t ht u hu).1
        have hopen : u.userData ∈ s₁.fds := AList.lookup_isSome.mp (by rw [hlookup]; rfl)
        exact h₁.remove hopen (hok₁.expireTop_fields hpq hu).1 rfl)
    exact hboth.2.2
  case take => exact h
  case process =>
    have hsock : ∀ g, (s.slots fd).sockfd = some g → g = fd := hok.sockfd fd
    rcases processOps_eq (s := { s with processing := s.processing.erase fd }) hsock code
      writeRet with ⟨-, heq⟩ | ⟨ev, heq⟩ | ⟨hcloses, -, -⟩
    · rw [heq]
      exact h
    · rw [heq]
      exact CountOk.arm (s := { s with processing := s.processing.erase fd }) h fd ev
    · rw [show closes code writeRet = false from hguard] at hcloses
      cases hcloses

/-- In a run in which no worker calls `close_conn`, `m_user_count` is the number
of client descriptors that are open, in every state. -/
theorem always_countOk (cfg : Config) (as : List ServerAction)
    (hguard : AllSteps (serverStep cfg) NoCloseConn startServer as) :
    Always (serverStep cfg) CountOk startServer as := by
  apply always_of_invariant (fun s => SlotsOk s ∧ Owned s ∧ CountOk s) NoCloseConn
  · rintro s a s' ⟨hok, hown, h⟩ hg hstep
    exact ⟨serverStep_slotsOk hok hstep, serverStep_owned hok hown hg.closesNoOpen hstep,
      serverStep_countOk hok hown h hg hstep⟩
  · exact fun s h => h.2.2
  · exact ⟨startServer_slotsOk, startServer_owned, rfl⟩
  · exact hguard

/-- A request that is answered, and whose connection is closed when the response
is sent. -/
theorem always_countOk_answered :
    Always (serverStep (mainConfig [0, 1, 2])) CountOk startServer
      [.epollWait [.listen], .accept, .acceptFails, .endBatch,
        .epollWait [.client 3 .input], .readOnce true, .endBatch, .take,
        .process 3 .fileRequest true, .epollWait [.client 3 .output], .write .close,
        .endBatch] :=
  always_countOk (mainConfig [0, 1, 2])
    [.epollWait [.listen], .accept, .acceptFails, .endBatch,
      .epollWait [.client 3 .input], .readOnce true, .endBatch, .take,
      .process 3 .fileRequest true, .epollWait [.client 3 .output], .write .close,
      .endBatch] (by decide)

/-- A worker closes the connection, because the file is not there, and `tick`
counts it again fifteen seconds later. -/
theorem not_always_countOk_twice :
    ¬ Always (serverStep (mainConfig [0, 1, 2])) CountOk startServer
      [.epollWait [.listen], .accept, .acceptFails, .endBatch,
        .epollWait [.client 3 .input], .readOnce true, .endBatch, .take,
        .process 3 .noResource false, .advance 15, .epollWait [.signal],
        .signals true false, .endBatch] := by
  intro h
  obtain ⟨s, ⟨hminus, hnone⟩, hcount⟩ :=
    h.exists_last (fun s : Server => s.userCount = -1 ∧ s.fds.keys.length = 0)
      (by decide)
  rw [CountOk, hminus, hnone] at hcount
  exact absurd hcount (by decide)

end EasyWebServer.Post
