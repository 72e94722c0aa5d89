import EasyWebServer.Post.TimerSet
import EasyWebServer.Post.Timeouts

/-!
# The timers of the open connections

What every step of the server does to the loop's own variables (`SameLoop`), and two
invariants of the timers that hold whatever workers close.

* `Timed`: the timer in the slot of an open connection counts from the time the connection
  was last active.
* `After s d`: what is in the heap expires later than one `TIMESLOT` before `d`.  A `tick` at
  the time `c` leaves it with `d = c + TIMESLOT`, and every step keeps it while `d` is not
  more than one `TIMESLOT` away.

So when the next `tick` comes at the time `d`, a connection that is open at any time before
has been idle for less than four `TIMESLOT` (`idle_lt`).
-/

namespace EasyWebServer.Post

open Server Transition

/-! ## The variables of the loop -/

/-- The clock and the variables of the loop are the same, and so are the events of the pipe. -/
structure SameLoop (s s' : Server) : Prop where
  clock : s'.clock = s.clock
  phase : s'.phase = s.phase
  timeout : s'.timeout = s.timeout
  stopServer : s'.stopServer = s.stopServer
  signals : s'.pending.count .signal = s.pending.count .signal

namespace SameLoop

theorem refl (s : Server) : SameLoop s s := ⟨rfl, rfl, rfl, rfl, rfl⟩

theorem trans {s₁ s₂ s₃ : Server} (h : SameLoop s₁ s₂) (h' : SameLoop s₂ s₃) :
    SameLoop s₁ s₃ where
  clock := h'.clock.trans h.clock
  phase := h'.phase.trans h.phase
  timeout := h'.timeout.trans h.timeout
  stopServer := h'.stopServer.trans h.stopServer
  signals := h'.signals.trans h.signals

/-- An event that is not one of the pipe is taken. -/
theorem takeEvent {s : Server} {e : Event} {rest : List Event} (hpending : s.pending = e :: rest)
    (he : e ≠ .signal) : SameLoop s { s with pending := rest } where
  clock := rfl
  phase := rfl
  timeout := rfl
  stopServer := rfl
  signals := by
    rw [hpending]
    exact (List.count_cons_of_ne he).symm

theorem arm (s : Server) (fd : Nat) (ev : Interest) : SameLoop s (s.arm fd ev) := by
  rw [Server.arm]
  split
  · exact ⟨rfl, rfl, rfl, rfl, rfl⟩
  · exact refl s

theorem sockOp (fd : Nat) (s : Server) (op : SockOp) : SameLoop s (Server.sockOp fd s op) := by
  rcases op with ev | _
  · rw [Server.sockOp]
    split
    · exact refl s
    · exact arm s _ ev
  · rw [Server.sockOp]
    split
    · exact refl s
    · exact ⟨rfl, rfl, rfl, rfl, rfl⟩

theorem sockOps (s : Server) (fd : Nat) (ops : List SockOp) : SameLoop s (s.sockOps fd ops) := by
  induction ops generalizing s with
  | nil => exact refl s
  | cons op ops ih => exact (sockOp fd s op).trans (ih (Server.sockOp fd s op))

theorem closeEvent {s : Server} (hok : SlotsOk s) {fd : Nat} (htracks : Tracks s fd) :
    SameLoop s (s.closeEvent fd) := by
  obtain ⟨t, timers, -, -, heq⟩ := closeEvent_eq hok.live htracks
  rw [heq]
  exact ⟨rfl, rfl, rfl, rfl, rfl⟩

theorem refresh {s : Server} (hok : SlotsOk s) {fd : Nat} (htracks : Tracks s fd) :
    SameLoop s ((s.touch fd).renewTimer fd) := by
  have htouch : SameLoop s (s.touch fd) := by
    rw [touch]
    split
    · exact refl s
    · exact ⟨rfl, rfl, rfl, rfl, rfl⟩
  obtain ⟨t, u, timers, -, -, -, -, -, -, -, heq⟩ :=
    renewTimer_eq (hok.touch fd).pq_nodup (htracks.touch fd)
  rw [heq]
  exact { htouch with }

theorem append (cfg : Config) (s : Server) (fd : Nat) : SameLoop s (s.append cfg fd).2 := by
  rw [append_eq]
  exact ⟨rfl, rfl, rfl, rfl, rfl⟩

theorem handleInput {s : Server} (hok : SlotsOk s) (cfg : Config) {fd : Nat}
    (htracks : Tracks s fd) (ok : Bool) : SameLoop s (s.handleInput cfg fd ok) := by
  rw [Server.handleInput]
  split
  · have htracks' : Tracks (s.append cfg fd).2 fd := by
      rw [append_eq]
      exact htracks
    exact (append cfg s fd).trans (refresh (hok.append cfg fd) htracks')
  · exact closeEvent hok htracks

theorem handleOutput {s : Server} (hok : SlotsOk s) {fd : Nat} (htracks : Tracks s fd)
    (exit : WriteExit) : SameLoop s (s.handleOutput fd exit) := by
  have hok' := hok.sockOps fd exit.ops
  have htracks' := htracks.writeOps exit
  rw [Server.handleOutput]
  refine (sockOps s fd exit.ops).trans ?_
  show SameLoop _ (if exit.result then _ else _)
  split
  · exact refresh hok' htracks'
  · exact closeEvent hok' htracks'

end SameLoop

/-- The steps that change the clock, or a variable of the loop. -/
def ServerAction.OfLoop : ServerAction → Prop
  | .advance _ | .epollWait _ | .epollFails | .signals _ _ | .endBatch => True
  | _ => False

theorem serverStep_sameLoop {cfg : Config} {s s' : Server} {a : ServerAction} (hok : SlotsOk s)
    (ha : ¬ a.OfLoop) (hstep : serverStep cfg s a = some s') : SameLoop s s' := by
  rcases serverStep_inv hstep with _ | _ | _ | ⟨rest, hpending, -⟩ | _ |
    ⟨rest, hpending⟩ | _ | ⟨rest, fd, hpending⟩ | ⟨rest, fd, ok, hpending⟩ |
    ⟨rest, fd, exit, hpending⟩ | _ | _ | ⟨fd, code, writeRet, -⟩
  case refuse => exact .takeEvent hpending (by decide)
  case newConn => exact ⟨rfl, rfl, rfl, rfl, rfl⟩
  case acceptFails => exact .takeEvent hpending (by decide)
  case hangup =>
    exact (SameLoop.takeEvent hpending (by simp)).trans
      (.closeEvent (hok.takeEvent hpending) (hok.takeEvent_client hpending).1)
  case input =>
    exact (SameLoop.takeEvent hpending (by simp)).trans
      (.handleInput (hok.takeEvent hpending) cfg (hok.takeEvent_client hpending).1 ok)
  case output =>
    exact (SameLoop.takeEvent hpending (by simp)).trans
      (.handleOutput (hok.takeEvent hpending) (hok.takeEvent_client hpending).1 exit)
  case take => exact ⟨rfl, rfl, rfl, rfl, rfl⟩
  case process =>
    have herase : SameLoop s { s with processing := s.processing.erase fd } :=
      ⟨rfl, rfl, rfl, rfl, rfl⟩
    exact herase.trans (.sockOps _ fd _)
  all_goals exact absurd trivial ha

/-- Behind a batch, the loop goes on or stops, and `timeout` is false. -/
theorem endBatch_loop {s : Server} (hok : SlotsOk s) (hpending : s.pending = []) :
    s.endBatch.clock = s.clock ∧ s.endBatch.phase = s.nextPhase ∧
      s.endBatch.pending = [] ∧ s.endBatch.timeout = false ∧
      s.endBatch.stopServer = s.stopServer := by
  rw [endBatch]
  split
  · have hset : SlotsOk { s with phase := s.nextPhase, timeout := false } :=
      { hok with
        pending_phase := fun _ => hpending
        alive := by
          show (if s.stopServer then ServerPhase.stopped else .waiting) ≠ .crashed
          split <;> decide }
    refine (@tickLoop_rule (fun s' => s'.clock = s.clock ∧ s'.phase = s.nextPhase ∧
      s'.pending = [] ∧ s'.timeout = false ∧ s'.stopServer = s.stopServer) s.clock
      (fun _ _ _ _ _ hinv _ _ _ _ _ => hinv) _ _ hset rfl hpending ?_).2
    exact ⟨rfl, rfl, hpending, rfl, rfl⟩
  · rename_i htimeout
    exact ⟨rfl, rfl, hpending, Bool.eq_false_iff.mpr htimeout, rfl⟩

/-! ## The timer of an open connection -/

/-- The timer of an open connection counts from the time it was last active. -/
structure Timed (s : Server) : Prop where
  expire : ∀ fd c t u, s.fds.lookup fd = some c → (s.slots fd).timer = some t →
    s.timers.objs t = some u → u.expire = s.lastActive c + 3 * TIMESLOT
  conn_lt : ∀ fd c, s.fds.lookup fd = some c → c < s.nextConn
  conn_inj : ∀ fd g c, s.fds.lookup fd = some c → s.fds.lookup g = some c → fd = g

theorem startServer_timed : Timed startServer where
  expire := by
    intro fd c t u hc
    cases hc
  conn_lt := by
    intro fd c hc
    cases hc
  conn_inj := by
    intro fd g c hc
    cases hc

namespace Timed

/-- A step that closes a descriptor, or none, and leaves the timers of the others alone. -/
theorem restrict {s s' : Server} (h : Timed s)
    (hfds : ∀ fd c, s'.fds.lookup fd = some c → s.fds.lookup fd = some c)
    (hslots : ∀ fd, (s'.slots fd).timer = (s.slots fd).timer)
    (hobjs : ∀ t u, s'.timers.objs t = some u → s.timers.objs t = some u)
    (hactive : s'.lastActive = s.lastActive) (hnext : s'.nextConn = s.nextConn) : Timed s' where
  expire := by
    intro fd c t u hc ht hu
    rw [hactive]
    rw [hslots] at ht
    exact h.expire fd c t u (hfds fd c hc) ht (hobjs t u hu)
  conn_lt := by
    intro fd c hc
    rw [hnext]
    exact h.conn_lt fd c (hfds fd c hc)
  conn_inj := by
    intro fd g c hc hg
    exact h.conn_inj fd g c (hfds fd c hc) (hfds g c hg)

theorem arm {s : Server} (h : Timed s) (fd : Nat) (ev : Interest) : Timed (s.arm fd ev) := by
  rw [Server.arm]
  split
  · exact { h with }
  · exact h

theorem closeEvent {s : Server} (h : Timed s) (hok : SlotsOk s) {fd : Nat}
    (htracks : Tracks s fd) : Timed (s.closeEvent fd) := by
  obtain ⟨t, timers, -, hdel, heq⟩ := closeEvent_eq hok.live htracks
  rw [heq]
  refine h.restrict ?_ (fun _ => rfl) ?_ rfl rfl
  · exact fun g c hc => (lookup_erase_some hc).2
  · intro t' u' hu'
    change timers.objs t' = some u' at hu'
    rw [(HeapTimer.delTimer_spec hdel).2.1] at hu'
    exact hu'

theorem expireTop {s : Server} (h : Timed s) (hok : SlotsOk s) {t : Nat} {rest : List Nat}
    {u : UtilTimer} (hpq : s.timers.pq = t :: rest) (hu : s.timers.objs t = some u) :
    Timed (s.expireTop t u) := by
  obtain ⟨hfds, -, -, -⟩ := hok.expireTop_fields hpq hu
  refine h.restrict ?_ (fun _ => rfl) ?_ rfl rfl
  · intro g c hc
    rw [hfds] at hc
    exact (lookup_erase_some hc).2
  · intro t' u' hu'
    change Function.update s.timers.objs t none t' = some u' at hu'
    by_cases ht : t' = t
    · rw [ht, Function.update_self] at hu'
      cases hu'
    · rwa [Function.update_of_ne ht] at hu'

/-- The timer of the slot and the time of its connection move together, and no other slot has
this timer. -/
theorem refresh {s : Server} (h : Timed s) (hok : SlotsOk s) {fd : Nat}
    (htracks : Tracks s fd) : Timed ((s.touch fd).renewTimer fd) := by
  obtain ⟨t, u, timers, htimer, -, hu, hud, -, hobjs, -, heq⟩ :=
    renewTimer_eq (hok.touch fd).pq_nodup (htracks.touch fd)
  have htouch : (s.touch fd).fds = s.fds ∧ (s.touch fd).nextConn = s.nextConn ∧
      (s.touch fd).clock = s.clock := by
    rw [touch]
    split <;> exact ⟨rfl, rfl, rfl⟩
  obtain ⟨hfds, hnext, hclock⟩ := htouch
  rw [touch_slots] at htimer
  rw [touch_timers] at hobjs hu
  have hself : ∀ c, s.fds.lookup fd = some c → (s.touch fd).lastActive c = s.clock := by
    intro c hc
    rw [touch, hc]
    exact Function.update_self c s.clock s.lastActive
  have hother : ∀ g c, s.fds.lookup g = some c → g ≠ fd →
      (s.touch fd).lastActive c = s.lastActive c := by
    intro g c hc hg
    rw [touch]
    split
    · rfl
    · rename_i c' hc'
      refine Function.update_of_ne ?_ s.clock s.lastActive
      rintro rfl
      exact hg (h.conn_inj g fd c hc hc')
  rw [heq]
  exact {
    expire := by
      intro g c t' u' hc ht' hu'
      change (s.touch fd).fds.lookup g = some c at hc
      change ((s.touch fd).slots g).timer = some t' at ht'
      change timers.objs t' = some u' at hu'
      show u'.expire = (s.touch fd).lastActive c + 3 * TIMESLOT
      rw [hfds] at hc
      rw [touch_slots] at ht'
      rw [hobjs] at hu'
      by_cases hg : g = fd
      · subst hg
        rw [htimer] at ht'
        cases ht'
        rw [Function.update_self] at hu'
        cases hu'
        show (s.touch g).clock + 3 * TIMESLOT = _
        rw [hself c hc, hclock]
      · -- The timer of another open connection has another slot.
        have hopen : g ∈ s.fds := AList.lookup_isSome.mp (by rw [hc]; rfl)
        obtain ⟨t₂, u₂, ht₂, -, hu₂, hud₂⟩ := hok.tracks g (.inl hopen)
        rw [ht'] at ht₂
        cases ht₂
        have hne : t' ≠ t := by
          rintro rfl
          rw [hu] at hu₂
          cases hu₂
          exact hg (hud₂.symm.trans hud)
        rw [Function.update_of_ne hne] at hu'
        rw [hother g c hc hg]
        exact h.expire g c t' u' hc ht' hu'
    conn_lt := by
      intro g c hc
      change (s.touch fd).fds.lookup g = some c at hc
      show c < (s.touch fd).nextConn
      rw [hfds] at hc
      rw [hnext]
      exact h.conn_lt g c hc
    conn_inj := by
      intro g g' c hc hc'
      change (s.touch fd).fds.lookup g = some c at hc
      change (s.touch fd).fds.lookup g' = some c at hc'
      rw [hfds] at hc hc'
      exact h.conn_inj g g' c hc hc' }

theorem newConn {s : Server} (h : Timed s) (hok : SlotsOk s) {connfd : Nat}
    (hclosed : connfd ∉ s.fds) : Timed (s.newConn connfd) := by
  have hcases : ∀ {fd c}, (s.newConn connfd).fds.lookup fd = some c →
      (fd = connfd ∧ c = s.nextConn) ∨ (fd ≠ connfd ∧ s.fds.lookup fd = some c) := by
    intro fd c hc
    change (s.fds.insert connfd s.nextConn).lookup fd = some c at hc
    by_cases hfd : fd = connfd
    · rw [hfd, AList.lookup_insert] at hc
      exact .inl ⟨hfd, (Option.some.inj hc).symm⟩
    · rw [AList.lookup_insert_ne hfd] at hc
      exact .inr ⟨hfd, hc⟩
  exact {
    expire := by
      intro fd c t u hc ht hu
      change (Function.update s.slots connfd _ fd).timer = some t at ht
      change Function.update s.timers.objs s.timers.next _ t = some u at hu
      show u.expire = Function.update s.lastActive s.nextConn s.clock c + 3 * TIMESLOT
      rcases hcases hc with ⟨rfl, rfl⟩ | ⟨hfd, hold⟩
      · rw [Function.update_self] at ht
        cases ht
        rw [Function.update_self] at hu
        cases hu
        rw [Function.update_self]
      · rw [Function.update_of_ne hfd] at ht
        have hopen : fd ∈ s.fds := AList.lookup_isSome.mp (by rw [hold]; rfl)
        obtain ⟨t₂, -, ht₂, hmem, -, -⟩ := hok.tracks fd (.inl hopen)
        rw [ht] at ht₂
        cases ht₂
        rw [Function.update_of_ne (hok.fresh t hmem).ne] at hu
        rw [Function.update_of_ne (h.conn_lt fd c hold).ne]
        exact h.expire fd c t u hold ht hu
    conn_lt := by
      intro fd c hc
      show c < s.nextConn + 1
      rcases hcases hc with ⟨-, rfl⟩ | ⟨-, hold⟩
      · exact Nat.lt_succ_self _
      · exact Nat.lt_succ_of_lt (h.conn_lt fd c hold)
    conn_inj := by
      intro fd g c hfd hg
      rcases hcases hfd with ⟨rfl, rfl⟩ | ⟨-, hold⟩
      · rcases hcases hg with ⟨rfl, -⟩ | ⟨-, hold'⟩
        · rfl
        · exact absurd rfl (h.conn_lt g _ hold').ne
      · rcases hcases hg with ⟨-, rfl⟩ | ⟨-, hold'⟩
        · exact absurd rfl (h.conn_lt fd _ hold).ne
        · exact h.conn_inj fd g c hold hold' }

/-- `close_conn` leaves the timer in the slot. -/
theorem closeConn {s : Server} (h : Timed s) (fd : Nat) : Timed (s.closeConn fd fd) := by
  refine h.restrict ?_ ?_ (fun _ _ hu => hu) rfl rfl
  · exact fun g c hc => (lookup_erase_some hc).2
  · intro g
    show (Function.update s.slots fd { s.slots fd with sockfd := none } g).timer = _
    by_cases hg : g = fd
    · rw [hg, Function.update_self]
    · rw [Function.update_of_ne hg]

theorem handleInput {s : Server} (h : Timed s) (hok : SlotsOk s) (cfg : Config) {fd : Nat}
    (htracks : Tracks s fd) (ok : Bool) : Timed (s.handleInput cfg fd ok) := by
  rw [Server.handleInput]
  split
  · have happend : Timed (s.append cfg fd).2 ∧ Tracks (s.append cfg fd).2 fd := by
      rw [append_eq]
      exact ⟨{ h with }, htracks⟩
    exact happend.1.refresh (hok.append cfg fd) happend.2
  · exact h.closeEvent hok htracks

theorem handleOutput {s : Server} (h : Timed s) (hok : SlotsOk s) {fd : Nat}
    (htracks : Tracks s fd) (exit : WriteExit) : Timed (s.handleOutput fd exit) := by
  have hops : Timed (s.sockOps fd exit.ops) := writeOps_rule fd exit h (fun g ev _ => h.arm g ev)
  have htracks' := htracks.writeOps exit
  rw [Server.handleOutput]
  show Timed (if exit.result then _ else _)
  split
  · exact hops.refresh (hok.sockOps fd exit.ops) htracks'
  · exact hops.closeEvent (hok.sockOps fd exit.ops) htracks'

end Timed

theorem serverStep_timed {cfg : Config} {s s' : Server} {a : ServerAction} (hok : SlotsOk s)
    (h : Timed s) (hstep : serverStep cfg s a = some s') : Timed s' := by
  rcases serverStep_inv hstep with _ | _ | _ | _ | _ | _ | _ | ⟨rest, fd, hpending⟩ |
    ⟨rest, fd, ok, hpending⟩ | ⟨rest, fd, exit, hpending⟩ | ⟨_, hpending⟩ | _ |
    ⟨fd, code, writeRet, -⟩
  case newConn => exact h.newConn hok (lowestFree_not_open cfg s)
  case hangup =>
    have h' : Timed { s with pending := rest } := { h with }
    exact h'.closeEvent (hok.takeEvent hpending) (hok.takeEvent_client hpending).1
  case input =>
    have h' : Timed { s with pending := rest } := { h with }
    exact h'.handleInput (hok.takeEvent hpending) cfg (hok.takeEvent_client hpending).1 ok
  case output =>
    have h' : Timed { s with pending := rest } := { h with }
    exact h'.handleOutput (hok.takeEvent hpending) (hok.takeEvent_client hpending).1 exit
  case endBatch =>
    refine (endBatch_rule Timed hok hpending h (fun _ _ _ h' => { h' with }) ?_).2
    intro s₁ t rest u hok₁ h₁ _ _ hpq hu _
    exact h₁.expireTop hok₁ hpq hu
  case process =>
    have h' : Timed { s with processing := s.processing.erase fd } := { h with }
    rcases processOps_eq (s := { s with processing := s.processing.erase fd }) (hok.sockfd fd) code
      writeRet with ⟨-, heq⟩ | ⟨ev, heq⟩ | ⟨-, -, heq⟩
    · rw [heq]
      exact h'
    · rw [heq]
      exact h'.arm fd ev
    · rw [heq]
      exact h'.closeConn fd
  all_goals exact { h with }

/-! ## What is in the heap is due after the next tick, or shortly before it -/

/-- No timer in the heap is due a whole `TIMESLOT` before `d`. -/
def After (s : Server) (d : Nat) : Prop :=
  ∀ t ∈ s.timers.pq, ∀ u, s.timers.objs t = some u → d < u.expire + TIMESLOT

namespace After

/-- A step that puts no timer into the heap, and moves none. -/
theorem restrict {s s' : Server} {d : Nat} (h : After s d)
    (hpq : ∀ t, t ∈ s'.timers.pq → t ∈ s.timers.pq)
    (hobjs : ∀ t u, s'.timers.objs t = some u → s.timers.objs t = some u) : After s' d :=
  fun t ht u hu => h t (hpq t ht) u (hobjs t u hu)

theorem of_timers {s s' : Server} {d : Nat} (h : After s d) (htimers : s'.timers = s.timers) :
    After s' d := by
  rw [After, htimers]
  exact h

theorem closeEvent {s : Server} {d : Nat} (h : After s d) (hok : SlotsOk s) {fd : Nat}
    (htracks : Tracks s fd) : After (s.closeEvent fd) d := by
  obtain ⟨t, timers, -, hdel, heq⟩ := closeEvent_eq hok.live htracks
  rw [heq]
  refine h.restrict ?_ ?_
  · exact fun t' ht' => ((HeapTimer.mem_delTimer hdel t').mp ht').1
  · intro t' u' hu'
    change timers.objs t' = some u' at hu'
    rw [(HeapTimer.delTimer_spec hdel).2.1] at hu'
    exact hu'

theorem refresh {s : Server} {d : Nat} (h : After s d) (hok : SlotsOk s)
    (hd : d ≤ s.clock + TIMESLOT) {fd : Nat} (htracks : Tracks s fd) :
    After ((s.touch fd).renewTimer fd) d := by
  have hclock : (s.touch fd).clock = s.clock := by
    rw [touch]
    split <;> rfl
  obtain ⟨t, u, timers, -, -, -, -, hperm, hobjs, -, heq⟩ :=
    renewTimer_eq (hok.touch fd).pq_nodup (htracks.touch fd)
  rw [heq]
  intro t' ht' u' hu'
  rw [touch_timers] at hperm hobjs
  change timers.objs t' = some u' at hu'
  rw [hobjs] at hu'
  by_cases ht : t' = t
  · rw [ht, Function.update_self] at hu'
    cases hu'
    show d < (s.touch fd).clock + 3 * TIMESLOT + TIMESLOT
    rw [hclock, TIMESLOT]
    rw [TIMESLOT] at hd
    omega
  · rw [Function.update_of_ne ht] at hu'
    exact h t' (hperm.subset ht') u' hu'

theorem newConn {s : Server} {d : Nat} (h : After s d) (hok : SlotsOk s)
    (hd : d ≤ s.clock + TIMESLOT) (connfd : Nat) : After (s.newConn connfd) d := by
  have hpq : (s.newConn connfd).timers.pq.Perm (s.timers.next :: s.timers.pq) :=
    HeapTimer.addTimer_pq _ _
  intro t ht u hu
  change Function.update s.timers.objs s.timers.next _ t = some u at hu
  rcases List.mem_cons.mp (hpq.subset ht) with rfl | hmem
  · rw [Function.update_self] at hu
    cases hu
    show d < s.clock + 3 * TIMESLOT + TIMESLOT
    rw [TIMESLOT] at hd ⊢
    omega
  · rw [Function.update_of_ne (hok.fresh t hmem).ne] at hu
    exact h t hmem u hu

theorem handleInput {s : Server} {d : Nat} (h : After s d) (hok : SlotsOk s)
    (hd : d ≤ s.clock + TIMESLOT) (cfg : Config) {fd : Nat} (htracks : Tracks s fd) (ok : Bool) :
    After (s.handleInput cfg fd ok) d := by
  rw [Server.handleInput]
  split
  · have happend : After (s.append cfg fd).2 d ∧ Tracks (s.append cfg fd).2 fd ∧
        d ≤ (s.append cfg fd).2.clock + TIMESLOT := by
      rw [append_eq]
      exact ⟨h, htracks, hd⟩
    exact happend.1.refresh (hok.append cfg fd) happend.2.2 happend.2.1
  · exact h.closeEvent hok htracks

theorem handleOutput {s : Server} {d : Nat} (h : After s d) (hok : SlotsOk s)
    (hd : d ≤ s.clock + TIMESLOT) {fd : Nat} (htracks : Tracks s fd) (exit : WriteExit) :
    After (s.handleOutput fd exit) d := by
  have hops : After (s.sockOps fd exit.ops) d := h.of_timers (writeOps_frame s fd exit).2.1
  have hclock := (SameLoop.sockOps s fd exit.ops).clock
  have htracks' := htracks.writeOps exit
  rw [Server.handleOutput]
  show After (if exit.result then _ else _) d
  split
  · exact hops.refresh (hok.sockOps fd exit.ops) (hclock.symm ▸ hd) htracks'
  · exact hops.closeEvent (hok.sockOps fd exit.ops) htracks'

end After

theorem serverStep_after {cfg : Config} {s s' : Server} {a : ServerAction} {d : Nat}
    (hok : SlotsOk s) (h : After s d) (hd : d ≤ s.clock + TIMESLOT)
    (hstep : serverStep cfg s a = some s') : After s' d := by
  rcases serverStep_inv hstep with _ | _ | _ | _ | _ | _ | _ | ⟨rest, fd, hpending⟩ |
    ⟨rest, fd, ok, hpending⟩ | ⟨rest, fd, exit, hpending⟩ | ⟨_, hpending⟩ | _ |
    ⟨fd, code, writeRet, -⟩
  case newConn => exact h.newConn hok hd _
  case hangup =>
    have h' : After { s with pending := rest } d := h
    exact h'.closeEvent (hok.takeEvent hpending) (hok.takeEvent_client hpending).1
  case input =>
    have h' : After { s with pending := rest } d := h
    exact h'.handleInput (hok.takeEvent hpending) hd cfg (hok.takeEvent_client hpending).1 ok
  case output =>
    have h' : After { s with pending := rest } d := h
    exact h'.handleOutput (hok.takeEvent hpending) hd (hok.takeEvent_client hpending).1 exit
  case endBatch =>
    refine (endBatch_rule (After · d) hok hpending h (fun _ _ _ h' => h') ?_).2
    intro s₁ t rest u hok₁ h₁ _ _ hpq hu _
    obtain ⟨-, -, hperm, -⟩ := hok₁.expireTop_fields hpq hu
    refine h₁.restrict ?_ ?_
    · intro t' ht'
      rw [hpq]
      exact List.mem_cons_of_mem t (hperm.subset ht')
    · intro t' u' hu'
      change Function.update s₁.timers.objs t none t' = some u' at hu'
      by_cases ht : t' = t
      · rw [ht, Function.update_self] at hu'
        cases hu'
      · rwa [Function.update_of_ne ht] at hu'
  case process =>
    have h' : After { s with processing := s.processing.erase fd } d := h
    rcases processOps_eq (s := { s with processing := s.processing.erase fd }) (hok.sockfd fd) code
      writeRet with ⟨-, heq⟩ | ⟨ev, heq⟩ | ⟨-, -, heq⟩
    · rw [heq]
      exact h'
    · rw [heq]
      exact h'.of_timers (arm_frame _ fd ev).2.1
    · rw [heq]
      exact h'
  all_goals exact h

/-- `tick` leaves only what is not due. -/
theorem endBatch_after {s : Server} (hok : SlotsOk s) (hhold : TimersHold s)
    (hpending : s.pending = []) (htimeout : s.timeout = true) :
    After s.endBatch (s.clock + TIMESLOT) := by
  have hset : SlotsOk { s with phase := s.nextPhase, timeout := false } :=
    { hok with
      pending_phase := fun _ => hpending
      alive := by
        show (if s.stopServer then ServerPhase.stopped else .waiting) ≠ .crashed
        split <;> decide }
  obtain ⟨m, hm⟩ := hhold
  obtain ⟨m', hstep, hm'⟩ := HeapHolds.tickLoop s.clock s.timers.pq.length hm (Nat.le_refl _)
  have htimers : s.endBatch.timers = (s.timers.tick s.clock).2 := by
    rw [endBatch, if_pos htimeout]
    exact tick_timers hset hpending
  intro t ht u hu
  rw [htimers, HeapTimer.tick] at ht hu
  obtain ⟨e, he⟩ := Option.ne_none_iff_exists'.mp ((hm'.mem t).mp ht)
  obtain ⟨v, hv, hve⟩ := hm'.live t e he
  rw [hu] at hv
  cases hv
  rcases hstep with _ | _ | _ | ⟨_, _, _, -, -, -, -, hlater⟩
  have hlt := hlater t e he
  omega

/-- When the next `tick` comes at the time `d`, no open connection is idle for four
`TIMESLOT` before that. -/
theorem idle_lt {s : Server} (hok : SlotsOk s) (h : Timed s) {d : Nat} (hafter : After s d)
    (hd : s.clock < d) {fd c : Nat} (hc : s.fds.lookup fd = some c) :
    s.clock < s.lastActive c + 4 * TIMESLOT := by
  have hopen : fd ∈ s.fds := AList.lookup_isSome.mp (by rw [hc]; rfl)
  obtain ⟨t, u, htimer, ht, hu, -⟩ := hok.tracks fd (.inl hopen)
  have hexpire := h.expire fd c t u hc htimer hu
  have hlater := hafter t ht u hu
  rw [TIMESLOT] at *
  omega

end EasyWebServer.Post
