import EasyWebServer.Lib.Descriptors
import EasyWebServer.Post.Server

/-!
# Slots, descriptors and timers

`serverStep_inv` gives the cases of a step.  `SlotsOk` is the invariant that
every step keeps, whatever sockets and handlers answer:

* `m_sockfd` of a slot is the index of the slot or `-1`, and the former when the
  descriptor is open;
* epoll is armed for open descriptors only;
* the timers in the heap are live, each once, and their `client_data` names the
  descriptor of its slot;
* a descriptor that is open, or has an event in the batch, has its timer in the
  heap (`Tracks`).

So the main loop never uses a dead timer, and `del_timer` never runs on an empty
heap.
-/

namespace EasyWebServer.Post

open Server Transition

/-! ## The cases of a step -/

/-- What a step does. -/
inductive ServerMove (cfg : Config) (s : Server) : ServerAction → Server → Prop where
  | advance (seconds : Nat) :
      ServerMove cfg s (.advance seconds) { s with clock := s.clock + seconds }
  | epollWait (events : List Event) (hphase : s.phase = .waiting) (hbatch : s.Batch events) :
      ServerMove cfg s (.epollWait events) (s.deliver events)
  | epollFails (hphase : s.phase = .waiting) :
      ServerMove cfg s .epollFails { s with phase := .stopped }
  | refuse (rest : List Event) (hpending : s.pending = .listen :: rest)
      (hfull : (MAX_FD : Int) ≤ s.userCount) :
      ServerMove cfg s .accept { s with pending := rest }
  | newConn (rest : List Event) (hpending : s.pending = .listen :: rest)
      (hroom : s.userCount < MAX_FD) :
      ServerMove cfg s .accept (s.newConn (s.lowestFree cfg))
  | acceptFails (rest : List Event) (hpending : s.pending = .listen :: rest) :
      ServerMove cfg s .acceptFails { s with pending := rest }
  | signals (rest : List Event) (alarm term : Bool) (hpending : s.pending = .signal :: rest) :
      ServerMove cfg s (.signals alarm term)
        { s with
          pending := rest
          timeout := s.timeout || alarm
          stopServer := s.stopServer || term }
  | hangup (rest : List Event) (fd : Nat) (hpending : s.pending = .client fd .hangup :: rest) :
      ServerMove cfg s .hangup ({ s with pending := rest }.closeEvent fd)
  | input (rest : List Event) (fd : Nat) (ok : Bool)
      (hpending : s.pending = .client fd .input :: rest) :
      ServerMove cfg s (.readOnce ok) ({ s with pending := rest }.handleInput cfg fd ok)
  | output (rest : List Event) (fd : Nat) (exit : WriteExit)
      (hpending : s.pending = .client fd .output :: rest) :
      ServerMove cfg s (.write exit) ({ s with pending := rest }.handleOutput fd exit)
  | endBatch (hphase : s.phase = .dispatching) (hpending : s.pending = []) :
      ServerMove cfg s .endBatch s.endBatch
  | take (rest : List Nat) (fd : Nat) (hqueue : s.workqueue = fd :: rest) :
      ServerMove cfg s .take { s with workqueue := rest, processing := s.processing ++ [fd] }
  | process (fd : Nat) (code : HttpCode) (writeRet : Bool) (hmem : fd ∈ s.processing) :
      ServerMove cfg s (.process fd code writeRet)
        ({ s with processing := s.processing.erase fd }.sockOps fd (processOps code writeRet))

theorem serverStep_inv {cfg : Config} {s s' : Server} {a : ServerAction}
    (h : serverStep cfg s a = some s') : ServerMove cfg s a s' := by
  rcases a with _ | _ | _ | _ | _ | ⟨alarm, term⟩ | _ | ok | exit | _ | _ | ⟨fd, code, ret⟩
  case advance seconds =>
    cases h
    exact .advance seconds
  case epollWait events =>
    rw [serverStep] at h
    split at h
    · rename_i hc
      cases h
      exact .epollWait events hc.1 hc.2
    · cases h
  case epollFails =>
    rw [serverStep] at h
    split at h
    · rename_i hc
      cases h
      exact .epollFails hc
    · cases h
  case accept =>
    rw [serverStep] at h
    split at h
    · rename_i rest _ hpending
      split at h
      · rename_i hfull
        cases h
        exact .refuse rest hpending hfull
      · rename_i hroom
        cases h
        exact .newConn rest hpending (by omega)
    · cases h
  case acceptFails =>
    rw [serverStep] at h
    split at h
    · rename_i rest _ hpending
      cases h
      exact .acceptFails rest hpending
    · cases h
  case signals =>
    rw [serverStep] at h
    split at h
    · rename_i rest _ hpending
      cases h
      exact .signals rest alarm term hpending
    · cases h
  case hangup =>
    rw [serverStep] at h
    split at h
    · rename_i fd rest _ hpending
      cases h
      exact .hangup rest fd hpending
    · cases h
  case readOnce =>
    rw [serverStep] at h
    split at h
    · rename_i fd rest _ hpending
      cases h
      exact .input rest fd ok hpending
    · cases h
  case write =>
    rw [serverStep] at h
    split at h
    · rename_i fd rest _ hpending
      cases h
      exact .output rest fd exit hpending
    · cases h
  case endBatch =>
    rw [serverStep] at h
    split at h
    · rename_i hphase hpending
      cases h
      exact .endBatch hphase hpending
    · cases h
  case take =>
    rw [serverStep] at h
    split at h
    · cases h
    · rename_i fd rest hqueue
      split at h
      · cases h
        exact .take rest fd hqueue
      · cases h
  case process =>
    rw [serverStep] at h
    split at h
    · rename_i hc
      cases h
      exact .process fd code ret hc.2
    · cases h

/-! ## The lowest free descriptor -/

theorem lowestFree_eq (cfg : Config) (s : Server) :
    s.lowestFree cfg = Descriptors.lowest (s.usedFds cfg) := rfl

/-- `accept` returns a descriptor that is not in use. -/
theorem lowestFree_not_mem (cfg : Config) (s : Server) : s.lowestFree cfg ∉ s.usedFds cfg :=
  (Descriptors.lowest_spec _).1

theorem lowestFree_not_open (cfg : Config) (s : Server) : s.lowestFree cfg ∉ s.fds := by
  have h := lowestFree_not_mem cfg s
  rw [usedFds, List.mem_append] at h
  exact fun hmem => h (.inr (AList.mem_keys.mp hmem))

/-! ## The invariant -/

/-- The timer of the slot is in the heap, and is the timer of this slot. -/
def Tracks (s : Server) (fd : Nat) : Prop :=
  ∃ t u, (s.slots fd).timer = some t ∧ t ∈ s.timers.pq ∧ s.timers.objs t = some u ∧
    u.userData = fd

/-- What holds in every state. -/
structure SlotsOk (s : Server) : Prop where
  sockfd : ∀ fd g, (s.slots fd).sockfd = some g → g = fd
  open_sockfd : ∀ fd ∈ s.fds, (s.slots fd).sockfd = some fd
  armed_open : ∀ fd, s.armed fd ≠ none → fd ∈ s.fds
  pq_nodup : s.timers.pq.Nodup
  live : ∀ t ∈ s.timers.pq, ∃ u, s.timers.objs t = some u ∧
    (s.slots u.userData).timerSockfd = u.userData
  fresh : ∀ t ∈ s.timers.pq, t < s.timers.next
  tracks : ∀ fd, fd ∈ s.fds ∨ fd ∈ s.pendingFds → Tracks s fd
  pending_nodup : s.pendingFds.Nodup
  pending_phase : s.phase ≠ .dispatching → s.pending = []
  alive : s.phase ≠ .crashed

theorem startServer_slotsOk : SlotsOk startServer where
  sockfd := by
    intro fd g h
    cases h
  open_sockfd := by
    intro fd h
    exact absurd h (AList.notMem_empty fd)
  armed_open := by
    intro fd h
    exact absurd rfl h
  pq_nodup := List.nodup_nil
  live := by
    intro t ht
    cases ht
  fresh := by
    intro t ht
    cases ht
  tracks := by
    rintro fd (h | h)
    · exact absurd h (AList.notMem_empty fd)
    · cases h
  pending_nodup := List.nodup_nil
  pending_phase := fun _ => rfl
  alive := by
    show ServerPhase.waiting ≠ .crashed
    decide

/-! ## What the operations do -/

@[simp] theorem mem_close (s : Server) (g fd : Nat) :
    fd ∈ (s.close g).fds ↔ fd ≠ g ∧ fd ∈ s.fds := AList.mem_erase

theorem close_armed (s : Server) (g fd : Nat) :
    (s.close g).armed fd = if fd = g then none else s.armed fd := by
  by_cases h : fd = g
  · rw [if_pos h, h]
    exact Function.update_self g none s.armed
  · rw [if_neg h]
    exact Function.update_of_ne h none s.armed

theorem arm_fds (s : Server) (g : Nat) (ev : Interest) : (s.arm g ev).fds = s.fds := by
  rw [arm]
  split <;> rfl

theorem arm_armed (s : Server) (g : Nat) (ev : Interest) (fd : Nat) :
    (s.arm g ev).armed fd = if fd = g ∧ g ∈ s.fds then some ev else s.armed fd := by
  rw [arm]
  split
  · rename_i hopen
    by_cases hfd : fd = g
    · rw [if_pos ⟨hfd, hopen⟩, hfd]
      exact Function.update_self g (some ev) s.armed
    · rw [if_neg (fun hc => hfd hc.1)]
      exact Function.update_of_ne hfd (some ev) s.armed
  · rename_i hclosed
    rw [if_neg (fun hc => hclosed hc.2)]

theorem arm_frame (s : Server) (g : Nat) (ev : Interest) :
    (s.arm g ev).slots = s.slots ∧ (s.arm g ev).timers = s.timers ∧
      (s.arm g ev).pending = s.pending := by
  rw [arm]
  split <;> exact ⟨rfl, rfl, rfl⟩

@[simp] theorem touch_slots (s : Server) (fd : Nat) : (s.touch fd).slots = s.slots := by
  rw [touch]
  split <;> rfl

@[simp] theorem touch_timers (s : Server) (fd : Nat) : (s.touch fd).timers = s.timers := by
  rw [touch]
  split <;> rfl

theorem append_eq (cfg : Config) (s : Server) (fd : Nat) :
    (s.append cfg fd).2 = { s with
      workqueue := if cfg.maxRequests < s.workqueue.length then s.workqueue
        else s.workqueue ++ [fd] } := by
  rw [append]
  by_cases hfull : cfg.maxRequests < s.workqueue.length
  · rw [if_pos hfull, if_pos hfull]
  · rw [if_neg hfull, if_neg hfull]

/-- `write` arms the descriptor, unless it fails or the slot has none. -/
theorem writeOps_eq (s : Server) (fd : Nat) (exit : WriteExit) :
    ((exit = .error ∨ (s.slots fd).sockfd = none) ∧ s.sockOps fd exit.ops = s) ∨
      ∃ g ev, (s.slots fd).sockfd = some g ∧ s.sockOps fd exit.ops = s.arm g ev := by
  have hmod : ∀ ev, ((s.slots fd).sockfd = none ∧ s.sockOps fd [.modfd ev] = s) ∨
      ∃ g ev', (s.slots fd).sockfd = some g ∧ s.sockOps fd [.modfd ev] = s.arm g ev' := by
    intro ev
    show (_ ∧ sockOp fd s (.modfd ev) = s) ∨
      ∃ g ev', (s.slots fd).sockfd = some g ∧ sockOp fd s (.modfd ev) = s.arm g ev'
    rw [sockOp]
    split
    · rename_i hnone
      exact .inl ⟨hnone, rfl⟩
    · rename_i g hg
      exact .inr ⟨g, ev, hg, rfl⟩
  rcases exit with _ | _ | _ | _ | _
  · exact (hmod .input).imp_left (fun h => ⟨.inr h.1, h.2⟩)
  · exact (hmod .output).imp_left (fun h => ⟨.inr h.1, h.2⟩)
  · exact .inl ⟨.inl rfl, rfl⟩
  · exact (hmod .input).imp_left (fun h => ⟨.inr h.1, h.2⟩)
  · exact (hmod .input).imp_left (fun h => ⟨.inr h.1, h.2⟩)

/-- The rule for the calls of `write`: they keep what arming a descriptor keeps. -/
theorem writeOps_rule {P : Server → Prop} {s : Server} (fd : Nat) (exit : WriteExit) (h : P s)
    (harm : ∀ g ev, (s.slots fd).sockfd = some g → P (s.arm g ev)) :
    P (s.sockOps fd exit.ops) := by
  rcases writeOps_eq s fd exit with ⟨-, heq⟩ | ⟨g, ev, hg, heq⟩
  · rw [heq]
    exact h
  · rw [heq]
    exact harm g ev hg

theorem writeOps_frame (s : Server) (fd : Nat) (exit : WriteExit) :
    (s.sockOps fd exit.ops).slots = s.slots ∧ (s.sockOps fd exit.ops).timers = s.timers ∧
      (s.sockOps fd exit.ops).pending = s.pending :=
  writeOps_rule (P := fun s' => s'.slots = s.slots ∧ s'.timers = s.timers ∧
    s'.pending = s.pending) fd exit ⟨rfl, rfl, rfl⟩ (fun g ev _ => arm_frame s g ev)

theorem writeOps_fds (s : Server) (fd : Nat) (exit : WriteExit) :
    (s.sockOps fd exit.ops).fds = s.fds :=
  writeOps_rule (P := fun s' => s'.fds = s.fds) fd exit rfl (fun g ev _ => arm_fds s g ev)

theorem writeOps_pendingFds (s : Server) (fd : Nat) (exit : WriteExit) :
    (s.sockOps fd exit.ops).pendingFds = s.pendingFds := by
  rw [pendingFds, (writeOps_frame s fd exit).2.2, pendingFds]

theorem Tracks.writeOps {s : Server} {fd : Nat} (h : Tracks s fd) (exit : WriteExit) :
    Tracks (s.sockOps fd exit.ops) fd := by
  obtain ⟨hslots, htimers, -⟩ := writeOps_frame s fd exit
  rw [Tracks, hslots, htimers]
  exact h

theorem Tracks.touch {s : Server} {fd : Nat} (h : Tracks s fd) (g : Nat) :
    Tracks (s.touch g) fd := by
  rw [Tracks, touch_slots, touch_timers]
  exact h

/-- The two calls of a slot whose `m_sockfd` is its index or `-1`. -/
theorem sockOp_eq {s : Server} {fd : Nat} (hok : ∀ g, (s.slots fd).sockfd = some g → g = fd)
    (op : SockOp) :
    ((s.slots fd).sockfd = none ∧ sockOp fd s op = s) ∨
      (∃ ev, op = .modfd ev ∧ sockOp fd s op = s.arm fd ev) ∨
      (op = .closeConn ∧ (s.slots fd).sockfd = some fd ∧ sockOp fd s op = s.closeConn fd fd) := by
  rcases hsock : (s.slots fd).sockfd with _ | g
  · refine .inl ⟨rfl, ?_⟩
    rcases op with ev | _
    · rw [sockOp, hsock]
    · rw [sockOp, hsock]
  · have hg := hok g hsock
    subst hg
    rcases op with ev | _
    · exact .inr (.inl ⟨ev, rfl, by rw [sockOp, hsock]⟩)
    · exact .inr (.inr ⟨rfl, rfl, by rw [sockOp, hsock]⟩)

/-- The two states agree on the descriptors, on what epoll is armed for, and on
what waits to be handled. -/
structure SameSockets (s s' : Server) : Prop where
  fds : s'.fds = s.fds
  armed : s'.armed = s.armed
  workqueue : s'.workqueue = s.workqueue
  processing : s'.processing = s.processing
  pending : s'.pending = s.pending
  userCount : s'.userCount = s.userCount
  timeout : s'.timeout = s.timeout
  stopServer : s'.stopServer = s.stopServer
  phase : s'.phase ≠ .crashed → s'.phase = s.phase

/-- After a read or a write that succeeded, only the timer and the time of the
connection change. -/
theorem refresh_same (s : Server) (fd : Nat) :
    SameSockets s ((s.touch fd).renewTimer fd) := by
  have htouch : SameSockets s (s.touch fd) := by
    rw [touch]
    split
    · exact ⟨rfl, rfl, rfl, rfl, rfl, rfl, rfl, rfl, fun _ => rfl⟩
    · exact ⟨rfl, rfl, rfl, rfl, rfl, rfl, rfl, rfl, fun _ => rfl⟩
  rw [renewTimer]
  split
  · exact htouch
  · split
    · exact { htouch with phase := fun hne => absurd rfl hne }
    · exact { htouch with }

/-- `process` arms the descriptor of its slot, or closes it, or does neither when
the slot has none. -/
theorem processOps_eq {s : Server} {fd : Nat} (hok : ∀ g, (s.slots fd).sockfd = some g → g = fd)
    (code : HttpCode) (writeRet : Bool) :
    ((s.slots fd).sockfd = none ∧ s.sockOps fd (processOps code writeRet) = s) ∨
      (∃ ev, s.sockOps fd (processOps code writeRet) = s.arm fd ev) ∨
      (closes code writeRet = true ∧ (s.slots fd).sockfd = some fd ∧
        s.sockOps fd (processOps code writeRet) = s.closeConn fd fd) := by
  have hmod : ∀ ev, ((s.slots fd).sockfd = none ∧ sockOp fd s (.modfd ev) = s) ∨
      ∃ ev', sockOp fd s (.modfd ev) = s.arm fd ev' := by
    intro ev
    rcases sockOp_eq hok (.modfd ev) with hnone | ⟨ev', -, heq⟩ | ⟨hop, -⟩
    · exact .inl hnone
    · exact .inr ⟨ev', heq⟩
    · cases hop
  rw [processOps]
  split
  · exact (hmod .input).imp_right .inl
  · by_cases hcloses : closes code writeRet = true
    · rw [if_pos hcloses]
      show (_ ∧ sockOp fd (sockOp fd s .closeConn) (.modfd .output) = s) ∨
        (∃ ev, sockOp fd (sockOp fd s .closeConn) (.modfd .output) = s.arm fd ev) ∨ _
      rcases sockOp_eq hok .closeConn with ⟨hnone, heq⟩ | ⟨ev, hop, -⟩ | ⟨-, hsock, heq⟩
      · rw [heq]
        exact (hmod .output).imp_right .inl
      · cases hop
      · refine .inr (.inr ⟨hcloses, hsock, ?_⟩)
        show sockOp fd (sockOp fd s .closeConn) (.modfd .output) = s.closeConn fd fd
        -- `m_sockfd` is `-1` now, so `modfd` finds no descriptor.
        have hnone : ((s.closeConn fd fd).slots fd).sockfd = none := by
          show (Function.update s.slots fd { s.slots fd with sockfd := none } fd).sockfd = none
          rw [Function.update_self]
        rw [heq, sockOp, hnone]
    · rw [if_neg hcloses]
      exact (hmod .output).imp_right .inl

/-- The main loop closes the connection of a slot that has its timer. -/
theorem closeEvent_eq {s : Server} {fd : Nat} (hlive : ∀ t ∈ s.timers.pq,
      ∃ u, s.timers.objs t = some u ∧ (s.slots u.userData).timerSockfd = u.userData)
    (htracks : Tracks s fd) :
    ∃ t h, (s.slots fd).timer = some t ∧ s.timers.delTimer t = some h ∧
      s.closeEvent fd = { s.close fd with userCount := s.userCount - 1, timers := h } := by
  obtain ⟨t, u, htimer, ht, hu, hfd⟩ := htracks
  obtain ⟨h, hdel⟩ := HeapTimer.delTimer_of_mem ht
  refine ⟨t, h, htimer, hdel, ?_⟩
  obtain ⟨u', hu', hsock⟩ := hlive t ht
  rw [hu] at hu'
  cases hu'
  rw [hfd] at hsock
  simp only [closeEvent, htimer, hu, hdel, cbFunc, hsock]

/-- The main loop moves the timer of a slot that has one. -/
theorem renewTimer_eq {s : Server} {fd : Nat} (hnodup : s.timers.pq.Nodup)
    (htracks : Tracks s fd) :
    ∃ t u h, (s.slots fd).timer = some t ∧ t ∈ s.timers.pq ∧ s.timers.objs t = some u ∧
      u.userData = fd ∧ h.pq.Perm s.timers.pq ∧
      h.objs = Function.update s.timers.objs t
        (some { u with expire := s.clock + 3 * TIMESLOT }) ∧
      h.next = s.timers.next ∧ s.renewTimer fd = { s with timers := h } := by
  obtain ⟨t, u, htimer, ht, hu, hfd⟩ := htracks
  obtain ⟨h, hrenew, hperm, hobjs, hnext⟩ :=
    HeapTimer.renew_spec (s.clock + 3 * TIMESLOT) hnodup ht hu
  refine ⟨t, u, h, htimer, ht, hu, hfd, hperm, hobjs, hnext, ?_⟩
  simp only [renewTimer, htimer, hrenew]

/-! ## The operations keep the invariant -/

namespace SlotsOk

theorem close {s : Server} (h : SlotsOk s) (g : Nat) : SlotsOk (s.close g) :=
  { h with
    open_sockfd := fun fd hfd => h.open_sockfd fd ((mem_close s g fd).mp hfd).2
    armed_open := by
      intro fd harmed
      rw [close_armed] at harmed
      split at harmed
      · exact absurd rfl harmed
      · rename_i hne
        exact (mem_close s g fd).mpr ⟨hne, h.armed_open fd harmed⟩
    tracks := by
      rintro fd (hfd | hfd)
      · exact h.tracks fd (.inl ((mem_close s g fd).mp hfd).2)
      · exact h.tracks fd (.inr hfd) }

theorem arm {s : Server} (h : SlotsOk s) (g : Nat) (ev : Interest) : SlotsOk (s.arm g ev) := by
  have hopen : ∀ fd, (s.arm g ev).armed fd ≠ none → fd ∈ s.fds := by
    intro fd harmed
    rw [arm_armed] at harmed
    split at harmed
    · rename_i hc
      rw [hc.1]
      exact hc.2
    · exact h.armed_open fd harmed
  rw [Server.arm] at hopen ⊢
  split
  · rename_i hg
    rw [if_pos hg] at hopen
    exact { h with armed_open := hopen }
  · exact h

/-- `close_conn` leaves the slot without a descriptor. -/
theorem closeConn {s : Server} (h : SlotsOk s) (fd : Nat) : SlotsOk (s.closeConn fd fd) := by
  have hclose := h.close fd
  have hself : (s.closeConn fd fd).slots fd = { s.slots fd with sockfd := none } :=
    Function.update_self fd _ s.slots
  have hother : ∀ g, g ≠ fd → (s.closeConn fd fd).slots g = s.slots g :=
    fun g hg => Function.update_of_ne hg _ s.slots
  have hslot : ∀ g, ((s.closeConn fd fd).slots g).timer = (s.slots g).timer ∧
      ((s.closeConn fd fd).slots g).timerSockfd = (s.slots g).timerSockfd := by
    intro g
    by_cases hg : g = fd
    · rw [hg, hself]
      exact ⟨rfl, rfl⟩
    · rw [hother g hg]
      exact ⟨rfl, rfl⟩
  exact { hclose with
    sockfd := by
      intro g k hk
      by_cases hg : g = fd
      · rw [hg, hself] at hk
        cases hk
      · rw [hother g hg] at hk
        exact h.sockfd g k hk
    open_sockfd := by
      intro g hg
      rw [hother g ((mem_close s fd g).mp hg).1]
      exact hclose.open_sockfd g hg
    live := by
      intro t ht
      obtain ⟨u, hu, hsock⟩ := h.live t ht
      exact ⟨u, hu, (hslot u.userData).2.trans hsock⟩
    tracks := by
      intro g hg
      obtain ⟨t, u, htimer, ht, hu, hud⟩ := hclose.tracks g hg
      exact ⟨t, u, (hslot g).1.trans htimer, ht, hu, hud⟩ }

theorem sockOp {s : Server} (h : SlotsOk s) (fd : Nat) (op : SockOp) :
    SlotsOk (Server.sockOp fd s op) := by
  rcases sockOp_eq (h.sockfd fd) op with ⟨-, heq⟩ | ⟨ev, -, heq⟩ | ⟨-, -, heq⟩
  · rw [heq]
    exact h
  · rw [heq]
    exact h.arm fd ev
  · rw [heq]
    exact h.closeConn fd

theorem sockOps {s : Server} (h : SlotsOk s) (fd : Nat) (ops : List SockOp) :
    SlotsOk (s.sockOps fd ops) := by
  induction ops generalizing s with
  | nil => exact h
  | cons op ops ih => exact ih (h.sockOp fd op)

/-- An event of the batch is taken. -/
theorem takeEvent {s : Server} (h : SlotsOk s) {e : Event} {rest : List Event}
    (hpending : s.pending = e :: rest) : SlotsOk { s with pending := rest } := by
  have hsub : List.Sublist (rest.filterMap Event.fd?) s.pendingFds := by
    rw [pendingFds, hpending]
    exact (List.sublist_cons_self e rest).filterMap Event.fd?
  exact { h with
    tracks := by
      rintro fd (hfd | hfd)
      · exact h.tracks fd (.inl hfd)
      · exact h.tracks fd (.inr (hsub.subset hfd))
    pending_nodup := h.pending_nodup.sublist hsub
    pending_phase := by
      intro hphase
      have hnil := h.pending_phase hphase
      rw [hpending] at hnil
      cases hnil }

/-- The slot of the event that is taken has its timer, and no other event. -/
theorem takeEvent_client {s : Server} (h : SlotsOk s) {fd : Nat} {kind : EventKind}
    {rest : List Event} (hpending : s.pending = .client fd kind :: rest) :
    Tracks s fd ∧ fd ∉ rest.filterMap Event.fd? := by
  have hfds : s.pendingFds = fd :: rest.filterMap Event.fd? := by
    rw [pendingFds, hpending]
    rfl
  have hnodup := h.pending_nodup
  rw [hfds] at hnodup
  refine ⟨h.tracks fd (.inr ?_), (List.nodup_cons.mp hnodup).1⟩
  rw [hfds]
  exact List.mem_cons_self

theorem closeEvent {s : Server} (h : SlotsOk s) {fd : Nat} (htracks : Tracks s fd)
    (hfd : fd ∉ s.pendingFds) : SlotsOk (s.closeEvent fd) := by
  obtain ⟨t, timers, htimer, hdel, heq⟩ := closeEvent_eq h.live htracks
  obtain ⟨hperm, hobjs, hnext⟩ := HeapTimer.delTimer_spec hdel
  have hclose := h.close fd
  have hmem : ∀ {t'}, t' ∈ timers.pq → t' ∈ s.timers.pq :=
    fun ht' => ((HeapTimer.mem_delTimer hdel _).mp ht').1
  rw [heq]
  exact { hclose with
    pq_nodup := hperm.nodup_iff.mpr (h.pq_nodup.filter _)
    live := by
      intro t' ht'
      show ∃ u, timers.objs t' = some u ∧ (s.slots u.userData).timerSockfd = u.userData
      rw [hobjs]
      exact h.live t' (hmem ht')
    fresh := by
      intro t' ht'
      show t' < timers.next
      rw [hnext]
      exact h.fresh t' (hmem ht')
    tracks := by
      intro g hg
      obtain ⟨t', u', htimer', ht', hu', hud'⟩ := hclose.tracks g hg
      refine ⟨t', u', htimer', (HeapTimer.mem_delTimer hdel t').mpr ⟨ht', ?_⟩, ?_, hud'⟩
      · -- A timer is the timer of one slot.
        rintro rfl
        obtain ⟨t, u, ht, -, hu, hud⟩ := htracks
        rw [htimer] at ht
        cases ht
        change s.timers.objs t' = some u' at hu'
        rw [hu] at hu'
        cases hu'
        rcases hg with hg | hg
        · exact ((mem_close s fd g).mp hg).1 (hud'.symm.trans hud)
        · exact hfd (hud ▸ hud' ▸ hg)
      · show timers.objs t' = some u'
        rw [hobjs]
        exact hu' }

theorem renewTimer {s : Server} (h : SlotsOk s) {fd : Nat} (htracks : Tracks s fd) :
    SlotsOk (s.renewTimer fd) := by
  obtain ⟨t, u, timers, -, -, hu, -, hperm, hobjs, hnext, heq⟩ :=
    renewTimer_eq h.pq_nodup htracks
  have hobj : ∀ {t' u'}, s.timers.objs t' = some u' →
      ∃ v, timers.objs t' = some v ∧ v.userData = u'.userData := by
    intro t' u' hu'
    rw [hobjs]
    by_cases ht : t' = t
    · subst ht
      rw [hu] at hu'
      cases hu'
      exact ⟨_, Function.update_self _ _ _, rfl⟩
    · exact ⟨u', by rw [Function.update_of_ne ht]; exact hu', rfl⟩
  rw [heq]
  exact { h with
    pq_nodup := hperm.nodup_iff.mpr h.pq_nodup
    live := by
      intro t' ht'
      obtain ⟨u', hu', hsock⟩ := h.live t' (hperm.subset ht')
      obtain ⟨v, hv, hud⟩ := hobj hu'
      exact ⟨v, hv, by rw [hud]; exact hsock⟩
    fresh := by
      intro t' ht'
      show t' < timers.next
      rw [hnext]
      exact h.fresh t' (hperm.subset ht')
    tracks := by
      intro g hg
      obtain ⟨t', u', htimer', ht', hu', hud'⟩ := h.tracks g hg
      obtain ⟨v, hv, hud⟩ := hobj hu'
      exact ⟨t', v, htimer', hperm.symm.subset ht', hv, hud.trans hud'⟩ }

theorem touch {s : Server} (h : SlotsOk s) (fd : Nat) : SlotsOk (s.touch fd) := by
  rw [Server.touch]
  split
  · exact h
  · exact { h with }

theorem append {s : Server} (h : SlotsOk s) (cfg : Config) (fd : Nat) :
    SlotsOk (s.append cfg fd).2 := by
  rw [append_eq]
  exact { h with }

theorem handleInput {s : Server} (h : SlotsOk s) (cfg : Config) {fd : Nat}
    (htracks : Tracks s fd) (hfd : fd ∉ s.pendingFds) (ok : Bool) :
    SlotsOk (s.handleInput cfg fd ok) := by
  rw [Server.handleInput]
  split
  · have htracks' : Tracks (s.append cfg fd).2 fd := by
      rw [append_eq]
      exact htracks
    exact ((h.append cfg fd).touch fd).renewTimer (htracks'.touch fd)
  · exact h.closeEvent htracks hfd

theorem handleOutput {s : Server} (h : SlotsOk s) {fd : Nat} (htracks : Tracks s fd)
    (hfd : fd ∉ s.pendingFds) (exit : WriteExit) : SlotsOk (s.handleOutput fd exit) := by
  have hops := h.sockOps fd exit.ops
  have htracks' := htracks.writeOps exit
  rw [Server.handleOutput]
  show SlotsOk (if exit.result then _ else _)
  split
  · exact (hops.touch fd).renewTimer (htracks'.touch fd)
  · apply hops.closeEvent htracks'
    rw [writeOps_pendingFds]
    exact hfd

/-- What epoll reports was armed. -/
theorem reported_armed {s : Server} {events : List Event} (hbatch : s.Batch events) :
    ∀ fd ∈ events.filterMap Event.fd?, s.armed fd ≠ none := by
  intro fd hfd
  obtain ⟨e, he, hefd⟩ := List.mem_filterMap.mp hfd
  have hready := hbatch.reportable e he
  rcases e with _ | _ | ⟨g, kind⟩
  · cases hefd
  · cases hefd
  · cases hefd
    rcases kind with _ | _ | _
    · exact hready
    · rw [show s.armed fd = some .input from hready]
      exact Option.some_ne_none _
    · rw [show s.armed fd = some .output from hready]
      exact Option.some_ne_none _

theorem reported_open {s : Server} (h : SlotsOk s) {events : List Event}
    (hbatch : s.Batch events) : ∀ fd ∈ events.filterMap Event.fd?, fd ∈ s.fds :=
  fun fd hfd => h.armed_open fd (reported_armed hbatch fd hfd)

theorem deliver {s : Server} (h : SlotsOk s) {events : List Event} (hbatch : s.Batch events) :
    SlotsOk (s.deliver events) :=
  { h with
    armed_open := by
      intro fd harmed
      apply h.armed_open fd
      intro hnone
      apply harmed
      show (if fd ∈ events.filterMap Event.fd? then none else s.armed fd) = none
      rw [hnone, ite_self]
    tracks := by
      rintro fd (hfd | hfd)
      · exact h.tracks fd (.inl hfd)
      · exact h.tracks fd (.inl (h.reported_open hbatch fd hfd))
    pending_nodup := hbatch.nodup
    pending_phase := fun hphase => absurd rfl hphase
    alive := by
      show ServerPhase.dispatching ≠ .crashed
      decide }

theorem newConn {s : Server} (h : SlotsOk s) (connfd : Nat) : SlotsOk (s.newConn connfd) := by
  let slot : Slot := ⟨some connfd, connfd, some s.timers.next⟩
  let timer : UtilTimer := ⟨s.clock + 3 * TIMESLOT, connfd, s.nextConn⟩
  have hslots : (s.newConn connfd).slots = Function.update s.slots connfd slot := rfl
  have hobjs : (s.newConn connfd).timers.objs =
      Function.update s.timers.objs s.timers.next (some timer) := rfl
  have hpq : (s.newConn connfd).timers.pq.Perm (s.timers.next :: s.timers.pq) :=
    HeapTimer.addTimer_pq _ _
  have hold : ∀ t ∈ s.timers.pq,
      (s.newConn connfd).timers.objs t = s.timers.objs t := by
    intro t ht
    have hne : t ≠ s.timers.next := (h.fresh t ht).ne
    rw [hobjs, Function.update_of_ne hne]
  have hnew : (s.newConn connfd).timers.objs s.timers.next = some timer := by
    rw [hobjs, Function.update_self]
  exact
  { h with
    sockfd := by
      intro fd g hg
      rw [hslots] at hg
      by_cases hfd : fd = connfd
      · rw [hfd, Function.update_self] at hg
        cases hg
        exact hfd.symm
      · rw [Function.update_of_ne hfd] at hg
        exact h.sockfd fd g hg
    open_sockfd := by
      intro fd hfd
      rw [hslots]
      by_cases heq : fd = connfd
      · rw [heq, Function.update_self]
      · rw [Function.update_of_ne heq]
        exact h.open_sockfd fd (((AList.mem_insert _).mp hfd).resolve_left heq)
    armed_open := by
      intro fd harmed
      apply (AList.mem_insert _).mpr
      by_cases heq : fd = connfd
      · exact .inl heq
      · apply Or.inr
        apply h.armed_open fd
        have harmed' : Function.update s.armed connfd (some .input) fd ≠ none := harmed
        rwa [Function.update_of_ne heq] at harmed'
    pq_nodup := by
      apply hpq.nodup_iff.mpr
      exact List.nodup_cons.mpr ⟨fun hmem => (h.fresh _ hmem).ne rfl, h.pq_nodup⟩
    live := by
      intro t ht
      rcases List.mem_cons.mp (hpq.subset ht) with rfl | ht'
      · refine ⟨timer, hnew, ?_⟩
        rw [hslots]
        show (Function.update s.slots connfd slot connfd).timerSockfd = connfd
        rw [Function.update_self]
      · obtain ⟨u, hu, hsock⟩ := h.live t ht'
        refine ⟨u, (hold t ht').trans hu, ?_⟩
        rw [hslots]
        by_cases heq : u.userData = connfd
        · rw [heq, Function.update_self]
        · rw [Function.update_of_ne heq]
          exact hsock
    fresh := by
      intro t ht
      show t < s.timers.next + 1
      rcases List.mem_cons.mp (hpq.subset ht) with rfl | ht'
      · exact Nat.lt_succ_self _
      · exact Nat.lt_succ_of_lt (h.fresh t ht')
    tracks := by
      intro fd hfd
      by_cases heq : fd = connfd
      · refine ⟨s.timers.next, timer, ?_, hpq.symm.subset List.mem_cons_self, hnew, heq.symm⟩
        rw [hslots, heq, Function.update_self]
      · have hfd' : fd ∈ s.fds ∨ fd ∈ s.pendingFds :=
          hfd.imp (fun hmem => ((AList.mem_insert _).mp hmem).resolve_left heq) id
        obtain ⟨t, u, htimer, ht, hu, hud⟩ := h.tracks fd hfd'
        refine ⟨t, u, ?_, hpq.symm.subset (List.mem_cons_of_mem _ ht), (hold t ht).trans hu, hud⟩
        rw [hslots, Function.update_of_ne heq]
        exact htimer }

/-! ## tick keeps the invariant -/

/-- A round of `tick` closes the descriptor of its slot. -/
theorem expireTop_fields {s : Server} (h : SlotsOk s) {t : Nat} {rest : List Nat} {u : UtilTimer}
    (hpq : s.timers.pq = t :: rest) (hu : s.timers.objs t = some u) :
    (s.expireTop t u).fds = s.fds.erase u.userData ∧
      (s.expireTop t u).armed = Function.update s.armed u.userData none ∧
      (s.expireTop t u).timers.pq.Perm rest ∧
      (s.expireTop t u).calls = s.calls ++
        [⟨u.conn, s.fds.lookup u.userData, s.clock - s.lastActive u.conn⟩] := by
  have hsock : (s.slots u.userData).timerSockfd = u.userData := by
    obtain ⟨v, hv, hsock⟩ := h.live t (by rw [hpq]; exact List.mem_cons_self)
    rw [hu] at hv
    cases hv
    exact hsock
  have hpop : s.timers.popTop.pq.Perm rest := by
    have hperm := HeapTimer.popTop_pq s.timers
    rwa [hpq] at hperm
  refine ⟨?_, ?_, hpop, ?_⟩
  · show s.fds.erase (s.slots u.userData).timerSockfd = _
    rw [hsock]
  · show Function.update s.armed (s.slots u.userData).timerSockfd none = _
    rw [hsock]
  · show s.calls ++ [⟨u.conn, s.fds.lookup (s.slots u.userData).timerSockfd, _⟩] = _
    rw [hsock]

theorem expireTop {s : Server} (h : SlotsOk s) {t : Nat} {rest : List Nat} {u : UtilTimer}
    (hpq : s.timers.pq = t :: rest) (hu : s.timers.objs t = some u) (hpending : s.pending = []) :
    SlotsOk (s.expireTop t u) := by
  obtain ⟨hfds, harmed, hperm, -⟩ := h.expireTop_fields hpq hu
  have hnodup := h.pq_nodup
  rw [hpq] at hnodup
  have hclose := h.close u.userData
  have hmem : ∀ {t'}, t' ∈ (s.expireTop t u).timers.pq → t' ∈ s.timers.pq ∧ t' ≠ t := by
    intro t' ht'
    have hrest := hperm.subset ht'
    rw [hpq]
    exact ⟨List.mem_cons_of_mem t hrest, fun heq => (List.nodup_cons.mp hnodup).1 (heq ▸ hrest)⟩
  have hobjs : ∀ {t'}, t' ≠ t → (s.expireTop t u).timers.objs t' = s.timers.objs t' := by
    intro t' hne
    show Function.update s.timers.objs t none t' = s.timers.objs t'
    exact Function.update_of_ne hne none s.timers.objs
  exact { h with
    open_sockfd := by
      intro fd hfd
      rw [hfds] at hfd
      exact h.open_sockfd fd (AList.mem_erase.mp hfd).2
    armed_open := by
      intro fd hfd
      rw [harmed] at hfd
      rw [hfds]
      exact hclose.armed_open fd hfd
    pq_nodup := hperm.nodup_iff.mpr (List.nodup_cons.mp hnodup).2
    live := by
      intro t' ht'
      rw [hobjs (hmem ht').2]
      exact h.live t' (hmem ht').1
    fresh := fun t' ht' => h.fresh t' (hmem ht').1
    tracks := by
      rintro fd (hfd | hfd)
      · rw [hfds] at hfd
        obtain ⟨hne, hopen⟩ := AList.mem_erase.mp hfd
        obtain ⟨t', u', htimer, ht', hu', hud⟩ := h.tracks fd (.inl hopen)
        -- The timer on top is the timer of another slot.
        have hother : t' ≠ t := by
          rintro rfl
          rw [hu] at hu'
          cases hu'
          exact hne hud.symm
        refine ⟨t', u', htimer, hperm.symm.subset ?_, (hobjs hother).trans hu', hud⟩
        rw [hpq] at ht'
        exact (List.mem_cons.mp ht').resolve_left hother
      · change fd ∈ s.pendingFds at hfd
        rw [pendingFds, hpending] at hfd
        cases hfd }

end SlotsOk

/-- The rule for the loop of `tick`: a property that a round for a live timer on
top keeps, at a time when no event is pending, holds behind the loop. -/
theorem tickLoop_rule {inv : Server → Prop} {clock : Nat}
    (hround : ∀ (s : Server) (t : Nat) (rest : List Nat) (u : UtilTimer), SlotsOk s → inv s →
      s.clock = clock → s.pending = [] → s.timers.pq = t :: rest →
      s.timers.objs t = some u → u.expire ≤ clock → inv (s.expireTop t u)) :
    ∀ (fuel : Nat) (s : Server), SlotsOk s → s.clock = clock → s.pending = [] → inv s →
      SlotsOk (tickLoop fuel s) ∧ inv (tickLoop fuel s) := by
  intro fuel
  induction fuel with
  | zero =>
      intro s h _ _ hinv
      exact ⟨h, hinv⟩
  | succ fuel ih =>
      intro s h hclock hpending hinv
      rw [tickLoop]
      split
      · exact ⟨h, hinv⟩
      · rename_i t rest hpq
        obtain ⟨u, hu, -⟩ := h.live t (by rw [hpq]; exact List.mem_cons_self)
        rw [hu]
        show SlotsOk (if u.expire ≤ s.clock then _ else _) ∧
          inv (if u.expire ≤ s.clock then _ else _)
        split
        · rename_i hdue
          exact ih (s.expireTop t u) (h.expireTop hpq hu hpending) hclock hpending
            (hround s t rest u h hinv hclock hpending hpq hu (hclock ▸ hdue))
        · exact ⟨h, hinv⟩

/-- The rule for the end of a batch. -/
theorem endBatch_rule (inv : Server → Prop) {s : Server} (h : SlotsOk s)
    (hpending : s.pending = []) (hinv : inv s)
    (hquiet : ∀ (s' : Server) (phase : ServerPhase) (timeout : Bool), inv s' →
      inv { s' with phase := phase, timeout := timeout })
    (hround : ∀ (s' : Server) (t : Nat) (rest : List Nat) (u : UtilTimer), SlotsOk s' → inv s' →
      s'.clock = s.clock → s'.pending = [] → s'.timers.pq = t :: rest →
      s'.timers.objs t = some u → u.expire ≤ s.clock → inv (s'.expireTop t u)) :
    SlotsOk s.endBatch ∧ inv s.endBatch := by
  have hset : ∀ timeout, SlotsOk { s with phase := s.nextPhase, timeout := timeout } := by
    intro timeout
    exact { h with
      pending_phase := fun _ => hpending
      alive := by
        show (if s.stopServer then ServerPhase.stopped else .waiting) ≠ .crashed
        split <;> decide }
  rw [endBatch]
  split
  · exact tickLoop_rule hround _ _ (hset false) rfl hpending (hquiet s _ false hinv)
  · exact ⟨hset s.timeout, hquiet s _ s.timeout hinv⟩

/-! ## Every run keeps the invariant -/

theorem serverStep_slotsOk {cfg : Config} {s s' : Server} {a : ServerAction} (h : SlotsOk s)
    (hstep : serverStep cfg s a = some s') : SlotsOk s' := by
  rcases serverStep_inv hstep with _ | ⟨events, -, hbatch⟩ | _ | ⟨rest, hpending, -⟩ | _ |
    ⟨rest, hpending⟩ | ⟨rest, _, _, hpending⟩ | ⟨rest, fd, hpending⟩ |
    ⟨rest, fd, ok, hpending⟩ | ⟨rest, fd, exit, hpending⟩ | ⟨_, hpending⟩ | _ | _
  case advance => exact { h with }
  case epollWait => exact h.deliver hbatch
  case epollFails hphase =>
    exact { h with
      pending_phase := fun _ => h.pending_phase (by rw [hphase]; decide)
      alive := by
        show ServerPhase.stopped ≠ .crashed
        decide }
  case refuse => exact h.takeEvent hpending
  case newConn => exact h.newConn _
  case acceptFails => exact h.takeEvent hpending
  case signals => exact { h.takeEvent hpending with }
  case hangup =>
    obtain ⟨htracks, hfd⟩ := h.takeEvent_client hpending
    exact (h.takeEvent hpending).closeEvent htracks hfd
  case input =>
    obtain ⟨htracks, hfd⟩ := h.takeEvent_client hpending
    exact (h.takeEvent hpending).handleInput cfg htracks hfd ok
  case output =>
    obtain ⟨htracks, hfd⟩ := h.takeEvent_client hpending
    exact (h.takeEvent hpending).handleOutput htracks hfd exit
  case endBatch =>
    exact (endBatch_rule (fun _ => True) h hpending trivial (fun _ _ _ _ => trivial)
      (fun _ _ _ _ _ _ _ _ _ _ _ => trivial)).1
  case take => exact { h with }
  case process fd code ret _ => 
    have h' : SlotsOk { s with processing := s.processing.erase fd } := { h with }
    exact h'.sockOps fd _

/-- What the main loop finds when it handles an event of a client: the timer of the
slot is allocated and in the heap.  `crashed` is the phase behind the use of a timer
that is not, and behind `del_timer` on an empty heap. -/
def TimersLive (s : Server) : Prop :=
  (∀ fd ∈ s.pendingFds, Tracks s fd ∧ s.timers.pq ≠ []) ∧ s.phase ≠ .crashed

/-- Whatever connections come, descriptors are used again, handlers answer and timers
expire, the main loop uses live timers only. -/
theorem always_timersLive (cfg : Config) (as : List ServerAction) :
    Always (serverStep cfg) TimersLive startServer as := by
  refine always_of_step SlotsOk (fun _ _ _ h hstep => serverStep_slotsOk h hstep) ?_
    startServer_slotsOk as
  intro s h
  refine ⟨?_, h.alive⟩
  intro fd hfd
  obtain ⟨t, u, htimer, ht, hu, hud⟩ := h.tracks fd (.inr hfd)
  exact ⟨⟨t, u, htimer, ht, hu, hud⟩, List.ne_nil_of_mem ht⟩

end EasyWebServer.Post
