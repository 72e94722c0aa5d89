import EasyWebServer.Get.Server

/-!
# The accept queue of the GET server

`addfd` registers the listening socket edge-triggered: one report covers every connection
that has arrived since the last one.  The main loop answers a report with one `accept`.

`Listening` is the server with the connections that wait for `accept`, and with the edge of
the listening socket.  A connection that no report is on its way for is lost
(`Listening.loss`), and the loss never becomes less.

`always_drained` says which runs leave no connection in the queue.
-/

namespace EasyWebServer.Get

open Transition

/-! ## The listening socket -/

/-- The server, the connections that wait for `accept`, and whether one has arrived since
the listening socket was last reported. -/
structure Listening where
  server : Server
  backlog : Nat
  edge : Bool

/-- A connection arrives, or the server takes a step. -/
inductive ListenAction where
  | arrive
  | server (a : ServerAction)
  deriving DecidableEq, Repr

/-- One step.  `epoll_wait` reports the listening socket when it has an edge, and may leave
it for a later batch; `accept` returns a connection of the queue. -/
def listenStep (cfg : Config) (s : Listening) : ListenAction → Option Listening
  | .arrive => some { s with backlog := s.backlog + 1, edge := true }
  | .server (.epollWait events) =>
      if events.count .listen ≤ s.edge.toNat then
        (serverStep cfg s.server (.epollWait events)).map fun server =>
          { s with server := server, edge := s.edge && !events.contains .listen }
      else none
  | .server (.accept fd) =>
      if 0 < s.backlog then
        (serverStep cfg s.server (.accept fd)).map fun server =>
          { s with server := server, backlog := s.backlog - 1 }
      else none
  | .server a => (serverStep cfg s.server a).map fun server => { s with server := server }

/-- The server before its first `epoll_wait`, with no connection. -/
def startListening (cfg : Config) (sockfd : Nat → Option Nat) : Listening :=
  ⟨startServer cfg sockfd, 0, false⟩

/-- The main loop is at `epoll_wait`, and the listening socket has no edge to report. -/
def Blocked (s : Listening) : Prop := s.server.phase = .waiting ∧ s.edge = false

instance (s : Listening) : Decidable (Blocked s) := by
  unfold Blocked
  infer_instance

/-- When the main loop is blocked, no connection waits. -/
def Drained (s : Listening) : Prop := Blocked s → s.backlog = 0

/-- A connection arrives when the last one has been reported, and `accept` does not fail. -/
def OneByOne (s : Listening) : ListenAction → Prop
  | .arrive => s.edge = false
  | .server .acceptFails => False
  | _ => True

instance (s : Listening) (a : ListenAction) : Decidable (OneByOne s a) := by
  unfold OneByOne
  split <;> infer_instance

/-! ## The account -/

/-- The calls of `accept` that are on their way: a report to come, and the reports in the
batch. -/
def Listening.announced (s : Listening) : Nat :=
  s.edge.toNat + s.server.pending.count .listen

/-- The connections that no call of `accept` is on its way for. -/
def Listening.loss (s : Listening) : Nat := s.backlog - s.announced

/-- Behind a batch nothing of it is left, and no call of `accept` is without a
connection. -/
structure Accounted (s : Listening) : Prop where
  handled : s.server.phase = .waiting → s.server.pending = []
  announced_le : s.announced ≤ s.backlog

theorem startListening_accounted (cfg : Config) (sockfd : Nat → Option Nat) :
    Accounted (startListening cfg sockfd) ∧ (startListening cfg sockfd).loss = 0 :=
  ⟨⟨fun _ => rfl, Nat.le_refl 0⟩, rfl⟩

/-- The events of the listening socket that a step handles. -/
def listens : ServerAction → Nat
  | .accept _ => 1
  | .acceptFails => 1
  | _ => 0

/-- The main loop takes the first event of its batch. -/
theorem listens_tail {s s' : Server} {e : Event} {rest : List Event} {n : Nat}
    (hhandled : s.phase = .waiting → s.pending = []) (hpending : s.pending = e :: rest)
    (hphase : s'.phase = s.phase) (hrest : s'.pending = rest)
    (hn : [e].count .listen = n) :
    (s'.phase = .waiting → s'.pending = []) ∧
      s.pending.count .listen = s'.pending.count .listen + n := by
  refine ⟨fun hwaiting => ?_, ?_⟩
  · rw [hphase] at hwaiting
    rw [hhandled hwaiting] at hpending
    cases hpending
  · rw [hpending, hrest, ← hn, ← List.singleton_append, List.count_append, Nat.add_comm]

theorem append_kept (cfg : Config) (s : Server) (fd : Nat) :
    (s.append cfg fd).phase = s.phase ∧ (s.append cfg fd).pending = s.pending := by
  unfold Server.append
  split_ifs
  · exact ⟨rfl, rfl⟩
  · exact ⟨rfl, rfl⟩

/-- A step other than `epoll_wait` takes the events from the batch that it handles. -/
theorem serverStep_listens {cfg : Config} {s s' : Server} {a : ServerAction}
    (hhandled : s.phase = .waiting → s.pending = [])
    (hwait : ∀ events, a ≠ .epollWait events) (h : serverStep cfg s a = some s') :
    (s'.phase = .waiting → s'.pending = []) ∧
      s.pending.count .listen = s'.pending.count .listen + listens a := by
  cases serverStep_inv h with
  | epollWait events hphase hbatch => exact absurd rfl (hwait events)
  | epollFails hphase => exact ⟨nofun, rfl⟩
  | accept fd rest hmain hpending hreserved hclosed =>
    exact listens_tail hhandled hpending rfl rfl rfl
  | acceptFails rest hmain hpending => exact listens_tail hhandled hpending rfl rfl rfl
  | hangup fd rest hmain hpending => exact listens_tail hhandled hpending rfl rfl rfl
  | append fd rest hmain hpending =>
    obtain ⟨hphase, hkept⟩ := append_kept cfg { s with pending := rest } fd
    exact listens_tail hhandled hpending hphase hkept rfl
  | readFails fd rest hmain hpending => exact listens_tail hhandled hpending rfl rfl rfl
  | write fd rest exit hmain hpending => exact listens_tail hhandled hpending rfl rfl rfl
  | endBatch hphase hmain hpending => exact ⟨fun _ => hpending, rfl⟩
  | main k t htask => exact ⟨hhandled, rfl⟩
  | take i r rest hi hqueue => exact ⟨hhandled, rfl⟩
  | process i r code writeRet hi => exact ⟨hhandled, rfl⟩
  | worker i t k t' hi htask => exact ⟨hhandled, rfl⟩

/-- `epoll_wait` starts a batch. -/
theorem serverStep_epollWait {cfg : Config} {s s' : Server} {events : List Event}
    (h : serverStep cfg s (.epollWait events) = some s') :
    s.phase = .waiting ∧ s'.phase = .dispatching ∧ s'.pending = events := by
  cases serverStep_inv h with
  | epollWait _ hphase hbatch => exact ⟨hphase, rfl, rfl⟩

/-- The account of the state behind a step, and what the step loses. -/
structure Ledger (s : Listening) (a : ListenAction) (s' : Listening) (lost : Nat) : Prop where
  accounted : Accounted s'
  balance : s'.backlog + s.announced = s.backlog + s'.announced + lost
  guard : OneByOne s a ↔ lost = 0

/-- A connection arrives, and is lost when there was a report to come. -/
theorem Ledger.arrive {s : Listening} (h : Accounted s) :
    Ledger s .arrive { s with backlog := s.backlog + 1, edge := true } s.edge.toNat := by
  have hle := h.announced_le
  unfold Listening.announced at hle
  refine ⟨⟨h.handled, ?_⟩, ?_, ?_⟩
  · unfold Listening.announced
    simp only [Bool.toNat_true]
    omega
  · unfold Listening.announced
    simp only [Bool.toNat_true]
    omega
  · show s.edge = false ↔ s.edge.toNat = 0
    cases s.edge <;> simp

/-- The edge goes into the batch, or stays. -/
theorem Ledger.epollWait {s : Listening} (h : Accounted s) {events : List Event} {server : Server}
    (hphase : s.server.phase = .waiting) (hnext : server.phase = .dispatching)
    (hpending : server.pending = events) (hcount : events.count .listen ≤ s.edge.toNat) :
    Ledger s (.server (.epollWait events))
      { s with server := server, edge := s.edge && !events.contains .listen } 0 := by
  have hle := h.announced_le
  have hsame : (s.edge && !events.contains .listen).toNat + events.count .listen =
      s.edge.toNat := by
    rcases hedge : s.edge
    · rw [hedge, Bool.toNat_false] at hcount
      rw [Bool.false_and, Nat.le_zero.mp hcount]
      rfl
    · rw [hedge, Bool.toNat_true] at hcount
      rw [Bool.true_and, List.contains_eq_mem]
      by_cases hmem : .listen ∈ events
      · have hpos := List.count_pos_iff.mpr hmem
        rw [decide_eq_true hmem]
        show 0 + _ = 1
        omega
      · rw [decide_eq_false hmem, List.count_eq_zero_of_not_mem hmem]
        rfl
  have hannounced : Listening.announced
      { s with server := server, edge := s.edge && !events.contains .listen } = s.announced := by
    unfold Listening.announced
    simp only
    rw [hpending, hsame, h.handled hphase]
    rfl
  refine ⟨⟨?_, ?_⟩, ?_, iff_of_true trivial rfl⟩
  · intro hwaiting
    rw [hnext] at hwaiting
    cases hwaiting
  · rw [hannounced]
    exact hle
  · rw [hannounced]
    rfl

/-- Another step of the server takes `listens` from the batch, and `taken` from the
queue. -/
theorem Ledger.server {s : Listening} (h : Accounted s) (taken : Nat) {a : ServerAction}
    {server : Server} (hhandled : server.phase = .waiting → server.pending = [])
    (hlistens : s.server.pending.count .listen = server.pending.count .listen + listens a)
    (htaken : taken ≤ listens a) (hguard : OneByOne s (.server a) ↔ listens a - taken = 0) :
    Ledger s (.server a) { s with server := server, backlog := s.backlog - taken }
      (listens a - taken) := by
  have hle := h.announced_le
  unfold Listening.announced at hle
  refine ⟨⟨hhandled, ?_⟩, ?_, hguard⟩
  · unfold Listening.announced
    simp only
    omega
  · unfold Listening.announced
    simp only
    omega

/-- Every step has a ledger. -/
theorem listenStep_ledger {cfg : Config} {s s' : Listening} {a : ListenAction} (h : Accounted s)
    (hstep : listenStep cfg s a = some s') : ∃ lost, Ledger s a s' lost := by
  unfold listenStep at hstep
  split at hstep
  · cases hstep
    exact ⟨_, .arrive h⟩
  · rename_i events
    split_ifs at hstep with hcount
    rw [Option.map_eq_some_iff] at hstep
    obtain ⟨server, hserver, rfl⟩ := hstep
    obtain ⟨hphase, hnext, hpending⟩ := serverStep_epollWait hserver
    exact ⟨0, .epollWait h hphase hnext hpending hcount⟩
  · rename_i fd
    split_ifs at hstep
    rw [Option.map_eq_some_iff] at hstep
    obtain ⟨server, hserver, rfl⟩ := hstep
    obtain ⟨hhandled, hlistens⟩ := serverStep_listens h.handled
      (fun _ heq => by cases heq) hserver
    exact ⟨0, .server h 1 hhandled hlistens (Nat.le_refl 1) (iff_of_true trivial rfl)⟩
  · rename_i a hwait hne
    rw [Option.map_eq_some_iff] at hstep
    obtain ⟨server, hserver, rfl⟩ := hstep
    obtain ⟨hhandled, hlistens⟩ := serverStep_listens h.handled
      (fun events heq => hwait events heq) hserver
    refine ⟨_, .server h 0 hhandled hlistens (Nat.zero_le _) ?_⟩
    cases a with
    | accept fd => exact absurd rfl (hne fd)
    | acceptFails => exact iff_of_false id (by decide)
    | _ => exact iff_of_true trivial rfl

theorem Ledger.loss {s s' : Listening} {a : ListenAction} {lost : Nat} (h : Accounted s)
    (hl : Ledger s a s' lost) : s'.loss = s.loss + lost := by
  have hle := h.announced_le
  have hle' := hl.accounted.announced_le
  have hbalance := hl.balance
  unfold Listening.loss
  omega

/-! ## Runs -/

/-- When the main loop is blocked, what waits is what is lost. -/
theorem Blocked.drained_iff {s : Listening} (hb : Blocked s) (h : Accounted s) :
    Drained s ↔ s.loss = 0 := by
  have hloss : s.loss = s.backlog := by
    unfold Listening.loss Listening.announced
    rw [hb.2, h.handled hb.1]
    rfl
  rw [hloss]
  exact ⟨fun hdrained => hdrained hb, fun hzero _ => hzero⟩

/-- A run leaves no connection in the queue in any of its states when its steps meet the
guard.  When it ends with the main loop blocked, the queue is empty in no other case. -/
theorem always_drained (cfg : Config) (sockfd : Nat → Option Nat) (as : List ListenAction) :
    (AllSteps (listenStep cfg) OneByOne (startListening cfg sockfd) as →
      Always (listenStep cfg) Drained (startListening cfg sockfd) as) ∧
    ∀ s, exec (listenStep cfg) (startListening cfg sockfd) as = some s → Blocked s →
      (Drained s ↔ AllSteps (listenStep cfg) OneByOne (startListening cfg sockfd) as) := by
  obtain ⟨hstart, hnone⟩ := startListening_accounted cfg sockfd
  refine account_runs (p := Drained) Accounted Listening.loss ?_ (fun _ h hb => h hb hb)
    (fun _ h hb => Blocked.drained_iff hb h) hstart hnone as
  intro s a s' h hstep
  obtain ⟨lost, hl⟩ := listenStep_ledger h hstep
  exact ⟨lost, hl.accounted, hl.loss h, fun _ => hl.guard⟩

/-- A server with one worker. -/
def oneWorker : Config := ⟨[0, 1, 2, 3, 4], 1, 10⟩

/-- The main loop accepts a connection and initialises its slot. -/
def acceptOne (fd : Nat) : List ListenAction :=
  [.server (.epollWait [.listen]), .server (.accept fd), .server .main, .server .main,
    .server .main, .server .endBatch]

/-- Two connections, the second of which arrives behind the report of the first. -/
theorem always_drained_two :
    Always (listenStep oneWorker) Drained (startListening oneWorker fun _ => none)
      ([.arrive] ++ acceptOne 5 ++ [.arrive] ++ acceptOne 6) :=
  (always_drained oneWorker (fun _ => none) _).1 (by decide)

/-- Two connections arrive before the first is reported, and one stays in the queue. -/
theorem not_always_drained_burst :
    ¬ Always (listenStep oneWorker) Drained (startListening oneWorker fun _ => none)
      ([.arrive, .arrive] ++ acceptOne 5) := by
  intro h
  obtain ⟨s, ⟨hblocked, hbacklog⟩, hnone⟩ :=
    h.exists_last (fun s : Listening => Blocked s ∧ s.backlog = 1) (by decide)
  rw [hnone hblocked] at hbacklog
  exact absurd hbacklog (by decide)

end EasyWebServer.Get
