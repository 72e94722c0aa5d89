import EasyWebServer.Lib.SelfPipe
import EasyWebServer.Post.IdleBound

/-!
# Signals and the alarm

`SIGALRM` and `SIGTERM` reach the main loop through the pipe that `sig_handler` writes to, and
`timer_handler` sets the next alarm when the loop has handled the last one.

`SignalServer` adds to the server the alarm that is set and the pipe.  A signal is raised by
another process, or by the alarm when its time has come; its handler sends a byte when the
pipe has room; `epoll_wait` reports the read end when something has arrived since the last
report, and the loop reads at most 1024 bytes then.

No alarm is lost for good: an alarm is set, or raised, or there is something in the pipe that
the loop will read (`Ticking`).  A byte that finds the pipe full is lost, but then the loop has
the pipe to read; and a read that leaves bytes behind has read a signal.  So whenever the loop
rests in `epoll_wait`, the next `tick` is at most one `TIMESLOT` away, and every open
connection was active in the last four (`always_onTime`).

A `SIGTERM` is lost when its byte is, and waits when it stays behind a read of 1024 bytes.
`always_not_resting_of_term` is about the runs in which neither happens (`RoomToSend`).
-/

namespace EasyWebServer.Post

open Server Transition

/-! ## The steps -/

/-- The signals that have `sig_handler`. -/
inductive Sig where
  /-- `SIGALRM`. -/
  | alarm
  /-- `SIGTERM`. -/
  | term
  deriving DecidableEq, Repr

/-- `sizeof(signals)`. -/
def SIGNALS_LEN : Nat := 1024

/-- The server, the time of the alarm that is set, and the pipe. -/
structure SignalServer where
  server : Server
  deadline : Option Nat
  pipe : SelfPipe Sig

/-- The server at its first `epoll_wait`, behind `alarm(TIMESLOT)`. -/
def startSignals : SignalServer := ⟨startServer, some TIMESLOT, .quiet⟩

/-- A step of the server, a signal, or its handler. -/
inductive SignalAction where
  /-- Another process sends a signal. -/
  | kill (sig : Sig)
  /-- `sig_handler`. -/
  | handler (sig : Sig)
  /-- The main loop handles the event of the pipe. -/
  | recvSignals
  | server (a : ServerAction)
  deriving DecidableEq, Repr

namespace SignalServer

/-- The event of the pipe is in the batch. -/
def Reported (s : SignalServer) : Prop := .signal ∈ s.server.pending

/-- What `recv` reads. -/
def received (s : SignalServer) : List Sig := s.pipe.bytes.take SIGNALS_LEN

/-- The alarm rings when its time has come. -/
def ring (s : SignalServer) : SignalServer :=
  if s.deadline.any (fun d => decide (d ≤ s.server.clock)) then
    { s with deadline := none, pipe := s.pipe.raise .alarm }
  else s

/-- The read end is edge-triggered. -/
def PipeBatch (s : SignalServer) (events : List Event) : Prop :=
  events.count .signal ≤ 1 ∧
    (.signal ∈ events → s.pipe.edge = true ∧ s.pipe.bytes ≠ [])

instance (s : SignalServer) (events : List Event) : Decidable (s.PipeBatch events) :=
  inferInstanceAs (Decidable (_ ∧ (_ → _ ∧ _)))

end SignalServer

open SignalServer in
/-- One step; the pipe has room for `capacity` bytes. -/
def signalStep (cfg : Config) (capacity : Nat) (s : SignalServer) :
    SignalAction → Option SignalServer
  | .kill sig => some { s with pipe := s.pipe.raise sig }
  | .handler sig =>
      if s.pipe.raised sig then some { s with pipe := s.pipe.handle capacity sig } else none
  | .recvSignals =>
      (serverStep cfg s.server
          (.signals (decide (.alarm ∈ s.received)) (decide (.term ∈ s.received)))).map
        (fun server => { s with server := server, pipe := s.pipe.drop SIGNALS_LEN })
  | .server (.signals _ _) => none
  | .server (.advance seconds) =>
      (serverStep cfg s.server (.advance seconds)).map
        (fun server => { s with server := server }.ring)
  | .server (.epollWait events) =>
      if s.PipeBatch events then
        (serverStep cfg s.server (.epollWait events)).map (fun server =>
          { s with
            server := server
            pipe := if .signal ∈ events then s.pipe.report else s.pipe })
      else none
  | .server .endBatch =>
      (serverStep cfg s.server .endBatch).map (fun server =>
        { s with
          server := server
          -- `timer_handler` calls `alarm(TIMESLOT)`.
          deadline := if s.server.timeout then some (s.server.clock + TIMESLOT) else s.deadline })
  | .server a => (serverStep cfg s.server a).map (fun server => { s with server := server })

/-! ## The server below -/

/-- What a step does. -/
inductive SignalMove (cfg : Config) (capacity : Nat) (s : SignalServer) :
    SignalAction → SignalServer → Prop where
  | kill (sig : Sig) : SignalMove cfg capacity s (.kill sig) { s with pipe := s.pipe.raise sig }
  | handler (sig : Sig) (hraised : s.pipe.raised sig = true) :
      SignalMove cfg capacity s (.handler sig) { s with pipe := s.pipe.handle capacity sig }
  | recv (server : Server)
      (hstep : serverStep cfg s.server
        (.signals (decide (.alarm ∈ s.received)) (decide (.term ∈ s.received))) = some server) :
      SignalMove cfg capacity s .recvSignals
        { s with server := server, pipe := s.pipe.drop SIGNALS_LEN }
  | advance (seconds : Nat) :
      SignalMove cfg capacity s (.server (.advance seconds))
        { s with server := { s.server with clock := s.server.clock + seconds } }.ring
  | epollWait (events : List Event) (server : Server) (hbatch : s.PipeBatch events)
      (hstep : serverStep cfg s.server (.epollWait events) = some server) :
      SignalMove cfg capacity s (.server (.epollWait events))
        { s with
          server := server
          pipe := if .signal ∈ events then s.pipe.report else s.pipe }
  | endBatch (server : Server) (hstep : serverStep cfg s.server .endBatch = some server) :
      SignalMove cfg capacity s (.server .endBatch)
        { s with
          server := server
          deadline := if s.server.timeout then some (s.server.clock + TIMESLOT) else s.deadline }
  | epollFails (server : Server) (hstep : serverStep cfg s.server .epollFails = some server) :
      SignalMove cfg capacity s (.server .epollFails) { s with server := server }
  | other (a : ServerAction) (server : Server) (ha : ¬ a.OfLoop)
      (hstep : serverStep cfg s.server a = some server) :
      SignalMove cfg capacity s (.server a) { s with server := server }

theorem signalStep_inv {cfg : Config} {capacity : Nat} {s s' : SignalServer} {a : SignalAction}
    (h : signalStep cfg capacity s a = some s') : SignalMove cfg capacity s a s' := by
  rcases a with sig | sig | _ | a
  case kill =>
    cases h
    exact .kill sig
  case handler =>
    rw [signalStep] at h
    split at h
    · rename_i hraised
      cases h
      exact .handler sig hraised
    · cases h
  case recvSignals =>
    obtain ⟨server, hstep, rfl⟩ := Option.map_eq_some_iff.mp h
    exact .recv server hstep
  case server =>
    rcases a with seconds | events | _ | _ | _ | _ | _ | _ | _ | _ | _ | _
    case advance =>
      rw [signalStep] at h
      obtain ⟨server, hstep, rfl⟩ := Option.map_eq_some_iff.mp h
      cases hstep
      exact .advance seconds
    case epollWait =>
      rw [signalStep] at h
      split at h
      · rename_i hbatch
        obtain ⟨server, hstep, rfl⟩ := Option.map_eq_some_iff.mp h
        exact .epollWait events server hbatch hstep
      · cases h
    case signals => cases h
    case endBatch =>
      obtain ⟨server, hstep, rfl⟩ := Option.map_eq_some_iff.mp h
      exact .endBatch server hstep
    case epollFails =>
      obtain ⟨server, hstep, rfl⟩ := Option.map_eq_some_iff.mp h
      exact .epollFails server hstep
    all_goals
      obtain ⟨server, hstep, rfl⟩ := Option.map_eq_some_iff.mp h
      exact .other _ server id hstep

theorem ring_server (s : SignalServer) : s.ring.server = s.server := by
  rw [SignalServer.ring]
  split <;> rfl

/-- A step is one of the server, or leaves the server as it is. -/
theorem signalStep_server {cfg : Config} {capacity : Nat} {s s' : SignalServer}
    {a : SignalAction} (h : signalStep cfg capacity s a = some s') :
    s'.server = s.server ∨ ∃ b, serverStep cfg s.server b = some s'.server := by
  rcases signalStep_inv h with _ | _ | ⟨_, hstep⟩ | ⟨seconds⟩ | ⟨_, _, _, hstep⟩ | ⟨_, hstep⟩ |
    ⟨_, hstep⟩ | ⟨_, _, _, hstep⟩
  case kill => exact .inl rfl
  case handler => exact .inl rfl
  case advance =>
    rw [ring_server]
    exact .inr ⟨.advance seconds, rfl⟩
  all_goals exact .inr ⟨_, hstep⟩

/-- Every run with signals is a run of the server. -/
theorem signalServer_refines {cfg : Config} {capacity : Nat} {as : List SignalAction}
    {s : SignalServer} (h : exec (signalStep cfg capacity) startSignals as = some s) :
    Reachable (serverStep cfg) startServer s.server :=
  exec_reachable SignalServer.server (fun _ _ _ hstep => signalStep_server hstep) h

/-! ## The alarm never stops -/

/-- The loop rests: it is in `epoll_wait`, no handler has to run, and it has nothing to read. -/
def Resting (s : SignalServer) : Prop :=
  s.server.phase = .waiting ∧ (∀ sig, s.pipe.raised sig = false) ∧ ¬ s.pipe.Comes s.Reported

/-- When the loop rests, the next `tick` is at most one `TIMESLOT` away, and every open
connection was active in the last four. -/
def OnTime (s : SignalServer) : Prop :=
  Resting s →
    (∃ d ∈ s.deadline, s.server.clock < d ∧ d ≤ s.server.clock + TIMESLOT) ∧
      ∀ fd c, s.server.fds.lookup fd = some c →
        s.server.clock < s.server.lastActive c + 4 * TIMESLOT

/-- The server stops, or `tick` comes. -/
def Ticking (s : SignalServer) : Prop :=
  s.server.stopServer = true ∨ s.server.phase = .stopped ∨ s.server.timeout = true ∨
    s.deadline ≠ none ∨ s.pipe.raised .alarm = true ∨ s.pipe.Comes s.Reported

/-- What holds in every state. -/
structure SignalsOk (capacity : Nat) (s : SignalServer) : Prop where
  slots : SlotsOk s.server
  timers : TimersHold s.server
  timed : Timed s.server
  watched : s.pipe.Watched capacity s.Reported
  once : s.server.pending.count .signal ≤ 1
  ticking : Ticking s
  waiting : s.server.phase = .waiting → s.server.timeout = false ∧ s.server.stopServer = false
  due : ∀ d ∈ s.deadline, s.server.clock < d ∧ d ≤ s.server.clock + TIMESLOT
  after : ∀ d ∈ s.deadline, After s.server d

theorem startSignals_ok {capacity : Nat} (hcap : 0 < capacity) :
    SignalsOk capacity startSignals where
  slots := startServer_slotsOk
  timers := ⟨_, heapHolds_empty⟩
  timed := startServer_timed
  watched := by
    have hnot : ¬ startSignals.Reported := List.not_mem_nil
    rw [eq_false hnot]
    exact SelfPipe.watched_quiet hcap
  once := Nat.zero_le 1
  ticking := .inr (.inr (.inr (.inl (Option.some_ne_none _))))
  waiting := fun _ => ⟨rfl, rfl⟩
  due := by
    intro d hd
    cases hd
    show 0 < TIMESLOT ∧ TIMESLOT ≤ 0 + TIMESLOT
    decide
  after := by
    intro d _ t ht
    cases ht

theorem SignalsOk.onTime {capacity : Nat} {s : SignalServer} (h : SignalsOk capacity s) :
    OnTime s := by
  rintro ⟨hphase, hraised, hcomes⟩
  have hset : s.deadline ≠ none := by
    obtain ⟨htimeout, hstop⟩ := h.waiting hphase
    rcases h.ticking with hs | hs | hs | hs | hs | hs
    · rw [hstop] at hs
      cases hs
    · rw [hphase] at hs
      cases hs
    · rw [htimeout] at hs
      cases hs
    · exact hs
    · rw [hraised] at hs
      cases hs
    · exact absurd hs hcomes
  obtain ⟨d, hd⟩ := Option.ne_none_iff_exists'.mp hset
  obtain ⟨hlt, hle⟩ := h.due d hd
  exact ⟨⟨d, hd, hlt, hle⟩, fun fd c hc => idle_lt h.slots h.timed (h.after d hd) hlt hc⟩

/-- In a batch that another step than one of the loop leaves behind, the pipe is reported as
before. -/
theorem reported_eq {s : SignalServer} {server : Server} (h : SameLoop s.server server) :
    ({ s with server := server } : SignalServer).Reported = s.Reported := by
  apply propext
  show .signal ∈ server.pending ↔ .signal ∈ s.server.pending
  rw [← List.count_pos_iff, h.signals, List.count_pos_iff]

/-- When the loop waits, no event is in a batch. -/
theorem not_reported {s : SignalServer} (hok : SlotsOk s.server)
    (hphase : s.server.phase ≠ .dispatching) : ¬ s.Reported := by
  show .signal ∉ s.server.pending
  rw [hok.pending_phase hphase]
  exact List.not_mem_nil

namespace SignalsOk

variable {capacity : Nat} {s : SignalServer}

theorem kill (h : SignalsOk capacity s) (sig : Sig) :
    SignalsOk capacity { s with pipe := s.pipe.raise sig } :=
  { h with
    watched := h.watched.raise sig
    ticking := by
      rcases h.ticking with hs | hs | hs | hs | hs | hs
      · exact .inl hs
      · exact .inr (.inl hs)
      · exact .inr (.inr (.inl hs))
      · exact .inr (.inr (.inr (.inl hs)))
      · exact .inr (.inr (.inr (.inr (.inl (SelfPipe.raised_raise_mono hs sig)))))
      · exact .inr (.inr (.inr (.inr (.inr hs)))) }

theorem handler (h : SignalsOk capacity s) (hcap : 0 < capacity) (sig : Sig) :
    SignalsOk capacity { s with pipe := s.pipe.handle capacity sig } :=
  { h with
    watched := h.watched.handle sig
    ticking := .inr (.inr (.inr (.inr (.inr (h.watched.comes_handle hcap sig))))) }

/-- The loop reads the pipe: there is an alarm, or the end, in what it reads. -/
theorem recv (h : SignalsOk capacity s) {cfg : Config} {server : Server}
    (hstep : serverStep cfg s.server
      (.signals (decide (.alarm ∈ s.received)) (decide (.term ∈ s.received))) = some server) :
    SignalsOk capacity { s with server := server, pipe := s.pipe.drop SIGNALS_LEN } := by
  have hslots := serverStep_slotsOk h.slots hstep
  have htimers := serverStep_holds h.slots h.timers hstep
  have htimed := serverStep_timed h.slots h.timed hstep
  obtain _ | _ | _ | _ | _ | _ | ⟨rest, _, _, hpending⟩ := serverStep_inv hstep
  have hrep : s.Reported := by
    show .signal ∈ s.server.pending
    rw [hpending]
    exact List.mem_cons_self
  have honce := h.once
  rw [hpending, List.count_cons_self] at honce
  have hnot : .signal ∉ rest := List.count_eq_zero.mp (by omega)
  have hphase : s.server.phase = .dispatching := by
    by_contra hne
    exact not_reported h.slots hne hrep
  exact {
    slots := hslots
    timers := htimers
    timed := htimed
    watched := by
      show (s.pipe.drop SIGNALS_LEN).Watched capacity (.signal ∈ rest)
      rw [eq_false hnot]
      exact h.watched.drop hrep (by decide)
    once := by
      show rest.count .signal ≤ 1
      omega
    ticking := by
      obtain ⟨sig, hsig⟩ : ∃ sig, sig ∈ s.received := List.exists_mem_of_ne_nil _
        (h.watched.take_ne_nil hrep (show 0 < SIGNALS_LEN by decide))
      rcases sig with _ | _
      · refine .inr (.inr (.inl ?_))
        show (s.server.timeout || decide (.alarm ∈ s.received)) = true
        rw [decide_eq_true hsig, Bool.or_true]
      · refine .inl ?_
        show (s.server.stopServer || decide (.term ∈ s.received)) = true
        rw [decide_eq_true hsig, Bool.or_true]
    waiting := by
      intro hwait
      change s.server.phase = .waiting at hwait
      rw [hphase] at hwait
      cases hwait
    due := h.due
    after := h.after }

theorem advance (h : SignalsOk capacity s) (seconds : Nat) :
    SignalsOk capacity
      { s with server := { s.server with clock := s.server.clock + seconds } }.ring := by
  have hslots : SlotsOk { s.server with clock := s.server.clock + seconds } := { h.slots with }
  have htimed : Timed { s.server with clock := s.server.clock + seconds } := { h.timed with }
  rw [SignalServer.ring]
  split
  · exact {
      slots := hslots
      timers := h.timers
      timed := htimed
      watched := h.watched.raise .alarm
      once := h.once
      ticking := .inr (.inr (.inr (.inr (.inl (s.pipe.raised_raise .alarm)))))
      waiting := h.waiting
      due := fun d hd => by cases hd
      after := fun d hd => by cases hd }
  · rename_i hlater
    exact {
      slots := hslots
      timers := h.timers
      timed := htimed
      watched := h.watched
      once := h.once
      ticking := h.ticking
      waiting := h.waiting
      due := by
        intro d hd
        change s.deadline = some d at hd
        obtain ⟨-, hle⟩ := h.due d hd
        show s.server.clock + seconds < d ∧ d ≤ s.server.clock + seconds + TIMESLOT
        change ¬ s.deadline.any (fun d => decide (d ≤ s.server.clock + seconds)) = true at hlater
        rw [hd, Option.any_some, decide_eq_true_eq] at hlater
        omega
      after := h.after }

theorem epollWait (h : SignalsOk capacity s) {cfg : Config} {events : List Event}
    {server : Server} (hpipe : s.PipeBatch events)
    (hstep : serverStep cfg s.server (.epollWait events) = some server) :
    SignalsOk capacity
      { s with
        server := server
        pipe := if .signal ∈ events then s.pipe.report else s.pipe } := by
  have hslots := serverStep_slotsOk h.slots hstep
  have htimers := serverStep_holds h.slots h.timers hstep
  have htimed := serverStep_timed h.slots h.timed hstep
  obtain _ | ⟨_, hphase, hbatch⟩ := serverStep_inv hstep
  have hnot : ¬ s.Reported := not_reported h.slots (by rw [hphase]; decide)
  have hwatched := h.watched
  have hticking := h.ticking
  rw [eq_false hnot] at hwatched
  rw [Ticking, eq_false hnot] at hticking
  exact {
    slots := hslots
    timers := htimers
    timed := htimed
    watched := by
      show SelfPipe.Watched capacity _ (.signal ∈ events)
      by_cases hmem : .signal ∈ events
      · rw [if_pos hmem, eq_true hmem]
        exact hwatched.report (hpipe.2 hmem).2
      · rw [if_neg hmem, eq_false hmem]
        exact hwatched
    once := hpipe.1
    ticking := by
      show s.server.stopServer = true ∨ ServerPhase.dispatching = .stopped ∨
        s.server.timeout = true ∨ s.deadline ≠ none ∨ SelfPipe.raised _ Sig.alarm = true ∨
        SelfPipe.Comes _ (.signal ∈ events)
      by_cases hmem : .signal ∈ events
      · rw [if_pos hmem]
        exact .inr (.inr (.inr (.inr (.inr ⟨(hpipe.2 hmem).2, .inr hmem⟩))))
      · rw [if_neg hmem, eq_false hmem]
        rw [hphase] at hticking
        exact hticking.imp_right (fun hs => hs.imp_left (fun hc => by cases hc))
    waiting := fun hwait => by cases hwait
    due := h.due
    after := h.after }

/-- Behind a batch with an alarm, `timer_handler` has set the next one. -/
theorem endBatch (h : SignalsOk capacity s) {cfg : Config} {server : Server}
    (hstep : serverStep cfg s.server .endBatch = some server) :
    SignalsOk capacity
      { s with
        server := server
        deadline := if s.server.timeout then some (s.server.clock + TIMESLOT)
          else s.deadline } := by
  have hslots := serverStep_slotsOk h.slots hstep
  have htimers := serverStep_holds h.slots h.timers hstep
  have htimed := serverStep_timed h.slots h.timed hstep
  have hafter : ∀ d, After s.server d → d ≤ s.server.clock + TIMESLOT → After server d :=
    fun d hd hle => serverStep_after h.slots hd hle hstep
  obtain _ | _ | _ | _ | _ | _ | _ | _ | _ | _ | ⟨hdispatch, hpending⟩ := serverStep_inv hstep
  obtain ⟨hclock, hphase, hnil, htimeout, hstop⟩ := endBatch_loop h.slots hpending
  have hnot : ¬ s.Reported := by
    show .signal ∉ s.server.pending
    rw [hpending]
    exact List.not_mem_nil
  have hreported : ∀ deadline, (⟨s.server.endBatch, deadline, s.pipe⟩ : SignalServer).Reported =
      s.Reported := by
    intro deadline
    show (.signal ∈ s.server.endBatch.pending) = (.signal ∈ s.server.pending)
    rw [hnil, hpending]
  exact {
    slots := hslots
    timers := htimers
    timed := htimed
    watched := by
      rw [hreported]
      exact h.watched
    once := by
      show s.server.endBatch.pending.count .signal ≤ 1
      rw [hnil]
      exact Nat.zero_le 1
    ticking := by
      rw [Ticking, hreported, hstop, hphase]
      by_cases hset : s.server.timeout = true
      · rw [if_pos hset]
        exact .inr (.inr (.inr (.inl (Option.some_ne_none _))))
      · rw [if_neg hset]
        rcases h.ticking with hs | hs | hs | hs
        · exact .inl hs
        · rw [hdispatch] at hs
          cases hs
        · exact absurd hs hset
        · exact .inr (.inr (.inr hs))
    waiting := by
      intro hwait
      change s.server.endBatch.phase = .waiting at hwait
      refine ⟨htimeout, ?_⟩
      show s.server.endBatch.stopServer = false
      rw [hstop]
      rw [hphase, nextPhase] at hwait
      split at hwait
      · cases hwait
      · rename_i hgo
        exact Bool.eq_false_iff.mpr hgo
    due := by
      intro d hd
      show s.server.endBatch.clock < d ∧ d ≤ s.server.endBatch.clock + TIMESLOT
      rw [hclock]
      by_cases hset : s.server.timeout = true
      · rw [if_pos hset] at hd
        cases hd
        rw [TIMESLOT]
        omega
      · rw [if_neg hset] at hd
        exact h.due d hd
    after := by
      intro d hd
      show After s.server.endBatch d
      by_cases hset : s.server.timeout = true
      · rw [if_pos hset] at hd
        cases hd
        exact endBatch_after h.slots h.timers hpending hset
      · rw [if_neg hset] at hd
        exact hafter d (h.after d hd) (h.due d hd).2 }

theorem epollFails (h : SignalsOk capacity s) {cfg : Config} {server : Server}
    (hstep : serverStep cfg s.server .epollFails = some server) :
    SignalsOk capacity { s with server := server } := by
  have hslots := serverStep_slotsOk h.slots hstep
  have htimers := serverStep_holds h.slots h.timers hstep
  have htimed := serverStep_timed h.slots h.timed hstep
  obtain _ | _ | _ := serverStep_inv hstep
  exact {
    slots := hslots
    timers := htimers
    timed := htimed
    watched := h.watched
    once := h.once
    ticking := .inr (.inl rfl)
    waiting := fun hwait => by cases hwait
    due := h.due
    after := h.after }

/-- A step that leaves the variables of the loop as they are. -/
theorem other (h : SignalsOk capacity s) {cfg : Config} {a : ServerAction} {server : Server}
    (ha : ¬ a.OfLoop) (hstep : serverStep cfg s.server a = some server) :
    SignalsOk capacity { s with server := server } := by
  have hsame := serverStep_sameLoop h.slots ha hstep
  have hreported := reported_eq hsame
  exact {
    slots := serverStep_slotsOk h.slots hstep
    timers := serverStep_holds h.slots h.timers hstep
    timed := serverStep_timed h.slots h.timed hstep
    watched := by
      rw [hreported]
      exact h.watched
    once := by
      show server.pending.count .signal ≤ 1
      rw [hsame.signals]
      exact h.once
    ticking := by
      rw [Ticking, hreported, hsame.stopServer, hsame.phase, hsame.timeout]
      exact h.ticking
    waiting := by
      show server.phase = .waiting → server.timeout = false ∧ server.stopServer = false
      rw [hsame.stopServer, hsame.phase, hsame.timeout]
      exact h.waiting
    due := by
      show ∀ d ∈ s.deadline, server.clock < d ∧ d ≤ server.clock + TIMESLOT
      rw [hsame.clock]
      exact h.due
    after := fun d hd => serverStep_after h.slots (h.after d hd) (h.due d hd).2 hstep }

end SignalsOk

theorem signalStep_ok {cfg : Config} {capacity : Nat} {s s' : SignalServer} {a : SignalAction}
    (hcap : 0 < capacity) (h : SignalsOk capacity s)
    (hstep : signalStep cfg capacity s a = some s') : SignalsOk capacity s' := by
  rcases signalStep_inv hstep with ⟨sig⟩ | ⟨sig, -⟩ | ⟨server, hs⟩ | ⟨seconds⟩ |
    ⟨events, server, hbatch, hs⟩ | ⟨server, hs⟩ | ⟨server, hs⟩ | ⟨a, server, ha, hs⟩
  case kill => exact h.kill sig
  case handler => exact h.handler hcap sig
  case recv => exact h.recv hs
  case advance => exact h.advance seconds
  case epollWait => exact h.epollWait hbatch hs
  case endBatch => exact h.endBatch hs
  case epollFails => exact h.epollFails hs
  case other => exact h.other ha hs

/-- Whatever signals come and however often, and whatever the connections do: when the loop
rests, an alarm is set that rings within one `TIMESLOT`, and no open connection has been idle
for four. -/
theorem always_onTime (cfg : Config) {capacity : Nat} (hcap : 0 < capacity)
    (as : List SignalAction) : Always (signalStep cfg capacity) OnTime startSignals as :=
  always_of_step (SignalsOk capacity) (fun _ _ _ h hstep => signalStep_ok hcap h hstep)
    (fun _ h => h.onTime) (startSignals_ok hcap) as

/-- A pipe with room for one byte, which is full when the alarm rings. -/
theorem always_onTime_full :
    Always (signalStep (mainConfig [0, 1, 2]) 1) OnTime startSignals
      [.kill .alarm, .handler .alarm, .server (.advance 5), .handler .alarm,
        .server (.epollWait [.signal]), .recvSignals, .server .endBatch] :=
  always_onTime (mainConfig [0, 1, 2]) (by decide)
    [.kill .alarm, .handler .alarm, .server (.advance 5), .handler .alarm,
      .server (.epollWait [.signal]), .recvSignals, .server .endBatch]

/-! ## A SIGTERM is not forgotten -/

/-- A handler that runs finds room in the pipe, and less in it than the loop reads at once. -/
def RoomToSend (capacity : Nat) (s : SignalServer) : SignalAction → Prop
  | .handler _ => s.pipe.bytes.length < capacity ∧ s.pipe.bytes.length < SIGNALS_LEN
  | _ => True

instance (capacity : Nat) (s : SignalServer) : ∀ a : SignalAction,
    Decidable (RoomToSend capacity s a)
  | .handler _ => inferInstanceAs (Decidable (_ ∧ _))
  | .kill _ | .recvSignals | .server _ => .isTrue trivial

/-- The server stops, or the loop will read the `SIGTERM`. -/
def Stopping (s : SignalServer) : Prop :=
  s.server.stopServer = true ∨ s.server.phase = .stopped ∨ s.pipe.OnItsWay s.Reported .term

/-- All that is in the pipe is read at once. -/
def ReadAtOnce (s : SignalServer) : Prop := s.pipe.bytes.length ≤ SIGNALS_LEN

theorem Stopping.not_resting {capacity : Nat} {s : SignalServer} (h : Stopping s)
    (hok : SignalsOk capacity s) : ¬ Resting s := by
  rintro ⟨hphase, hraised, hcomes⟩
  rcases h with hs | hs | hs | ⟨hmem, hread⟩
  · rw [(hok.waiting hphase).2] at hs
    cases hs
  · rw [hphase] at hs
    cases hs
  · rw [hraised] at hs
    cases hs
  · exact hcomes ⟨List.ne_nil_of_mem hmem, hread⟩

theorem signalStep_readAtOnce {cfg : Config} {capacity : Nat} {s s' : SignalServer}
    {a : SignalAction} (h : ReadAtOnce s) (hroom : RoomToSend capacity s a)
    (hstep : signalStep cfg capacity s a = some s') : ReadAtOnce s' := by
  rcases signalStep_inv hstep with ⟨sig⟩ | ⟨sig, -⟩ | ⟨server, hs⟩ | ⟨seconds⟩ |
    ⟨events, server, hbatch, hs⟩ | ⟨server, hs⟩ | ⟨server, hs⟩ | ⟨a, server, ha, hs⟩
  case handler =>
    show (s.pipe.handle capacity sig).bytes.length ≤ SIGNALS_LEN
    rw [SelfPipe.handle, if_pos hroom.1]
    show (s.pipe.bytes ++ [sig]).length ≤ SIGNALS_LEN
    rw [List.length_append, List.length_singleton]
    exact hroom.2
  case recv =>
    show (s.pipe.bytes.drop SIGNALS_LEN).length ≤ SIGNALS_LEN
    rw [List.length_drop]
    exact (Nat.sub_le _ _).trans h
  case advance =>
    rw [SignalServer.ring]
    split <;> exact h
  case epollWait =>
    show (if .signal ∈ events then s.pipe.report else s.pipe).bytes.length ≤ SIGNALS_LEN
    split <;> exact h
  all_goals exact h

theorem signalStep_stopping {cfg : Config} {capacity : Nat} {s s' : SignalServer}
    {a : SignalAction} (hok : SignalsOk capacity s) (hread : ReadAtOnce s) (h : Stopping s)
    (hroom : RoomToSend capacity s a) (hstep : signalStep cfg capacity s a = some s') :
    Stopping s' := by
  rcases signalStep_inv hstep with ⟨sig⟩ | ⟨sig, -⟩ | ⟨server, hs⟩ | ⟨seconds⟩ |
    ⟨events, server, hbatch, hs⟩ | ⟨server, hs⟩ | ⟨server, hs⟩ | ⟨a, server, ha, hs⟩
  case kill => exact h.imp_right (fun h => h.imp_right (fun h => h.raise sig))
  case handler => exact h.imp_right (fun h => h.imp_right (fun h => h.handle hroom.1 sig))
  case recv =>
    obtain _ | _ | _ | _ | _ | _ | ⟨rest, _, _, hpending⟩ := serverStep_inv hs
    rcases h with h | h | h
    · refine .inl ?_
      show (s.server.stopServer || decide (.term ∈ s.received)) = true
      rw [h, Bool.true_or]
    · exact .inr (.inl h)
    · rcases h.read hread with hraised | hmem
      · exact .inr (.inr (.inl hraised))
      · refine .inl ?_
        show (s.server.stopServer || decide (.term ∈ s.received)) = true
        rw [decide_eq_true (show Sig.term ∈ s.received from hmem), Bool.or_true]
  case advance =>
    rw [SignalServer.ring]
    split
    · exact h.imp_right (fun h => h.imp_right (fun h => h.raise .alarm))
    · exact h
  case epollWait =>
    obtain _ | ⟨_, hphase, -⟩ := serverStep_inv hs
    have hnot : ¬ s.Reported := not_reported hok.slots (by rw [hphase]; decide)
    rw [Stopping, eq_false hnot, hphase] at h
    rcases h with h | h | h
    · exact .inl h
    · cases h
    · refine .inr (.inr ?_)
      show SelfPipe.OnItsWay _ (.signal ∈ events) _
      by_cases hmem : .signal ∈ events
      · rw [if_pos hmem, eq_true hmem]
        exact h.report (fun _ => trivial)
      · rw [if_neg hmem, eq_false hmem]
        exact h
  case endBatch =>
    obtain _ | _ | _ | _ | _ | _ | _ | _ | _ | _ | ⟨hdispatch, hpending⟩ := serverStep_inv hs
    obtain ⟨-, hphase, hnil, -, hstop⟩ := endBatch_loop hok.slots hpending
    rcases h with h | h | h
    · exact .inl (hstop.trans h)
    · rw [hdispatch] at h
      cases h
    · refine .inr (.inr (h.mono ?_))
      show .signal ∈ s.server.pending → .signal ∈ s.server.endBatch.pending
      rw [hnil, hpending]
      exact id
  case epollFails =>
    obtain _ | _ | _ := serverStep_inv hs
    exact .inr (.inl rfl)
  case other =>
    have hsame := serverStep_sameLoop hok.slots ha hs
    rw [Stopping, reported_eq hsame, hsame.stopServer, hsame.phase]
    exact h

/-- When every handler finds room for its byte, and fewer than 1024 bytes that are not read, a
`SIGTERM` is not forgotten: from the time it is sent the loop never rests.  Behind 1024 bytes its
own byte would stay in the pipe, since the loop calls `recv` once for a report. -/
theorem always_not_resting_of_term {cfg : Config} {capacity : Nat} (hcap : 0 < capacity)
    (as bs : List SignalAction) {s : SignalServer}
    (hroom : AllSteps (signalStep cfg capacity) (RoomToSend capacity) startSignals
      (as ++ .kill .term :: bs))
    (hterm : exec (signalStep cfg capacity) startSignals as = some s) :
    Always (signalStep cfg capacity) (fun s => ¬ Resting s)
      { s with pipe := s.pipe.raise .term } bs := by
  have hinv : ∀ s a s', SignalsOk capacity s ∧ ReadAtOnce s → RoomToSend capacity s a →
      signalStep cfg capacity s a = some s' → SignalsOk capacity s' ∧ ReadAtOnce s' := by
    intro s a s' h hg hstep
    exact ⟨signalStep_ok hcap h.1 hstep, signalStep_readAtOnce h.2 hg hstep⟩
  have hs : SignalsOk capacity s ∧ ReadAtOnce s :=
    ((always_of_invariant _ _ hinv (fun _ h => h)
      ⟨startSignals_ok hcap, Nat.zero_le _⟩ hroom).drop hterm).head
  have hsent : Stopping { s with pipe := s.pipe.raise .term } :=
    .inr (.inr (.inl (s.pipe.raised_raise .term)))
  refine always_of_invariant (fun s => (SignalsOk capacity s ∧ ReadAtOnce s) ∧ Stopping s)
    (RoomToSend capacity) ?_ ?_ ⟨⟨hs.1.kill .term, hs.2⟩, hsent⟩ ?_
  · rintro s a s' ⟨h, hstopping⟩ hg hstep
    exact ⟨hinv s a s' h hg hstep, signalStep_stopping h.1 h.2 hstopping hg hstep⟩
  · exact fun s h => h.2.not_resting h.1.1
  · exact (hroom.drop hterm).2 _ rfl

/-- A `SIGTERM` that comes while the loop handles an alarm. -/
theorem always_not_resting_of_term_busy :
    ∃ s, exec (signalStep (mainConfig [0, 1, 2]) 2) startSignals
        [.server (.advance 5), .handler .alarm, .server (.epollWait [.signal])] = some s ∧
      Always (signalStep (mainConfig [0, 1, 2]) 2) (fun s => ¬ Resting s)
        { s with pipe := s.pipe.raise .term }
        [.recvSignals, .handler .term, .server .endBatch, .server (.epollWait [.signal]),
          .recvSignals, .server .endBatch] :=
  ⟨_, rfl, always_not_resting_of_term (by decide)
    [.server (.advance 5), .handler .alarm, .server (.epollWait [.signal])] _
    (by decide) rfl⟩

end EasyWebServer.Post
