import Mathlib.Data.List.AList
import EasyWebServer.Lib.Transition
import EasyWebServer.Post.HeapTimer
import EasyWebServer.Post.Process

/-!
# The server

The main loop, the worker threads and the timers around the connections.

`Server` is the state they share: the open client descriptors, what epoll is
armed for, the slots `users[fd]` and `users_timer[fd]`, the timer heap and the
work queue.  A step (`ServerAction`) is one of:

* the main loop waits in `epoll_wait`, handles one event of the batch it has
  got (of a listening event, one call of `accept`), or ends the batch;
* a worker takes a request from the queue, or runs `process` for it;
* the clock advances.

What a socket or a handler answers belongs to the action.  `Server` also
records what the program does not: which connection a descriptor is open for
(`fds`), when a connection was last active, and the callbacks of `tick`
(`calls`).
-/

namespace EasyWebServer.Post

/-! ## The state -/

/-- `TIMESLOT`. -/
def TIMESLOT : Nat := 5

/-- `MAX_FD`. -/
def MAX_FD : Nat := 65536

/-- `MAX_EVENT_NUMBER`. -/
def MAX_EVENT_NUMBER : Nat := 10000

/-- What is fixed during a run: the descriptors of the server itself, and the
arguments of the constructor of `threadpool`. -/
structure Config where
  reserved : List Nat
  threadNumber : Nat
  maxRequests : Nat

/-- What `main` chooses: the default arguments of `threadpool`. -/
def mainConfig (reserved : List Nat) : Config := ⟨reserved, 8, 10000⟩

/-- The three branches of the loop for a client descriptor. -/
inductive EventKind where
  /-- `EPOLLRDHUP`, `EPOLLHUP` or `EPOLLERR`. -/
  | hangup
  /-- `EPOLLIN`. -/
  | input
  /-- `EPOLLOUT`. -/
  | output
  deriving DecidableEq, Repr

/-- An entry of `events`. -/
inductive Event where
  /-- `listenfd`. -/
  | listen
  /-- `pipefd[0]`. -/
  | signal
  | client (fd : Nat) (kind : EventKind)
  deriving DecidableEq, Repr

/-- The client descriptor of an event. -/
def Event.fd? : Event → Option Nat
  | .client fd _ => some fd
  | _ => none

/-- `users[fd]` and `users_timer[fd]`: `m_sockfd`, with `none` for `-1`, the
descriptor of the `client_data`, and its timer. -/
structure Slot where
  sockfd : Option Nat
  timerSockfd : Nat
  timer : Option Nat

/-- Where the main loop is. -/
inductive ServerPhase where
  /-- At `epoll_wait`. -/
  | waiting
  /-- In the loop over `events`. -/
  | dispatching
  /-- Behind the loop. -/
  | stopped
  /-- A dead timer was used, or `reserve` threw. -/
  | crashed
  deriving DecidableEq, Repr

/-- A call of `cb_func` by `tick`: the connection the timer was created for, the
connection that its descriptor is open for, and the seconds since the timer's
connection was last active. -/
structure CbCall where
  conn : Nat
  owner : Option Nat
  idle : Nat
  deriving DecidableEq, Repr

/-- The state of the server. -/
structure Server where
  clock : Nat
  phase : ServerPhase
  /-- The events of the batch that are still to be handled. -/
  pending : List Event
  timeout : Bool
  stopServer : Bool
  /-- The open client descriptors, and the connection of each. -/
  fds : AList (fun _ : Nat => Nat)
  armed : Nat → Option Interest
  slots : Nat → Slot
  userCount : Int
  timers : HeapTimer
  workqueue : List Nat
  /-- The slots that workers have taken from the queue. -/
  processing : List Nat
  nextConn : Nat
  lastActive : Nat → Nat
  calls : List CbCall

/-- The server before its first `epoll_wait`. -/
def startServer : Server where
  clock := 0
  phase := .waiting
  pending := []
  timeout := false
  stopServer := false
  fds := ∅
  armed := fun _ => none
  slots := fun _ => ⟨none, 0, none⟩
  userCount := 0
  timers := .empty
  workqueue := []
  processing := []
  nextConn := 0
  lastActive := fun _ => 0
  calls := []

namespace Server

/-- The threads run. -/
def Running (s : Server) : Prop := s.phase = .waiting ∨ s.phase = .dispatching

instance (s : Server) : Decidable s.Running := inferInstanceAs (Decidable (_ ∨ _))

/-- The client descriptors of the events that are still to be handled. -/
def pendingFds (s : Server) : List Nat := s.pending.filterMap Event.fd?

/-- The descriptors in use. -/
def usedFds (cfg : Config) (s : Server) : List Nat := cfg.reserved ++ s.fds.keys

/-- The lowest descriptor that is not in use, which `accept` returns. -/
def lowestFree (cfg : Config) (s : Server) : Nat :=
  ((List.range ((s.usedFds cfg).length + 1)).find?
    (fun fd => decide (fd ∉ s.usedFds cfg))).getD 0

/-! ## The operations -/

/-- `close(fd)`: epoll forgets the descriptor. -/
def close (s : Server) (fd : Nat) : Server :=
  { s with
    fds := s.fds.erase fd
    armed := Function.update s.armed fd none }

/-- `EPOLL_CTL_MOD` on a descriptor, which fails when it is not open. -/
def arm (s : Server) (fd : Nat) (ev : Interest) : Server :=
  if fd ∈ s.fds then { s with armed := Function.update s.armed fd (some ev) } else s

/-- `close_conn` of the slot `fd`, whose `m_sockfd` is `g`. -/
def closeConn (s : Server) (fd g : Nat) : Server :=
  { s.close g with
    slots := Function.update s.slots fd { s.slots fd with sockfd := none }
    userCount := s.userCount - 1 }

/-- A call on the socket of the slot `fd`. -/
def sockOp (fd : Nat) (s : Server) : SockOp → Server
  | .modfd ev =>
      match (s.slots fd).sockfd with
      | none => s
      | some g => s.arm g ev
  | .closeConn =>
      match (s.slots fd).sockfd with
      | none => s
      | some g => s.closeConn fd g

/-- The calls on the socket of the slot `fd`, in order. -/
def sockOps (s : Server) (fd : Nat) (ops : List SockOp) : Server :=
  ops.foldl (sockOp fd) s

/-- `cb_func(&users_timer[fd])`. -/
def cbFunc (s : Server) (fd : Nat) : Server :=
  { s.close (s.slots fd).timerSockfd with userCount := s.userCount - 1 }

/-- The branch of `accept` for a connection that is admitted: `init`, and its
timer. -/
def newConn (s : Server) (connfd : Nat) : Server :=
  let timers := s.timers.alloc ⟨s.clock + 3 * TIMESLOT, connfd, s.nextConn⟩
  { s with
    fds := s.fds.insert connfd s.nextConn
    armed := Function.update s.armed connfd (some .input)
    slots := Function.update s.slots connfd ⟨some connfd, connfd, some s.timers.next⟩
    userCount := s.userCount + 1
    timers := timers.addTimer s.timers.next
    nextConn := s.nextConn + 1
    lastActive := Function.update s.lastActive s.nextConn s.clock }

/-- `threadpool::append`. -/
def append (cfg : Config) (s : Server) (fd : Nat) : Bool × Server :=
  if cfg.maxRequests < s.workqueue.length then (false, s)
  else (true, { s with workqueue := s.workqueue ++ [fd] })

/-- The program has crashed. -/
def crash (s : Server) : Server := { s with phase := .crashed }

/-- The timer moves by three slots, after a read or a write of the slot `fd` that
succeeded. -/
def renewTimer (s : Server) (fd : Nat) : Server :=
  match (s.slots fd).timer with
  | none => s
  | some t =>
      match (s.timers.setExpire t (s.clock + 3 * TIMESLOT)).bind
          (fun h => h.adjustTimer t) with
      | none => s.crash
      | some timers => { s with timers := timers }

/-- The connection on the descriptor was active. -/
def touch (s : Server) (fd : Nat) : Server :=
  match s.fds.lookup fd with
  | none => s
  | some conn => { s with lastActive := Function.update s.lastActive conn s.clock }

/-- The main loop closes the connection of an event: `timer->cb_func`, and
`del_timer(timer)`. -/
def closeEvent (s : Server) (fd : Nat) : Server :=
  match (s.slots fd).timer with
  | none => s.crash
  | some t =>
      match s.timers.objs t with
      | none => s.crash
      | some _ =>
          match s.timers.delTimer t with
          | none => (s.cbFunc fd).crash
          | some timers => { s.cbFunc fd with timers := timers }

/-- The `EPOLLIN` branch, for an answer of `read_once`. -/
def handleInput (cfg : Config) (s : Server) (fd : Nat) (ok : Bool) : Server :=
  if ok then (((s.append cfg fd).2).touch fd).renewTimer fd
  else s.closeEvent fd

/-- The `EPOLLOUT` branch, for an end of `write`. -/
def handleOutput (s : Server) (fd : Nat) (exit : WriteExit) : Server :=
  let s := s.sockOps fd exit.ops
  if exit.result then (s.touch fd).renewTimer fd else s.closeEvent fd

/-- One round of `tick`, for the timer on top, whose object is `u`. -/
def expireTop (s : Server) (t : Nat) (u : UtilTimer) : Server :=
  let call : CbCall :=
    ⟨u.conn, s.fds.lookup (s.slots u.userData).timerSockfd, s.clock - s.lastActive u.conn⟩
  { s.cbFunc u.userData with
    timers := s.timers.popTop.free t
    calls := s.calls ++ [call] }

/-- `tick`: the length of the queue is enough fuel. -/
def tickLoop : Nat → Server → Server
  | 0, s => s
  | fuel + 1, s =>
      match s.timers.pq with
      | [] => s
      | t :: _ =>
          match s.timers.objs t with
          | none => s.crash
          | some u =>
              if u.expire ≤ s.clock then tickLoop fuel (s.expireTop t u) else s

/-- `tick`. -/
def tick (s : Server) : Server := tickLoop s.timers.pq.length s

/-- Where the main loop goes behind a batch. -/
def nextPhase (s : Server) : ServerPhase := if s.stopServer then .stopped else .waiting

/-- The end of a batch: `timer_handler` after a `SIGALRM`, and back to
`epoll_wait` unless the server stops. -/
def endBatch (s : Server) : Server :=
  if s.timeout then tick { s with phase := s.nextPhase, timeout := false }
  else { s with phase := s.nextPhase }

/-! ## The steps -/

/-- Epoll can report the event. -/
def Reportable (s : Server) : Event → Prop
  | .client fd .hangup => s.armed fd ≠ none
  | .client fd .input => s.armed fd = some .input
  | .client fd .output => s.armed fd = some .output
  | _ => True

instance (s : Server) : ∀ e : Event, Decidable (s.Reportable e)
  | .client _ .hangup => inferInstanceAs (Decidable (_ ≠ _))
  | .client _ .input => inferInstanceAs (Decidable (_ = _))
  | .client _ .output => inferInstanceAs (Decidable (_ = _))
  | .listen => .isTrue trivial
  | .signal => .isTrue trivial

/-- A batch that `epoll_wait` can return: a descriptor is reported once. -/
structure Batch (s : Server) (events : List Event) : Prop where
  length : events.length ≤ MAX_EVENT_NUMBER
  reportable : ∀ e ∈ events, s.Reportable e
  nodup : (events.filterMap Event.fd?).Nodup

instance (s : Server) (events : List Event) : Decidable (s.Batch events) :=
  haveI : Decidable (∀ e ∈ events, s.Reportable e) := List.decidableBAll _ _
  decidable_of_iff
    (events.length ≤ MAX_EVENT_NUMBER ∧ (∀ e ∈ events, s.Reportable e) ∧
      (events.filterMap Event.fd?).Nodup)
    ⟨fun h => ⟨h.1, h.2.1, h.2.2⟩, fun h => ⟨h.length, h.reportable, h.nodup⟩⟩

/-- `EPOLLONESHOT`: what is reported is not armed any more. -/
def deliver (s : Server) (events : List Event) : Server :=
  { s with
    phase := .dispatching
    pending := events
    armed := fun fd => if fd ∈ events.filterMap Event.fd? then none else s.armed fd }

end Server

/-- A step of the server. -/
inductive ServerAction where
  /-- Time passes. -/
  | advance (seconds : Nat)
  /-- `epoll_wait` returns these events, or none after `EINTR`. -/
  | epollWait (events : List Event)
  /-- `epoll_wait` fails. -/
  | epollFails
  /-- `accept` returns a descriptor. -/
  | accept
  /-- `accept` returns `-1`. -/
  | acceptFails
  /-- The signals read from the pipe contain `SIGALRM`, and `SIGTERM`. -/
  | signals (alarm term : Bool)
  /-- The peer has hung up. -/
  | hangup
  /-- A read event, for which `read_once` gives this answer. -/
  | readOnce (ok : Bool)
  /-- A write event, for which `write` ends so. -/
  | write (exit : WriteExit)
  /-- The batch is handled. -/
  | endBatch
  /-- A worker takes a request from the queue. -/
  | take
  /-- A worker runs `process` for the slot, with this code of `process_read` and
  this answer of `process_write`. -/
  | process (fd : Nat) (code : HttpCode) (writeRet : Bool)
  deriving DecidableEq, Repr

open Server in
/-- One step.  The actions on an event take the first of the batch; a call of
`accept` that admits a connection leaves it, since `accept` is called again. -/
def serverStep (cfg : Config) (s : Server) : ServerAction → Option Server
  | .advance seconds => some { s with clock := s.clock + seconds }
  | .epollWait events =>
      if s.phase = .waiting ∧ s.Batch events then some (s.deliver events) else none
  | .epollFails =>
      if s.phase = .waiting then some { s with phase := .stopped } else none
  | .accept =>
      match s.phase, s.pending with
      | .dispatching, .listen :: rest =>
          if (MAX_FD : Int) ≤ s.userCount then some { s with pending := rest }
          else some (s.newConn (s.lowestFree cfg))
      | _, _ => none
  | .acceptFails =>
      match s.phase, s.pending with
      | .dispatching, .listen :: rest => some { s with pending := rest }
      | _, _ => none
  | .signals alarm term =>
      match s.phase, s.pending with
      | .dispatching, .signal :: rest =>
          some { s with
            pending := rest
            timeout := s.timeout || alarm
            stopServer := s.stopServer || term }
      | _, _ => none
  | .hangup =>
      match s.phase, s.pending with
      | .dispatching, .client fd .hangup :: rest =>
          some ({ s with pending := rest }.closeEvent fd)
      | _, _ => none
  | .readOnce ok =>
      match s.phase, s.pending with
      | .dispatching, .client fd .input :: rest =>
          some ({ s with pending := rest }.handleInput cfg fd ok)
      | _, _ => none
  | .write exit =>
      match s.phase, s.pending with
      | .dispatching, .client fd .output :: rest =>
          some ({ s with pending := rest }.handleOutput fd exit)
      | _, _ => none
  | .endBatch =>
      match s.phase, s.pending with
      | .dispatching, [] => some s.endBatch
      | _, _ => none
  | .take =>
      match s.workqueue with
      | [] => none
      | fd :: rest =>
          if s.Running ∧ s.processing.length < cfg.threadNumber then
            some { s with workqueue := rest, processing := s.processing ++ [fd] }
          else none
  | .process fd code writeRet =>
      if s.Running ∧ fd ∈ s.processing then
        some ({ s with processing := s.processing.erase fd }.sockOps fd
          (processOps code writeRet))
      else none

end EasyWebServer.Post
