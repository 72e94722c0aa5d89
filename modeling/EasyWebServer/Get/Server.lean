import Mathlib.Data.List.AList
import EasyWebServer.Lib.Transition
import EasyWebServer.Post.Server
import EasyWebServer.Get.Response

/-!
# The GET server

The main loop of `GET-WebServer/src/main.cpp` and the worker threads, with the calls that
they make on descriptors as steps of their own.

`Sockets` is what the threads share: the open client descriptors, the interest list of
epoll, `m_sockfd` of every slot and `m_user_count`.  A thread is a `Task`, what it has still
to do on a socket.  `taskStep` runs the next step of a task: the three steps of `init`, or
one of the four of `close_conn` (the test of `m_sockfd`, `removefd`, the store of `-1` and
the decrement), or a `modfd`.

A step of the server (`ServerAction`) is one of:

* the main loop waits in `epoll_wait`, takes an event of its batch, or ends the batch;
* a worker takes a request from the queue, or comes to the end of `process_read` and
  `process_write`;
* the main thread or a worker takes the next step of its task.

`Sockets` also records what the program does not: which connection a descriptor is open for,
and the calls that reach one (`SockCall`).
-/

namespace EasyWebServer.Get

open Post (WriteExit Interest SockOp EventKind processOps processOps_answer)

/-! ## process -/

/-- `process`, and the calls that it makes on the socket. -/
def process (w : World) (c : HttpConn) : Except Fault (List SockOp × HttpConn) :=
  match processRead w c with
  | .error f => .error f
  | .ok (.noRequest, c) => .ok ([.modfd .input], c)
  | .ok (code, c) =>
      let r := processWrite c code
      .ok ((if r.1 then [] else [.closeConn]) ++ [.modfd .output], r.2)

/-- The calls of `process` are those for its code and its answer. -/
theorem process_ops {w : World} {c c' : HttpConn} {ops : List SockOp}
    (h : process w c = .ok (ops, c')) : ∃ code writeRet, ops = processOps code writeRet := by
  rw [process] at h
  split at h
  · cases h
  · cases h
    exact ⟨.noRequest, true, rfl⟩
  · rename_i code d hne hread
    have hne' : code ≠ .noRequest := fun hno => hne hno
    simp only [Except.ok.injEq, Prod.mk.injEq] at h
    obtain ⟨rfl, -⟩ := h
    exact ⟨code, (processWrite d code).1, (processOps_answer hne' _).symm⟩

/-! ## Sockets -/

/-- A call that closes a descriptor or arms it: the connection that it is meant for, and the
connection that the descriptor is open for. -/
structure SockCall where
  conn : Option Nat
  owner : Option Nat
  deriving DecidableEq, Repr

/-- A pointer to the slot `users[fd]`, and the connection that it was made for. -/
structure Request where
  fd : Nat
  conn : Option Nat
  deriving DecidableEq, Repr

/-- What the threads share.  `epoll` says whether a descriptor is registered, and what it
is armed for; `sockfd` is `m_sockfd`, with `none` for `-1`. -/
structure Sockets where
  fds : AList (fun _ : Nat => Nat)
  epoll : Nat → Option (Option Interest)
  sockfd : Nat → Option Nat
  userCount : Int
  nextConn : Nat
  calls : List SockCall

namespace Sockets

/-- `close(fd)`: epoll forgets the descriptor. -/
def close (k : Sockets) (fd : Nat) : Sockets :=
  { k with
    fds := k.fds.erase fd
    epoll := Function.update k.epoll fd none }

/-- A call for the request has reached the descriptor `g`. -/
def record (k : Sockets) (r : Request) (g : Nat) : Sockets :=
  { k with calls := k.calls ++ [⟨r.conn, k.fds.lookup g⟩] }

/-- `modfd` on `m_sockfd`, which fails when it is not registered. -/
def modfd (k : Sockets) (r : Request) (ev : Interest) : Sockets :=
  match k.sockfd r.fd with
  | none => k
  | some g =>
      if k.epoll g = none then k
      else { k.record r g with epoll := Function.update k.epoll g (some (some ev)) }

/-- `removefd` on `m_sockfd`, which fails when it is not open. -/
def removefd (k : Sockets) (r : Request) : Sockets :=
  match k.sockfd r.fd with
  | none => k
  | some g => if g ∈ k.fds then (k.record r g).close g else k

/-- `addfd` with `EPOLLONESHOT`. -/
def addfd (k : Sockets) (fd : Nat) : Sockets :=
  if fd ∈ k.fds ∧ k.epoll fd = none then
    { k with epoll := Function.update k.epoll fd (some (some .input)) }
  else k

/-- A store to `m_sockfd` of the slot `fd`. -/
def setSockfd (k : Sockets) (fd : Nat) (value : Option Nat) : Sockets :=
  { k with sockfd := Function.update k.sockfd fd value }

/-- `accept` returns a descriptor. -/
def accept (k : Sockets) (fd : Nat) : Sockets :=
  { k with
    fds := k.fds.insert fd k.nextConn
    nextConn := k.nextConn + 1 }

/-- `EPOLLONESHOT`: what is reported is not armed any more. -/
def report (k : Sockets) (reported : List Nat) : Sockets :=
  { k with epoll := fun fd => if fd ∈ reported then some none else k.epoll fd }

end Sockets

/-! ## Tasks -/

/-- Where `close_conn` is, behind its test. -/
inductive CloseStep where
  /-- At `removefd`. -/
  | remove
  /-- At `m_sockfd = -1`. -/
  | clear
  /-- At `m_user_count--`. -/
  | decrement
  deriving DecidableEq, Repr

/-- What a thread has still to do on a socket. -/
inductive Task where
  | idle
  /-- `init`, at `m_sockfd = sockfd`. -/
  | assign (fd : Nat)
  /-- `init`, at `addfd`. -/
  | register (fd : Nat)
  /-- `init`, at `m_user_count++`. -/
  | count (fd : Nat)
  /-- `show_error`, at `close`. -/
  | refuse (fd : Nat)
  /-- `process`, before its first call on the socket. -/
  | process (r : Request)
  /-- At the first of these calls. -/
  | calls (r : Request) (ops : List SockOp)
  /-- In `close_conn`, with these calls behind it. -/
  | closing (r : Request) (step : CloseStep) (ops : List SockOp)
  deriving DecidableEq, Repr

/-- The next step of a task. -/
def taskStep (k : Sockets) : Task → Option (Sockets × Task)
  | .idle => none
  | .assign fd => some (k.setSockfd fd (some fd), .register fd)
  | .register fd => some (k.addfd fd, .count fd)
  | .count _ => some ({ k with userCount := k.userCount + 1 }, .idle)
  | .refuse fd => some (k.close fd, .idle)
  | .process _ => none
  | .calls _ [] => some (k, .idle)
  | .calls r (.modfd ev :: ops) => some (k.modfd r ev, .calls r ops)
  | .calls r (.closeConn :: ops) =>
      if k.sockfd r.fd = none then some (k, .calls r ops)
      else some (k, .closing r .remove ops)
  | .closing r .remove ops => some (k.removefd r, .closing r .clear ops)
  | .closing r .clear ops => some (k.setSockfd r.fd none, .closing r .decrement ops)
  | .closing r .decrement ops =>
      some ({ k with userCount := k.userCount - 1 }, .calls r ops)

/-! ## The server -/

/-- `MAX_FD`. -/
def MAX_FD : Nat := 65536

/-- `MAX_EVENT_NUMBER`. -/
def MAX_EVENT_NUMBER : Nat := 10000

/-- What is fixed during a run: the descriptors of the server itself, and the arguments of
the constructor of `threadpool`. -/
structure Config where
  reserved : List Nat
  threadNumber : Nat
  maxRequests : Nat

/-- An entry of `events`. -/
inductive Event where
  /-- `listenfd`. -/
  | listen
  | client (fd : Nat) (kind : EventKind)
  deriving DecidableEq, Repr

/-- The client descriptor of an event. -/
def Event.fd? : Event → Option Nat
  | .listen => none
  | .client fd _ => some fd

/-- Where the main loop is. -/
inductive LoopPhase where
  /-- At `epoll_wait`. -/
  | waiting
  /-- In the loop over `events`. -/
  | dispatching
  /-- Behind the loop. -/
  | stopped
  deriving DecidableEq, Repr

/-- The state of the server. -/
structure Server where
  phase : LoopPhase
  /-- The events of the batch that are still to be handled. -/
  pending : List Event
  sockets : Sockets
  main : Task
  workqueue : List Request
  workers : List Task

/-- The server before its first `epoll_wait`.  The constructor of `http_conn` sets no
`m_sockfd`. -/
def startServer (cfg : Config) (sockfd : Nat → Option Nat) : Server where
  phase := .waiting
  pending := []
  sockets := ⟨∅, fun _ => none, sockfd, 0, 0, []⟩
  main := .idle
  workqueue := []
  workers := List.replicate cfg.threadNumber .idle

namespace Server

/-- A request for the slot `fd`, on behalf of the connection that the descriptor is open
for. -/
def request (s : Server) (fd : Nat) : Request := ⟨fd, s.sockets.fds.lookup fd⟩

/-- Epoll can report the event. -/
def Reportable (s : Server) : Event → Prop
  | .listen => True
  | .client fd .hangup => ∃ ev ∈ [Interest.input, .output], s.sockets.epoll fd = some (some ev)
  | .client fd .input => s.sockets.epoll fd = some (some .input)
  | .client fd .output => s.sockets.epoll fd = some (some .output)

instance (s : Server) (e : Event) : Decidable (s.Reportable e) := by
  unfold Reportable
  split <;> infer_instance

/-- A batch that `epoll_wait` can return: a descriptor is reported once. -/
structure Batch (s : Server) (events : List Event) : Prop where
  length : events.length ≤ MAX_EVENT_NUMBER
  reportable : ∀ e ∈ events, s.Reportable e
  nodup : (events.filterMap Event.fd?).Nodup

instance (s : Server) (events : List Event) : Decidable (s.Batch events) :=
  decidable_of_iff
    (events.length ≤ MAX_EVENT_NUMBER ∧ (∀ e ∈ events, s.Reportable e) ∧
      (events.filterMap Event.fd?).Nodup)
    ⟨fun h => ⟨h.1, h.2.1, h.2.2⟩, fun h => ⟨h.length, h.reportable, h.nodup⟩⟩

/-- `threadpool::append`. -/
def append (cfg : Config) (s : Server) (fd : Nat) : Server :=
  if cfg.maxRequests < s.workqueue.length then s
  else { s with workqueue := s.workqueue ++ [s.request fd] }

/-- The main thread takes the first event of the batch, and has these calls to make. -/
def take (s : Server) (rest : List Event) (fd : Nat) (ops : List SockOp) : Server :=
  { s with pending := rest, main := .calls (s.request fd) ops }

end Server

/-- A step of the server. -/
inductive ServerAction where
  /-- `epoll_wait` returns these events, or none after `EINTR`. -/
  | epollWait (events : List Event)
  /-- `epoll_wait` fails. -/
  | epollFails
  /-- `accept` returns this descriptor. -/
  | accept (fd : Nat)
  /-- `accept` returns `-1`. -/
  | acceptFails
  /-- The peer has hung up. -/
  | hangup
  /-- A read event, for which `read` gives this answer. -/
  | read (ok : Bool)
  /-- A write event, for which `write` ends so. -/
  | write (exit : WriteExit)
  /-- The batch is handled. -/
  | endBatch
  /-- The main thread takes the next step of its task. -/
  | main
  /-- The worker `i` takes a request from the queue. -/
  | take (i : Nat)
  /-- The worker `i` has run `process_read`, with this code, and `process_write`, with this
  answer. -/
  | process (i : Nat) (code : HttpCode) (writeRet : Bool)
  /-- The worker `i` takes the next step of its task. -/
  | worker (i : Nat)
  deriving DecidableEq, Repr

open Server in
/-- One step.  The actions on an event take the first of the batch. -/
def serverStep (cfg : Config) (s : Server) : ServerAction → Option Server
  | .epollWait events =>
      if s.phase = .waiting ∧ s.Batch events then
        some { s with
          phase := .dispatching
          pending := events
          sockets := s.sockets.report (events.filterMap Event.fd?) }
      else none
  | .epollFails => if s.phase = .waiting then some { s with phase := .stopped } else none
  | .accept fd =>
      match s.main, s.pending with
      | .idle, .listen :: rest =>
          if fd ∉ cfg.reserved ∧ fd ∉ s.sockets.fds then
            some { s with
              pending := rest
              sockets := s.sockets.accept fd
              main := if (MAX_FD : Int) ≤ s.sockets.userCount then .refuse fd else .assign fd }
          else none
      | _, _ => none
  | .acceptFails =>
      match s.main, s.pending with
      | .idle, .listen :: rest => some { s with pending := rest }
      | _, _ => none
  | .hangup =>
      match s.main, s.pending with
      | .idle, .client fd .hangup :: rest => some (s.take rest fd [.closeConn])
      | _, _ => none
  | .read ok =>
      match s.main, s.pending with
      | .idle, .client fd .input :: rest =>
          if ok then some ({ s with pending := rest }.append cfg fd)
          else some (s.take rest fd [.closeConn])
      | _, _ => none
  | .write exit =>
      match s.main, s.pending with
      | .idle, .client fd .output :: rest =>
          some (s.take rest fd (exit.ops ++ if exit.result then [] else [.closeConn]))
      | _, _ => none
  | .endBatch =>
      if s.phase = .dispatching ∧ s.main = .idle ∧ s.pending = [] then
        some { s with phase := .waiting }
      else none
  | .main =>
      (taskStep s.sockets s.main).map fun next =>
        { s with sockets := next.1, main := next.2 }
  | .take i =>
      match s.workers[i]?, s.workqueue with
      | some .idle, r :: rest =>
          some { s with workqueue := rest, workers := s.workers.set i (.process r) }
      | _, _ => none
  | .process i code writeRet =>
      match s.workers[i]? with
      | some (.process r) =>
          some { s with workers := s.workers.set i (.calls r (processOps code writeRet)) }
      | _ => none
  | .worker i =>
      match s.workers[i]? with
      | some t =>
          (taskStep s.sockets t).map fun next =>
            { s with sockets := next.1, workers := s.workers.set i next.2 }
      | none => none

open Server in
/-- What a step does. -/
inductive ServerMove (cfg : Config) (s : Server) : ServerAction → Server → Prop where
  | epollWait (events : List Event) (hphase : s.phase = .waiting) (hbatch : s.Batch events) :
      ServerMove cfg s (.epollWait events)
        { s with
          phase := .dispatching
          pending := events
          sockets := s.sockets.report (events.filterMap Event.fd?) }
  | epollFails (hphase : s.phase = .waiting) :
      ServerMove cfg s .epollFails { s with phase := .stopped }
  | accept (fd : Nat) (rest : List Event) (hmain : s.main = .idle)
      (hpending : s.pending = .listen :: rest) (hreserved : fd ∉ cfg.reserved)
      (hclosed : fd ∉ s.sockets.fds) :
      ServerMove cfg s (.accept fd)
        { s with
          pending := rest
          sockets := s.sockets.accept fd
          main := if (MAX_FD : Int) ≤ s.sockets.userCount then .refuse fd else .assign fd }
  | acceptFails (rest : List Event) (hmain : s.main = .idle)
      (hpending : s.pending = .listen :: rest) :
      ServerMove cfg s .acceptFails { s with pending := rest }
  | hangup (fd : Nat) (rest : List Event) (hmain : s.main = .idle)
      (hpending : s.pending = .client fd .hangup :: rest) :
      ServerMove cfg s .hangup (s.take rest fd [.closeConn])
  | append (fd : Nat) (rest : List Event) (hmain : s.main = .idle)
      (hpending : s.pending = .client fd .input :: rest) :
      ServerMove cfg s (.read true) ({ s with pending := rest }.append cfg fd)
  | readFails (fd : Nat) (rest : List Event) (hmain : s.main = .idle)
      (hpending : s.pending = .client fd .input :: rest) :
      ServerMove cfg s (.read false) (s.take rest fd [.closeConn])
  | write (fd : Nat) (rest : List Event) (exit : WriteExit) (hmain : s.main = .idle)
      (hpending : s.pending = .client fd .output :: rest) :
      ServerMove cfg s (.write exit)
        (s.take rest fd (exit.ops ++ if exit.result then [] else [.closeConn]))
  | endBatch (hphase : s.phase = .dispatching) (hmain : s.main = .idle)
      (hpending : s.pending = []) :
      ServerMove cfg s .endBatch { s with phase := .waiting }
  | main (k : Sockets) (t : Task) (htask : taskStep s.sockets s.main = some (k, t)) :
      ServerMove cfg s .main { s with sockets := k, main := t }
  | take (i : Nat) (r : Request) (rest : List Request) (hi : s.workers[i]? = some .idle)
      (hqueue : s.workqueue = r :: rest) :
      ServerMove cfg s (.take i)
        { s with workqueue := rest, workers := s.workers.set i (.process r) }
  | process (i : Nat) (r : Request) (code : HttpCode) (writeRet : Bool)
      (hi : s.workers[i]? = some (.process r)) :
      ServerMove cfg s (.process i code writeRet)
        { s with workers := s.workers.set i (.calls r (processOps code writeRet)) }
  | worker (i : Nat) (t : Task) (k : Sockets) (t' : Task) (hi : s.workers[i]? = some t)
      (htask : taskStep s.sockets t = some (k, t')) :
      ServerMove cfg s (.worker i) { s with sockets := k, workers := s.workers.set i t' }

theorem serverStep_inv {cfg : Config} {s s' : Server} {a : ServerAction}
    (h : serverStep cfg s a = some s') : ServerMove cfg s a s' := by
  cases a with
  | epollWait events =>
    rw [serverStep] at h
    split_ifs at h with hready
    cases h
    exact .epollWait events hready.1 hready.2
  | epollFails =>
    rw [serverStep] at h
    split_ifs at h with hphase
    cases h
    exact .epollFails hphase
  | accept fd =>
    rw [serverStep] at h
    split at h
    · rename_i rest hmain hpending
      obtain ⟨hready, hs⟩ := Option.ite_none_right_eq_some.mp h
      cases hs
      exact .accept fd rest hmain hpending hready.1 hready.2
    · cases h
  | acceptFails =>
    rw [serverStep] at h
    split at h
    · rename_i rest hmain hpending
      cases h
      exact .acceptFails rest hmain hpending
    · cases h
  | hangup =>
    rw [serverStep] at h
    split at h
    · rename_i fd rest hmain hpending
      cases h
      exact .hangup fd rest hmain hpending
    · cases h
  | read ok =>
    rw [serverStep] at h
    split at h
    · rename_i fd rest hmain hpending
      cases ok with
      | true =>
        cases h
        exact .append fd rest hmain hpending
      | false =>
        cases h
        exact .readFails fd rest hmain hpending
    · cases h
  | write exit =>
    rw [serverStep] at h
    split at h
    · rename_i fd rest hmain hpending
      cases h
      exact .write fd rest exit hmain hpending
    · cases h
  | endBatch =>
    rw [serverStep] at h
    split_ifs at h with hready
    cases h
    exact .endBatch hready.1 hready.2.1 hready.2.2
  | main =>
    obtain ⟨⟨k, t⟩, htask, rfl⟩ := Option.map_eq_some_iff.mp h
    exact .main k t htask
  | take i =>
    rw [serverStep] at h
    split at h
    · rename_i r rest hi hqueue
      cases h
      exact .take i r rest hi hqueue
    · cases h
  | process i code writeRet =>
    rw [serverStep] at h
    split at h
    · rename_i r hi
      cases h
      exact .process i r code writeRet hi
    · cases h
  | worker i =>
    rw [serverStep] at h
    split at h
    · rename_i t hi
      obtain ⟨⟨k, t'⟩, htask, rfl⟩ := Option.map_eq_some_iff.mp h
      exact .worker i t k t' hi htask
    · cases h

end EasyWebServer.Get
