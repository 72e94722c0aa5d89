import EasyWebServer.Lib.Loop
import EasyWebServer.Lib.Transition

/-!
# The process pool

`processpool` of `CGI-Learn/processpool.h`: the parent waits for connections on the
listening socket, and sends one `int` to a child for each report of it.  The child receives
the `int` and calls `accept`.

`Pool` is the state that the processes share: the slots of the parent, the children with
their pipes, and the connections that wait in the backlog.  Every descriptor is
edge-triggered, so it has a flag that says whether something has arrived since it was last
reported.  A step (`PoolAction`) is one of:

* a connection arrives, or a signal handler of the parent writes a byte;
* the parent or a child returns from `epoll_wait`, handles one event of its batch, or goes
  back to `epoll_wait`; in a child, `recv` and `accept` are two steps;
* a child exits.

Signals that reach a child, and data from its clients, are events of its batch.
-/

namespace EasyWebServer.Cgi

/-! ## The parent -/

/-- What `run_parent` keeps: the `m_pid` of the slots of `m_sub_process`,
`sub_process_counter` and `m_stop`. -/
structure Parent where
  pids : List Int
  subProcessCounter : Nat
  stop : Bool
  deriving DecidableEq, Repr

namespace Parent

/-- `m_process_number`. -/
def processNumber (p : Parent) : Nat := p.pids.length

/-- `m_sub_process[j].m_pid`. -/
def pid (p : Parent) (j : Nat) : Int := p.pids.getD j (-1)

/-- The body of the `do` loop over the slots. -/
def searchIter (p : Parent) (j : Nat) : Nat ⊕ Nat :=
  if p.pid j ≠ -1 then .inr j
  else
    let j := (j + 1) % p.processNumber
    if j ≠ p.subProcessCounter then .inl j else .inr j

/-- The slot that the loop ends at. -/
def search (p : Parent) : Option Nat :=
  Loop.run p.searchIter p.processNumber p.subProcessCounter

/-- The branch of the listening socket: the child that is notified, if any. -/
def dispatch (p : Parent) : Option (Parent × Option Nat) :=
  p.search.map fun j =>
    if p.pid j = -1 then ({ p with stop := true }, none)
    else ({ p with subProcessCounter := (j + 1) % p.processNumber }, some j)

/-- The loop over the slots for a child that `waitpid` returns. -/
def join (p : Parent) (pid : Int) : Parent :=
  { p with pids := p.pids.map fun m => if m = pid then -1 else m }

/-- The branch of `SIGCHLD`, for the children that `waitpid` returns. -/
def sigchld (p : Parent) (dead : List Int) : Parent :=
  let p := dead.foldl join p
  { p with stop := p.pids.all fun m => decide (m = -1) }

end Parent

/-! ## The children -/

/-- An event of a child's batch. -/
inductive ChildEvent where
  /-- The pipe to the parent. -/
  | pipe
  /-- The signal pipe, with `SIGTERM` or `SIGINT` in it or without. -/
  | signal (term : Bool)
  /-- Data of a client, which `process` handles. -/
  | client
  deriving DecidableEq, Repr

/-- Where `run_child` is. -/
inductive ChildPhase where
  /-- At `epoll_wait`. -/
  | waiting
  /-- In the loop over `events`, with these to handle. -/
  | handling (events : List ChildEvent)
  /-- Behind `recv` on the pipe, at `accept`. -/
  | accepting (events : List ChildEvent)
  deriving DecidableEq, Repr

/-- The events that are still to be handled. -/
def ChildPhase.events : ChildPhase → List ChildEvent
  | .waiting => []
  | .handling events => events
  | .accepting events => events

/-- The life of a child. -/
inductive Life where
  | alive
  /-- It has exited, and `waitpid` has not returned it. -/
  | zombie
  | reaped
  deriving DecidableEq, Repr

/-- A child: its process, the `int`s in its pipe, whether something has arrived there since
the last report, and its `m_stop`. -/
structure Child where
  pid : Int
  life : Life
  pipe : Nat
  edge : Bool
  stop : Bool
  phase : ChildPhase
  deriving DecidableEq, Repr

/-- `send` on the pipe of a child, which fails when the child has exited. -/
def Child.notify (c : Child) : Child :=
  if c.life = .alive then { c with pipe := c.pipe + 1, edge := true } else c

/-- `waitpid` returns a child that has exited. -/
def Child.wait (c : Child) : Child :=
  if c.life = .zombie then { c with life := .reaped } else c

/-! ## The pool -/

/-- A byte of the signal pipe of the parent. -/
inductive Signal where
  /-- `SIGCHLD`. -/
  | chld
  /-- `SIGTERM` or `SIGINT`, for which the parent sends `SIGTERM` to its children. -/
  | term
  deriving DecidableEq, Repr

/-- An event of the parent's batch. -/
inductive ParentEvent where
  /-- `m_listenfd`. -/
  | listen
  /-- `sig_pipefd[0]`. -/
  | signal
  deriving DecidableEq, Repr

/-- Where `run_parent` is. -/
inductive ParentPhase where
  /-- At `epoll_wait`. -/
  | waiting
  /-- In the loop over `events`, with these to handle. -/
  | handling (events : List ParentEvent)
  /-- Behind the loops, with these events left over. -/
  | stopped (events : List ParentEvent)
  deriving DecidableEq, Repr

/-- The events that have been reported and are not handled. -/
def ParentPhase.events : ParentPhase → List ParentEvent
  | .waiting => []
  | .handling events => events
  | .stopped events => events

@[simp] theorem ParentPhase.events_handling (events : List ParentEvent) :
    (ParentPhase.handling events).events = events := rfl

/-- The state of the pool. -/
structure Pool where
  parent : Parent
  phase : ParentPhase
  signals : List Signal
  signalEdge : Bool
  children : List Child
  /-- The connections that no child has accepted. -/
  backlog : Nat
  listenEdge : Bool
  deriving DecidableEq, Repr

/-- The pool when its processes are at their first `epoll_wait`. -/
def startPool (pids : List Int) : Pool where
  parent := ⟨pids, 0, false⟩
  phase := .waiting
  signals := []
  signalEdge := false
  children := pids.map fun pid => ⟨pid, .alive, 0, false, false, .waiting⟩
  backlog := 0
  listenEdge := false

namespace Pool

/-- The children that `waitpid` returns. -/
def dead (s : Pool) : List Int :=
  (s.children.filter fun c => decide (c.life = .zombie)).map Child.pid

/-- A signal that the parent has read.  The `SIGTERM` that it sends reaches a child as an
event of the child's batch. -/
def handleSignal (s : Pool) : Signal → Pool
  | .chld => { s with
      parent := s.parent.sigchld s.dead
      children := s.children.map Child.wait }
  | .term => s

/-- The branch of the signal pipe: `recv` takes at most 1024 bytes. -/
def readSignals (s : Pool) : Pool :=
  (s.signals.take 1024).foldl handleSignal { s with signals := s.signals.drop 1024 }

/-- The parent handles the next event of its batch, or ends the batch. -/
def parentNext (s : Pool) : Option Pool :=
  match s.phase with
  | .handling [] =>
      some { s with phase := if s.parent.stop then .stopped [] else .waiting }
  | .handling (.listen :: events) =>
      match s.parent.dispatch with
      | some (p, some j) => some { s with
          parent := p
          phase := .handling events
          children := s.children.modify j Child.notify }
      | some (p, none) => some { s with
          parent := p
          phase := .stopped (.listen :: events) }
      | none => none
  | .handling (.signal :: events) => some ({ s with phase := .handling events }.readSignals)
  | _ => none

/-- A child handles the next event of its batch, calls `accept`, or ends the batch.  A
`recv` that finds nothing leads to `accept` too. -/
def childNext (s : Pool) (k : Nat) (c : Child) : Option Pool :=
  match c.phase with
  | .handling [] =>
      if c.stop then none else some { s with children := s.children.set k { c with phase := .waiting } }
  | .handling (.pipe :: events) => some { s with
      children := s.children.set k { c with pipe := c.pipe - 1, phase := .accepting events } }
  | .handling (.signal term :: events) => some { s with
      children := s.children.set k { c with stop := c.stop || term, phase := .handling events } }
  | .handling (.client :: events) => some { s with
      children := s.children.set k { c with phase := .handling events } }
  | .accepting events => some { s with
      children := s.children.set k { c with phase := .handling events }
      backlog := s.backlog - 1 }
  | .waiting => none

end Pool

/-- A step of the pool. -/
inductive PoolAction where
  /-- A connection arrives. -/
  | arrive
  /-- The signal handler of the parent writes a byte. -/
  | signal (sig : Signal)
  /-- `epoll_wait` of the parent returns these events. -/
  | parentWait (events : List ParentEvent)
  /-- `epoll_wait` of the parent fails. -/
  | parentFails
  | parentNext
  /-- `epoll_wait` of the child `k` returns these events. -/
  | childWait (k : Nat) (events : List ChildEvent)
  | childNext (k : Nat)
  /-- The child `k` leaves its loop, or is killed. -/
  | childExit (k : Nat)
  deriving DecidableEq, Repr

/-- One step.  A descriptor is in a batch exactly when something has arrived there since it
was last reported. -/
def poolStep (s : Pool) : PoolAction → Option Pool
  | .arrive => some { s with backlog := s.backlog + 1, listenEdge := true }
  | .signal sig => some { s with signals := s.signals ++ [sig], signalEdge := true }
  | .parentWait events =>
      if s.phase = .waiting ∧ events.count .listen = s.listenEdge.toNat ∧
          events.count .signal = s.signalEdge.toNat then
        some { s with phase := .handling events, listenEdge := false, signalEdge := false }
      else none
  | .parentFails => if s.phase = .waiting then some { s with phase := .stopped [] } else none
  | .parentNext => s.parentNext
  | .childWait k events =>
      match s.children[k]? with
      | some c =>
          if c.life = .alive ∧ c.phase = .waiting ∧ events.count .pipe = c.edge.toNat then
            some { s with
              children := s.children.set k { c with phase := .handling events, edge := false } }
          else none
      | none => none
  | .childNext k =>
      match s.children[k]? with
      | some c => if c.life = .alive then s.childNext k c else none
      | none => none
  | .childExit k =>
      match s.children[k]? with
      | some c =>
          if c.life = .alive then
            some { s with children := s.children.set k { c with life := .zombie } }
          else none
      | none => none

end EasyWebServer.Cgi
