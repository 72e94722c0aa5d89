import Mathlib.Data.List.Range
import EasyWebServer.Lib.Threads
import EasyWebServer.Lib.Transition

/-!
# threadpool

The queue between the main loop and the workers: a list under a mutex, and a
semaphore that counts its entries.

The mutex and the semaphore are taken one after the other, so between the two the
queue and the semaphore disagree.  A step here is one critical section of a
thread, or one call on the semaphore:

* `append` checks the length and pushes, and then posts;
* a worker waits, then pops, and then runs `process`.

`Balanced` says by how much they disagree: by one for every thread between its two
steps.
-/

namespace EasyWebServer.Post

open Threads Transition

variable {R : Type*}

/-! ## The state -/

/-- An entry of the queue: a pointer, which may be `NULL`.  `number` counts the
entries in the order in which they were accepted; the source does not record it. -/
structure Ticket (R : Type*) where
  number : Nat
  request : Option R
  deriving DecidableEq, Repr

/-- Where a thread that appends is. -/
inductive AppendPhase where
  /-- Before a call of `append`. -/
  | ready
  /-- Behind the critical section, before `m_queuestat.post()`. -/
  | posting
  deriving DecidableEq, Repr

/-- Where a worker is. -/
inductive WorkerPhase (R : Type*) where
  /-- Before `m_queuestat.wait()`. -/
  | waiting
  /-- Behind `wait`, before the critical section. -/
  | dequeuing
  /-- In `process`. -/
  | processing (request : R)
  deriving DecidableEq, Repr

/-- A `threadpool`, and the threads that use it.  `accepted` and `dequeued` record
what entered the queue, and which worker took what from it. -/
structure Threadpool (R : Type*) where
  workqueue : List (Ticket R)
  queuestat : Nat
  appenders : List AppendPhase
  workers : List (WorkerPhase R)
  accepted : List (Ticket R)
  dequeued : List (Nat × Ticket R)

/-- A pool with a number of threads of both kinds, before their first steps. -/
def startThreadpool (appenders workers : Nat) : Threadpool R where
  workqueue := []
  queuestat := 0
  appenders := List.replicate appenders .ready
  workers := List.replicate workers .waiting
  accepted := []
  dequeued := []

/-- A step of a thread. -/
inductive PoolAction (R : Type*) where
  /-- The critical section of `append`. -/
  | append (thread : Nat) (request : Option R)
  /-- `m_queuestat.post()`. -/
  | post (thread : Nat)
  /-- `m_queuestat.wait()`. -/
  | wait (worker : Nat)
  /-- The critical section of `run`. -/
  | pop (worker : Nat)
  /-- `process` returns. -/
  | finish (worker : Nat)
  deriving DecidableEq, Repr

/-- One step.  `wait` sleeps while the semaphore is zero, and a worker that finds
the queue empty, or a null pointer in it, waits again. -/
def poolStep (maxRequests : Nat) (s : Threadpool R) : PoolAction R → Option (Threadpool R)
  | .append i request =>
      match s.appenders[i]? with
      | some .ready =>
          if maxRequests < s.workqueue.length then some s
          else
            let ticket : Ticket R := ⟨s.accepted.length, request⟩
            some { s with
              workqueue := s.workqueue ++ [ticket]
              appenders := s.appenders.set i .posting
              accepted := s.accepted ++ [ticket] }
      | _ => none
  | .post i =>
      match s.appenders[i]? with
      | some .posting =>
          some { s with queuestat := s.queuestat + 1, appenders := s.appenders.set i .ready }
      | _ => none
  | .wait j =>
      match s.workers[j]?, s.queuestat with
      | some .waiting, value + 1 =>
          some { s with queuestat := value, workers := s.workers.set j .dequeuing }
      | _, _ => none
  | .pop j =>
      match s.workers[j]?, s.workqueue with
      | some .dequeuing, [] => some { s with workers := s.workers.set j .waiting }
      | some .dequeuing, ticket :: rest =>
          some { s with
            workqueue := rest
            workers := s.workers.set j
              (match ticket.request with
              | none => .waiting
              | some request => .processing request)
            dequeued := s.dequeued ++ [(j, ticket)] }
      | _, _ => none
  | .finish j =>
      match s.workers[j]? with
      | some (.processing _) => some { s with workers := s.workers.set j .waiting }
      | _ => none

/-- What a step does. -/
inductive PoolMove (maxRequests : Nat) (s : Threadpool R) :
    PoolAction R → Threadpool R → Prop where
  | refuse (i : Nat) (request : Option R) (hi : s.appenders[i]? = some .ready)
      (hfull : maxRequests < s.workqueue.length) :
      PoolMove maxRequests s (.append i request) s
  | append (i : Nat) (request : Option R) (hi : s.appenders[i]? = some .ready)
      (hroom : s.workqueue.length ≤ maxRequests) :
      PoolMove maxRequests s (.append i request)
        { s with
          workqueue := s.workqueue ++ [⟨s.accepted.length, request⟩]
          appenders := s.appenders.set i .posting
          accepted := s.accepted ++ [⟨s.accepted.length, request⟩] }
  | post (i : Nat) (hi : s.appenders[i]? = some .posting) :
      PoolMove maxRequests s (.post i)
        { s with queuestat := s.queuestat + 1, appenders := s.appenders.set i .ready }
  | wait (j value : Nat) (hj : s.workers[j]? = some .waiting)
      (hvalue : s.queuestat = value + 1) :
      PoolMove maxRequests s (.wait j)
        { s with queuestat := value, workers := s.workers.set j .dequeuing }
  | popNothing (j : Nat) (hj : s.workers[j]? = some .dequeuing) (hqueue : s.workqueue = []) :
      PoolMove maxRequests s (.pop j) { s with workers := s.workers.set j .waiting }
  | pop (j : Nat) (ticket : Ticket R) (rest : List (Ticket R))
      (hj : s.workers[j]? = some .dequeuing) (hqueue : s.workqueue = ticket :: rest) :
      PoolMove maxRequests s (.pop j)
        { s with
          workqueue := rest
          workers := s.workers.set j
            (match ticket.request with
            | none => .waiting
            | some request => .processing request)
          dequeued := s.dequeued ++ [(j, ticket)] }
  | finish (j : Nat) (request : R) (hj : s.workers[j]? = some (.processing request)) :
      PoolMove maxRequests s (.finish j) { s with workers := s.workers.set j .waiting }

theorem poolStep_inv {maxRequests : Nat} {s s' : Threadpool R} {a : PoolAction R}
    (h : poolStep maxRequests s a = some s') : PoolMove maxRequests s a s' := by
  rcases a with ⟨i, request⟩ | i | j | j | j
  case append =>
    rw [poolStep] at h
    split at h
    · rename_i hi
      split at h
      · rename_i hfull
        cases h
        exact .refuse i request hi hfull
      · rename_i hroom
        cases h
        exact .append i request hi (by omega)
    · cases h
  case post =>
    rw [poolStep] at h
    split at h
    · rename_i hi
      cases h
      exact .post i hi
    · cases h
  case wait =>
    rw [poolStep] at h
    split at h
    · rename_i value hj hvalue
      cases h
      exact .wait j value hj hvalue
    · cases h
  case pop =>
    rw [poolStep] at h
    split at h
    · rename_i hj hqueue
      cases h
      exact .popNothing j hj hqueue
    · rename_i ticket rest hj hqueue
      cases h
      exact .pop j ticket rest hj hqueue
    · cases h
  case finish =>
    rw [poolStep] at h
    split at h
    · rename_i request hj
      cases h
      exact .finish j request hj
    · cases h

/-! ## The invariant -/

/-- Behind its push, before its post. -/
def AppendPhase.isPosting : AppendPhase → Bool
  | .posting => true
  | .ready => false

/-- Behind its wait, before its pop. -/
def WorkerPhase.isDequeuing : WorkerPhase R → Bool
  | .dequeuing => true
  | _ => false

namespace Threadpool

/-- The appends between push and post. -/
def posting (s : Threadpool R) : Nat := count AppendPhase.isPosting s.appenders

/-- The workers between wait and pop. -/
def dequeuing (s : Threadpool R) : Nat := count WorkerPhase.isDequeuing s.workers

end Threadpool

/-- The queue and the semaphore differ by the threads between their two steps, and
what was accepted has left the queue in order, or is in it. -/
structure Balanced (s : Threadpool R) : Prop where
  balance : s.workqueue.length = s.queuestat + s.posting + s.dequeuing
  fifo : s.accepted = s.dequeued.map Prod.snd ++ s.workqueue
  numbers : s.accepted.map Ticket.number = List.range s.accepted.length

theorem startThreadpool_balanced (appenders workers : Nat) :
    Balanced (startThreadpool (R := R) appenders workers) where
  balance := by
    have hposting : (startThreadpool (R := R) appenders workers).posting = 0 :=
      List.countP_replicate.trans (if_neg Bool.false_ne_true)
    have hdequeuing : (startThreadpool (R := R) appenders workers).dequeuing = 0 :=
      List.countP_replicate.trans (if_neg Bool.false_ne_true)
    rw [hposting, hdequeuing]
    rfl
  fifo := rfl
  numbers := rfl

namespace Balanced

variable {s : Threadpool R}

/-- `append` pushes. -/
theorem append (h : Balanced s) {i : Nat} (hi : s.appenders[i]? = some .ready)
    (request : Option R) :
    Balanced { s with
      workqueue := s.workqueue ++ [⟨s.accepted.length, request⟩]
      appenders := s.appenders.set i .posting
      accepted := s.accepted ++ [⟨s.accepted.length, request⟩] } where
  balance := by
    show (s.workqueue ++ [_]).length =
      s.queuestat + count AppendPhase.isPosting (s.appenders.set i .posting) + s.dequeuing
    rw [count_enter hi rfl rfl, List.length_append, h.balance, Threadpool.posting,
      List.length_singleton]
    omega
  fifo := by
    show s.accepted ++ _ = s.dequeued.map Prod.snd ++ (s.workqueue ++ _)
    rw [h.fifo, List.append_assoc]
  numbers := by
    show (s.accepted ++ [_]).map Ticket.number = List.range (s.accepted ++ [_]).length
    rw [List.map_append, h.numbers, List.length_append, List.length_singleton, List.range_succ]
    rfl

/-- `append` posts. -/
theorem post (h : Balanced s) {i : Nat} (hi : s.appenders[i]? = some .posting) :
    Balanced { s with queuestat := s.queuestat + 1, appenders := s.appenders.set i .ready } where
  balance := by
    have hleave : count AppendPhase.isPosting (s.appenders.set i .ready) + 1 = s.posting :=
      count_leave hi rfl rfl
    show s.workqueue.length =
      s.queuestat + 1 + count AppendPhase.isPosting (s.appenders.set i .ready) + s.dequeuing
    rw [h.balance, ← hleave]
    omega
  fifo := h.fifo
  numbers := h.numbers

/-- A worker passes `wait`. -/
theorem wait (h : Balanced s) {j value : Nat} (hj : s.workers[j]? = some .waiting)
    (hvalue : s.queuestat = value + 1) :
    Balanced { s with queuestat := value, workers := s.workers.set j .dequeuing } where
  balance := by
    show s.workqueue.length =
      value + s.posting + count WorkerPhase.isDequeuing (s.workers.set j .dequeuing)
    rw [count_enter hj rfl rfl, h.balance, hvalue, Threadpool.dequeuing]
    omega
  fifo := h.fifo
  numbers := h.numbers

/-- A worker that passed `wait` finds an entry. -/
theorem found (h : Balanced s) {j : Nat} (hj : s.workers[j]? = some .dequeuing) :
    s.workqueue ≠ [] := by
  have hpos : 0 < s.dequeuing := count_pos hj rfl
  have hbalance := h.balance
  intro hnil
  rw [hnil, List.length_nil] at hbalance
  omega

/-- A worker pops, and takes the entry or waits again. -/
theorem pop (h : Balanced s) {j : Nat} {ticket : Ticket R} {rest : List (Ticket R)}
    (hj : s.workers[j]? = some .dequeuing) (hqueue : s.workqueue = ticket :: rest)
    {phase : WorkerPhase R} (hphase : phase.isDequeuing = false) :
    Balanced { s with
      workqueue := rest
      workers := s.workers.set j phase
      dequeued := s.dequeued ++ [(j, ticket)] } where
  balance := by
    have hleave : count WorkerPhase.isDequeuing (s.workers.set j phase) + 1 = s.dequeuing :=
      count_leave hj rfl hphase
    have hbalance := h.balance
    rw [hqueue, List.length_cons] at hbalance
    show rest.length = s.queuestat + s.posting + count WorkerPhase.isDequeuing (s.workers.set j phase)
    omega
  fifo := by
    show s.accepted = (s.dequeued ++ [(j, ticket)]).map Prod.snd ++ rest
    rw [h.fifo, hqueue, List.map_append, List.append_assoc]
    rfl
  numbers := h.numbers

/-- `process` returns. -/
theorem finish (h : Balanced s) {j : Nat} {request : R}
    (hj : s.workers[j]? = some (.processing request)) :
    Balanced { s with workers := s.workers.set j .waiting } where
  balance := by
    have hstay : count WorkerPhase.isDequeuing (s.workers.set j .waiting) = s.dequeuing :=
      count_stay hj rfl
    show s.workqueue.length =
      s.queuestat + s.posting + count WorkerPhase.isDequeuing (s.workers.set j .waiting)
    rw [hstay, h.balance]
  fifo := h.fifo
  numbers := h.numbers

end Balanced

theorem poolStep_balanced {maxRequests : Nat} {s s' : Threadpool R} {a : PoolAction R}
    (h : Balanced s) (hstep : poolStep maxRequests s a = some s') : Balanced s' := by
  cases poolStep_inv hstep with
  | refuse i request hi hfull => exact h
  | append i request hi hroom => exact h.append hi request
  | post i hi => exact h.post hi
  | wait j value hj hvalue => exact h.wait hj hvalue
  | popNothing j hj hqueue => exact absurd hqueue (h.found hj)
  | pop j ticket rest hj hqueue =>
    refine h.pop hj hqueue ?_
    split <;> rfl
  | finish j request hj => exact h.finish hj

/-! ## Every run -/

/-- What a user of the pool relies on: entries leave in the order in which they were
accepted, each to one worker; the length of the queue is known; no worker that
passed `wait` finds the queue empty; and no entry stays behind when the semaphore
is zero and no thread is between its two steps. -/
structure QueueOk (s : Threadpool R) : Prop where
  fifo : s.accepted = s.dequeued.map Prod.snd ++ s.workqueue
  once : ∀ j j' ticket ticket', (j, ticket) ∈ s.dequeued → (j', ticket') ∈ s.dequeued →
    ticket.number = ticket'.number → j = j' ∧ ticket = ticket'
  single : (s.dequeued.map Prod.snd).Nodup
  balance : s.workqueue.length = s.queuestat + s.posting + s.dequeuing
  found : ∀ j : Nat, s.workers[j]? = some .dequeuing → s.workqueue ≠ []
  awake : s.queuestat = 0 → s.posting = 0 → s.dequeuing = 0 → s.workqueue = []

theorem Balanced.queueOk {s : Threadpool R} (h : Balanced s) : QueueOk s := by
  have hnumbers : (s.dequeued.map (fun e => e.2.number)).Nodup := by
    have hall : (s.accepted.map Ticket.number).Nodup := by
      rw [h.numbers]
      exact List.nodup_range
    rw [h.fifo, List.map_append, List.map_map] at hall
    exact hall.of_append_left
  exact {
    fifo := h.fifo
    once := by
      intro j j' ticket ticket' hmem hmem' heq
      have hinj := List.inj_on_of_nodup_map hnumbers hmem hmem' heq
      exact ⟨congrArg Prod.fst hinj, congrArg Prod.snd hinj⟩
    single := by
      refine List.Nodup.of_map Ticket.number ?_
      rw [List.map_map]
      exact hnumbers
    balance := h.balance
    found := fun _ hj => h.found hj
    awake := by
      intro hstat hposting hdequeuing
      have hbalance := h.balance
      exact List.length_eq_zero_iff.mp (by omega) }

/-- However many threads append and work, and in whatever order they take their
steps, the queue hands every accepted request to one worker, in order, and does not
lose track of it. -/
theorem always_queueOk (maxRequests appenders workers : Nat) (as : List (PoolAction R)) :
    Always (poolStep maxRequests) QueueOk (startThreadpool appenders workers) as :=
  always_of_step Balanced (fun _ _ _ h hstep => poolStep_balanced h hstep)
    (fun _ h => h.queueOk) (startThreadpool_balanced appenders workers) as

end EasyWebServer.Post
