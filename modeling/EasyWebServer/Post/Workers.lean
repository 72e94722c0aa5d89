import EasyWebServer.Post.ConnectionPool
import EasyWebServer.Post.Threadpool

/-!
# The workers and their connections

`run` of `threadpool.h` as a whole.  A worker takes a request from the queue, and a
`connectionRAII` takes a database connection for it, which `process` finds in `mysql`.  The
destructor gives the connection back, and the worker waits for the next request.

`Workers` is the queue of `Threadpool` beside the pool of `ConnectionPool`: the thread `i` of
the second is the worker `i` of the first.  Every step is a step of one of them.

* `always_connected`: a worker in `process` has a connection to itself, and finds it in `mysql`.
* `never_null_iff`: no worker gets `NULL`, for as many workers as there are connections, and no
  more.
* `workers_come_to_rest`: the workers finish what was accepted, however few connections there
  are.
-/

namespace EasyWebServer.Post

open Threads Transition

variable {R C : Type*}

/-! ## The state -/

/-- The thread that takes the step. -/
def ConnAction.thread : ConnAction → Nat
  | .check i => i
  | .wait i => i
  | .take i => i
  | .release i => i
  | .post i => i

/-- A `threadpool`, the `connection_pool` of its workers, and the member `mysql` of every
request. -/
structure Workers (R C : Type*) where
  queue : Threadpool R
  connPool : ConnectionPool C
  mysql : R → Option C

/-- Behind `init` of the connection pool and the constructor of the thread pool. -/
def startWorkers (appenders workers : Nat) (conns : List C) : Workers R C where
  queue := startThreadpool appenders workers
  connPool := (ConnectionPool.new workers).init conns
  mysql := fun _ => none

/-- A step of a thread. -/
inductive RunAction (R : Type*) where
  /-- A step on the queue.  `finish` is the end of an iteration of `run`, which comes with the
  last step of the destructor. -/
  | queue (a : PoolAction R)
  /-- A step of the `connectionRAII` of a worker. -/
  | conn (a : ConnAction)
  deriving DecidableEq, Repr

/-- One step.  A worker that has a request takes a connection, sets `*SQL` when
`GetConnection` returns, and is at the end of its iteration when `ReleaseConnection`
returns. -/
def runStep [DecidableEq R] (maxRequests : Nat) (s : Workers R C) :
    RunAction R → Option (Workers R C)
  | .queue (.finish _) => none
  | .queue a => (poolStep maxRequests s.queue a).map fun queue => { s with queue := queue }
  | .conn a =>
      match s.queue.workers[a.thread]?, connStep s.connPool a with
      | some (.processing request), some connPool =>
          match connPool.threads[a.thread]? with
          | some (.holding con) =>
              some { s with
                connPool := connPool
                mysql := Function.update s.mysql request con }
          | some .idle =>
              (poolStep maxRequests s.queue (.finish a.thread)).map fun queue =>
                { s with queue := queue, connPool := connPool }
          | _ => some { s with connPool := connPool }
      | _, _ => none

/-- The steps of those who are in the pool: no new request comes. -/
def RunAction.own : RunAction R → Bool
  | .queue (.append _ _) => false
  | _ => true

namespace Workers

/-- The worker `i` is in `process` for the request, and got the connection, or `NULL`. -/
def Processes (s : Workers R C) (i : Nat) (request : R) (con : Option C) : Prop :=
  s.queue.workers[i]? = some (.processing request) ∧ s.connPool.threads[i]? = some (.holding con)

end Workers

/-! ## What the parts do -/

/-- From one phase of a `connectionRAII` to the next. -/
inductive ConnPhase.Next : ConnPhase C → ConnPhase C → Prop where
  | check : Next .idle .waiting
  | null : Next .idle (.holding none)
  | wait : Next .waiting .taking
  | take (con : C) : Next .taking (.holding (some con))
  | release (con : C) : Next (.holding (some con)) .posting
  | releaseNull : Next (.holding none) .idle
  | post : Next .posting .idle

/-- A step moves its thread to the next phase, and the others stay where they are. -/
theorem Shared.next {conns : List C} {threads : Nat} {s s' : ConnectionPool C} {a : ConnAction}
    (h : Shared conns threads s) (hstep : connStep s a = some s') :
    ∃ old new, s.threads[a.thread]? = some old ∧ old.Next new ∧
      s'.threads = s.threads.set a.thread new ∧ (new = .waiting → s.connList ≠ []) := by
  rcases a with i | i | i | i | i
  case check =>
    rw [connStep] at hstep
    split at hstep
    · rename_i hi hlist
      cases hstep
      exact ⟨_, _, hi, .null, rfl, fun h => by cases h⟩
    · rename_i hi hlist
      cases hstep
      refine ⟨_, _, hi, .check, rfl, fun _ => ?_⟩
      rw [hlist]
      exact List.cons_ne_nil _ _
    · cases hstep
  case wait =>
    rw [connStep] at hstep
    split at hstep
    · rename_i hi hvalue
      cases hstep
      exact ⟨_, _, hi, .wait, rfl, fun h => by cases h⟩
    · cases hstep
  case take =>
    rw [connStep] at hstep
    split at hstep
    · rename_i hi
      rcases hlist : s.connList with _ | ⟨con, rest⟩
      · exact absurd hlist (h.found hi)
      · rw [ConnectionPool.take, hlist] at hstep
        cases hstep
        exact ⟨_, _, hi, .take con, rfl, fun h => by cases h⟩
    · cases hstep
  case release =>
    rw [connStep] at hstep
    split at hstep
    · rename_i hi
      cases hstep
      exact ⟨_, _, hi, .releaseNull, rfl, fun h => by cases h⟩
    · rename_i con hi
      cases hstep
      exact ⟨_, _, hi, .release con, rfl, fun h => by cases h⟩
    · cases hstep
  case post =>
    rw [connStep] at hstep
    split at hstep
    · rename_i hi
      cases hstep
      exact ⟨_, _, hi, .post, rfl, fun h => by cases h⟩
    · cases hstep

/-- A step on the queue that is not `finish` leaves the workers that have a request. -/
theorem PoolMove.keeps {maxRequests : Nat} {s s' : Threadpool R} {a : PoolAction R}
    (h : PoolMove maxRequests s a s') (hfinish : ∀ j, a ≠ .finish j) {i : Nat} {request : R}
    (hi : s.workers[i]? = some (.processing request)) :
    s'.workers[i]? = some (.processing request) := by
  have hother : ∀ {j : Nat} {old new : WorkerPhase R}, s.workers[j]? = some old →
      old.isDequeuing = true ∨ old = .waiting →
      (s.workers.set j new)[i]? = some (.processing request) := by
    intro j old new hj hold
    have hne : j ≠ i := by
      rintro rfl
      rw [hi] at hj
      cases hj
      rcases hold with h | h <;> cases h
    rw [List.getElem?_set_ne hne, hi]
  cases h with
  | refuse => exact hi
  | append => exact hi
  | post => exact hi
  | wait j value hj => exact hother hj (.inr rfl)
  | popNothing j hj => exact hother hj (.inl rfl)
  | pop j ticket rest hj => exact hother hj (.inl rfl)
  | finish j => exact absurd rfl (hfinish j)

/-- It leaves the number of workers. -/
theorem PoolMove.length_workers {maxRequests : Nat} {s s' : Threadpool R} {a : PoolAction R}
    (h : PoolMove maxRequests s a s') : s'.workers.length = s.workers.length := by
  cases h <;> simp only [List.length_set]

/-! ## The invariant -/

/-- The two parts keep their invariants, and a worker is inside its `connectionRAII` only while
it has a request. -/
structure RunOk (conns : List C) (workers : Nat) (s : Workers R C) : Prop where
  balanced : Balanced s.queue
  shared : Shared conns workers s.connPool
  size : s.queue.workers.length = workers
  inside : ∀ (i : Nat) (phase : ConnPhase C), s.connPool.threads[i]? = some phase →
    phase ≠ .idle → ∃ request, s.queue.workers[i]? = some (.processing request)
  waits : ∀ i : Nat, s.connPool.threads[i]? = some .waiting → conns ≠ []

theorem startWorkers_ok (appenders workers : Nat) (conns : List C) :
    RunOk conns workers (startWorkers (R := R) appenders workers conns) := by
  have hthreads : (startWorkers (R := R) appenders workers conns).connPool.threads =
      List.replicate workers .idle := by
    rw [startWorkers, ConnectionPool.init, init_fold]
    rfl
  exact {
    balanced := startThreadpool_balanced appenders workers
    shared := init_shared workers conns
    size := List.length_replicate
    inside := by
      intro i phase hi hne
      rw [hthreads] at hi
      exact absurd (List.eq_of_mem_replicate (List.mem_of_getElem? hi)) hne
    waits := by
      intro i hi
      rw [hthreads] at hi
      cases List.eq_of_mem_replicate (List.mem_of_getElem? hi) }

/-- A step of the `connectionRAII` of a worker with a request. -/
structure Workers.Takes (s : Workers R C) (a : ConnAction) (request : R) (old new : ConnPhase C)
    (connPool : ConnectionPool C) : Prop where
  worker : s.queue.workers[a.thread]? = some (.processing request)
  step : connStep s.connPool a = some connPool
  phase : s.connPool.threads[a.thread]? = some old
  next : old.Next new
  threads : connPool.threads = s.connPool.threads.set a.thread new
  listed : new = .waiting → s.connPool.connList ≠ []

/-- What a step does. -/
inductive RunMove [DecidableEq R] (maxRequests : Nat) (s : Workers R C) :
    RunAction R → Workers R C → Prop where
  | queue (a : PoolAction R) (queue : Threadpool R) (hfinish : ∀ j, a ≠ .finish j)
      (hmove : PoolMove maxRequests s.queue a queue) (hbalanced : Balanced queue) :
      RunMove maxRequests s (.queue a) { s with queue := queue }
  | goOn (a : ConnAction) (request : R) (old new : ConnPhase C) (connPool : ConnectionPool C)
      (h : s.Takes a request old new connPool) (hidle : new ≠ .idle)
      (hholding : ∀ con, new ≠ .holding con) :
      RunMove maxRequests s (.conn a) { s with connPool := connPool }
  | getConnection (a : ConnAction) (request : R) (old : ConnPhase C) (con : Option C)
      (connPool : ConnectionPool C) (h : s.Takes a request old (.holding con) connPool) :
      RunMove maxRequests s (.conn a)
        { s with connPool := connPool, mysql := Function.update s.mysql request con }
  | finish (a : ConnAction) (request : R) (old : ConnPhase C) (connPool : ConnectionPool C)
      (h : s.Takes a request old .idle connPool) :
      RunMove maxRequests s (.conn a)
        { s with
          queue := { s.queue with workers := s.queue.workers.set a.thread .waiting }
          connPool := connPool }

theorem runStep_inv [DecidableEq R] {maxRequests : Nat} {conns : List C} {workers : Nat}
    {s s' : Workers R C} {a : RunAction R} (h : RunOk conns workers s)
    (hstep : runStep maxRequests s a = some s') : RunMove maxRequests s a s' := by
  rcases a with a | a
  case queue =>
    have hqueue : ∀ a : PoolAction R, (∀ j, a ≠ .finish j) →
        (poolStep maxRequests s.queue a).map (fun queue => { s with queue := queue }) = some s' →
        RunMove maxRequests s (.queue a) s' := by
      intro a hfinish hmap
      obtain ⟨queue, hpool, rfl⟩ := Option.map_eq_some_iff.mp hmap
      exact .queue a queue hfinish (poolStep_inv hpool) (poolStep_balanced h.balanced hpool)
    rcases a with ⟨i, request⟩ | i | j | j | j
    case finish => cases hstep
    all_goals exact hqueue _ (fun j hj => by cases hj) hstep
  case conn =>
    rcases hworker : s.queue.workers[a.thread]? with _ | phase
    · rw [runStep, hworker] at hstep
      cases hstep
    rcases hconn : connStep s.connPool a with _ | connPool
    · rw [runStep, hworker, hconn] at hstep
      cases phase <;> cases hstep
    rcases phase with _ | _ | request
    · rw [runStep, hworker, hconn] at hstep
      cases hstep
    · rw [runStep, hworker, hconn] at hstep
      cases hstep
    obtain ⟨old, new, hold, hnext, hthreads, hlisted⟩ := h.shared.next hconn
    have htakes : s.Takes a request old new connPool :=
      ⟨hworker, hconn, hold, hnext, hthreads, hlisted⟩
    obtain ⟨hlt, -⟩ := List.getElem?_eq_some_iff.mp hold
    have hthread : connPool.threads[a.thread]? = some new := by
      rw [hthreads, List.getElem?_set_self hlt]
    rw [runStep, hworker, hconn] at hstep
    simp only [hthread] at hstep
    cases new with
    | idle =>
      obtain ⟨queue, hpool, rfl⟩ := Option.map_eq_some_iff.mp hstep
      simp only [poolStep, hworker] at hpool
      cases hpool
      exact .finish a request old connPool htakes
    | holding con =>
      cases hstep
      exact .getConnection a request old con connPool htakes
    | waiting =>
      cases hstep
      exact .goOn a request old _ connPool htakes (fun h => by cases h) (fun _ h => by cases h)
    | taking =>
      cases hstep
      exact .goOn a request old _ connPool htakes (fun h => by cases h) (fun _ h => by cases h)
    | posting =>
      cases hstep
      exact .goOn a request old _ connPool htakes (fun h => by cases h) (fun _ h => by cases h)

namespace RunOk

variable {conns : List C} {workers : Nat} {s : Workers R C}

/-- A step of a `connectionRAII` leaves the pool and the threads in order. -/
theorem takes (h : RunOk conns workers s) {a : ConnAction} {request : R} {old new : ConnPhase C}
    {connPool : ConnectionPool C} (htakes : s.Takes a request old new connPool) :
    Shared conns workers connPool ∧
      (∀ (i : Nat) (phase : ConnPhase C), connPool.threads[i]? = some phase → phase ≠ .idle →
        i ≠ a.thread ∧ (∃ request, s.queue.workers[i]? = some (.processing request)) ∨
          i = a.thread ∧ new ≠ .idle) ∧
      ∀ i : Nat, connPool.threads[i]? = some .waiting → conns ≠ [] := by
  refine ⟨connStep_shared h.shared htakes.step, ?_, ?_⟩
  · intro i phase hi hne
    rw [htakes.threads] at hi
    rcases set_cases hi with ⟨rfl, rfl⟩ | ⟨hother, hi⟩
    · exact .inr ⟨rfl, hne⟩
    · exact .inl ⟨hother, h.inside i phase hi hne⟩
  · intro i hi
    rw [htakes.threads] at hi
    rcases set_cases hi with ⟨-, hnew⟩ | ⟨-, hi⟩
    · intro hnil
      have hall := h.shared.all.length_eq
      rw [hnil, List.length_append, List.length_nil] at hall
      exact htakes.listed hnew.symm (List.length_eq_zero_iff.mp (by omega))
    · exact h.waits i hi

/-- Every step keeps the invariant. -/
theorem move [DecidableEq R] {maxRequests : Nat} {s' : Workers R C} {a : RunAction R}
    (h : RunOk conns workers s) (hmove : RunMove maxRequests s a s') :
    RunOk conns workers s' := by
  cases hmove with
  | queue a queue hfinish hmove hbalanced =>
    exact {
      balanced := hbalanced
      shared := h.shared
      size := hmove.length_workers.trans h.size
      inside := by
        intro i phase hi hne
        obtain ⟨request, hworker⟩ := h.inside i phase hi hne
        exact ⟨request, hmove.keeps hfinish hworker⟩
      waits := h.waits }
  | goOn a request old new connPool htakes hidle hholding =>
    obtain ⟨hshared, hinside, hwaits⟩ := h.takes htakes
    exact { h with
      shared := hshared
      inside := by
        intro i phase hi hne
        rcases hinside i phase hi hne with ⟨-, hworker⟩ | ⟨rfl, -⟩
        · exact hworker
        · exact ⟨request, htakes.worker⟩
      waits := hwaits }
  | getConnection a request old con connPool htakes =>
    obtain ⟨hshared, hinside, hwaits⟩ := h.takes htakes
    exact { h with
      shared := hshared
      inside := by
        intro i phase hi hne
        rcases hinside i phase hi hne with ⟨-, hworker⟩ | ⟨rfl, -⟩
        · exact hworker
        · exact ⟨request, htakes.worker⟩
      waits := hwaits }
  | finish a request old connPool htakes =>
    obtain ⟨hshared, hinside, hwaits⟩ := h.takes htakes
    exact {
      balanced := h.balanced.finish htakes.worker
      shared := hshared
      size := List.length_set.trans h.size
      inside := by
        intro i phase hi hne
        rcases hinside i phase hi hne with ⟨hother, other, hworker⟩ | ⟨-, hidle⟩
        · refine ⟨other, ?_⟩
          show (s.queue.workers.set a.thread .waiting)[i]? = some (.processing other)
          rw [List.getElem?_set_ne (Ne.symm hother), hworker]
        · exact absurd rfl hidle
      waits := hwaits }

end RunOk

theorem runStep_ok [DecidableEq R] {maxRequests : Nat} {conns : List C} {workers : Nat}
    {s s' : Workers R C} {a : RunAction R} (h : RunOk conns workers s)
    (hstep : runStep maxRequests s a = some s') : RunOk conns workers s' :=
  h.move (runStep_inv h hstep)

/-! ## A connection of one's own -/

/-- The request of a worker. -/
def WorkerPhase.inHand : WorkerPhase R → List R
  | .processing request => [request]
  | _ => []

/-- The requests in the queue and with the workers. -/
def Threadpool.inHand (s : Threadpool R) : List R :=
  s.workqueue.filterMap Ticket.request ++ holdings WorkerPhase.inHand s.workers

/-- A request that is appended is not there yet. -/
def Fresh (s : Workers R C) : RunAction R → Prop
  | .queue (.append _ (some request)) => request ∉ s.queue.inHand
  | _ => True

instance [DecidableEq R] (s : Workers R C) (a : RunAction R) : Decidable (Fresh s a) := by
  unfold Fresh
  split <;> infer_instance

/-- Before the first request there is none. -/
theorem startWorkers_inHand (appenders workers : Nat) (conns : List C) :
    (startWorkers (R := R) appenders workers conns).queue.inHand = [] := by
  show [] ++ holdings WorkerPhase.inHand (List.replicate workers .waiting) = []
  rw [List.nil_append, holdings, List.flatMap_replicate]
  exact List.flatten_replicate_nil

/-- What `append` adds.  The other steps on the queue move requests, or drop null pointers. -/
theorem PoolMove.inHand_perm {maxRequests : Nat} {s s' : Threadpool R} {a : PoolAction R}
    (h : PoolMove maxRequests s a s') (hfinish : ∀ j, a ≠ .finish j) :
    s'.inHand.Perm s.inHand ∨
      ∃ i request, a = .append i (some request) ∧ s'.inHand.Perm (request :: s.inHand) := by
  have hwaits : ∀ {j : Nat} {old new : WorkerPhase R}, s.workers[j]? = some old →
      old.inHand = [] →
      (holdings WorkerPhase.inHand (s.workers.set j new)).Perm
        (new.inHand ++ holdings WorkerPhase.inHand s.workers) := by
    intro j old new hj hold
    have hset := holdings_set_perm WorkerPhase.inHand hj new
    rwa [hold, List.nil_append] at hset
  cases h with
  | refuse => exact .inl (List.Perm.refl _)
  | post => exact .inl (List.Perm.refl _)
  | append i request hi hroom =>
    rcases request with _ | request
    · left
      rw [Threadpool.inHand, List.filterMap_append]
      exact (List.append_nil _ ▸ List.Perm.refl _)
    · right
      refine ⟨i, request, rfl, ?_⟩
      rw [Threadpool.inHand, List.filterMap_append]
      exact (List.perm_append_comm.append_right _)
  | wait j value hj hvalue => exact .inl ((hwaits hj rfl).append_left _)
  | popNothing j hj hqueue => exact .inl ((hwaits hj rfl).append_left _)
  | pop j ticket rest hj hqueue =>
    left
    rw [Threadpool.inHand, Threadpool.inHand, hqueue]
    rcases ticket with ⟨number, _ | request⟩
    · exact (hwaits hj rfl).append_left _
    · exact ((hwaits hj rfl).append_left _).trans List.perm_middle
  | finish j => exact absurd rfl (hfinish j)

/-- What a worker in `process` relies on, before the requests are told apart. -/
structure OneEach (s : Workers R C) : Prop where
  once : s.queue.inHand.Nodup
  mysql : ∀ i request con, s.Processes i request con → s.mysql request = con

/-- Two workers have two requests. -/
theorem OneEach.eq_of_processing {s : Workers R C} (h : OneEach s) {i j : Nat} {request : R}
    (hi : s.queue.workers[i]? = some (.processing request))
    (hj : s.queue.workers[j]? = some (.processing request)) : i = j :=
  eq_of_nodup (List.nodup_append'.mp h.once).2.1 hi hj List.mem_cons_self List.mem_cons_self

/-- Behind the step of the thread `i`, another worker in `process` has been there before. -/
theorem Workers.Takes.other {s : Workers R C} {a : ConnAction} {request : R}
    {old new : ConnPhase C} {connPool : ConnectionPool C} (h : s.Takes a request old new connPool)
    {i : Nat} {con : Option C} (hi : connPool.threads[i]? = some (.holding con)) :
    (i = a.thread ∧ new = .holding con) ∨
      (i ≠ a.thread ∧ s.connPool.threads[i]? = some (.holding con)) := by
  rw [h.threads] at hi
  rcases set_cases hi with ⟨rfl, heq⟩ | ⟨hne, hi⟩
  · exact .inl ⟨rfl, heq.symm⟩
  · exact .inr ⟨hne, hi⟩

theorem OneEach.move [DecidableEq R] {maxRequests : Nat} {conns : List C} {workers : Nat}
    {s s' : Workers R C} {a : RunAction R} (hok : RunOk conns workers s) (h : OneEach s)
    (hfresh : Fresh s a) (hmove : RunMove maxRequests s a s') : OneEach s' := by
  cases hmove with
  | queue a queue hfinish hmove hbalanced =>
    constructor
    · rcases hmove.inHand_perm hfinish with hperm | ⟨i, request, rfl, hperm⟩
      · exact hperm.nodup_iff.mpr h.once
      · exact hperm.nodup_iff.mpr (List.nodup_cons.mpr ⟨hfresh, h.once⟩)
    · rintro i request con ⟨hworker, hthread⟩
      obtain ⟨request', hworker'⟩ := hok.inside i _ hthread (fun h => by cases h)
      have hkept := hmove.keeps hfinish hworker'
      rw [hworker] at hkept
      cases hkept
      exact h.mysql i request con ⟨hworker', hthread⟩
  | goOn a request old new connPool htakes hidle hholding =>
    refine ⟨h.once, ?_⟩
    rintro i request' con ⟨hworker, hthread⟩
    rcases htakes.other hthread with ⟨-, hnew⟩ | ⟨-, hthread⟩
    · exact absurd hnew (hholding con)
    · exact h.mysql i request' con ⟨hworker, hthread⟩
  | getConnection a request old con connPool htakes =>
    refine ⟨h.once, ?_⟩
    rintro i request' con' ⟨hworker, hthread⟩
    rcases htakes.other hthread with ⟨rfl, hnew⟩ | ⟨hne, hthread⟩
    · have hsame := htakes.worker
      change s.queue.workers[a.thread]? = _ at hworker
      rw [hworker] at hsame
      cases hsame
      cases hnew
      exact Function.update_self _ _ _
    · have hother : request' ≠ request := by
        rintro rfl
        exact hne (h.eq_of_processing hworker htakes.worker)
      show Function.update s.mysql request con request' = con'
      rw [Function.update_of_ne hother]
      exact h.mysql i request' con' ⟨hworker, hthread⟩
  | finish a request old connPool htakes =>
    constructor
    · have hset := holdings_set_perm WorkerPhase.inHand htakes.worker .waiting
      have hperm : (request :: (s.queue.workqueue.filterMap Ticket.request ++
          holdings WorkerPhase.inHand (s.queue.workers.set a.thread .waiting))).Perm
          s.queue.inHand :=
        List.perm_middle.symm.trans (hset.append_left _)
      exact (List.nodup_cons.mp (hperm.nodup_iff.mpr h.once)).2
    · rintro i request' con ⟨hworker, hthread⟩
      rcases htakes.other hthread with ⟨-, hnew⟩ | ⟨hne, hthread⟩
      · cases hnew
      · change (s.queue.workers.set a.thread .waiting)[i]? = _ at hworker
        rw [List.getElem?_set_ne (Ne.symm hne)] at hworker
        exact h.mysql i request' con ⟨hworker, hthread⟩

/-- What `process` relies on: the connection of its worker is in `mysql`, no other worker has
it, and it is `NULL` only where there are more workers than connections. -/
structure Connected (conns : List C) (workers : Nat) (s : Workers R C) : Prop where
  mysql : ∀ i request con, s.Processes i request con → s.mysql request = con
  own : ∀ i j request request' con, s.Processes i request (some con) →
    s.Processes j request' (some con) → i = j
  not_null : workers ≤ conns.length → ∀ i request, ¬ s.Processes i request none

/-- In every run in which no request is appended that is still in the queue or with a worker:
every worker in `process` finds in `mysql` the connection that it took, and has it to itself. -/
theorem always_connected [DecidableEq R] (maxRequests appenders workers : Nat) {conns : List C}
    (hconns : conns.Nodup) (as : List (RunAction R))
    (hfresh : AllSteps (runStep maxRequests) Fresh (startWorkers appenders workers conns) as) :
    Always (runStep maxRequests) (Connected conns workers)
      (startWorkers appenders workers conns) as := by
  refine always_of_invariant (fun s => RunOk conns workers s ∧ OneEach s) Fresh ?_ ?_ ?_ hfresh
  · rintro s a s' ⟨hok, hone⟩ hg hstep
    have hmove := runStep_inv hok hstep
    exact ⟨hok.move hmove, hone.move hok hg hmove⟩
  · rintro s ⟨hok, hone⟩
    have hpool := hok.shared.poolOk hconns
    exact {
      mysql := hone.mysql
      own := fun i j _ _ con hi hj => hpool.one_thread i j con hi.2 hj.2
      not_null := by
        intro hle i request hi
        refine hpool.not_null ?_ i hi.2
        rw [hok.shared.max]
        omega }
  · have hok := startWorkers_ok (R := R) appenders workers conns
    refine ⟨hok, ?_, ?_⟩
    · rw [startWorkers_inHand]
      exact List.nodup_nil
    · rintro i request con ⟨hworker, -⟩
      cases List.eq_of_mem_replicate (List.mem_of_getElem? hworker)

/-- Two workers and one connection: the second worker waits for the first. -/
theorem always_connected_two :
    Always (runStep 10) (Connected [5] 2) (startWorkers 1 2 [5])
      ([.append 0 (some 7), .post 0, .append 0 (some 8), .post 0, .wait 0, .pop 0, .wait 1,
        .pop 1].map RunAction.queue ++
        [.check 0, .wait 0, .check 1, .take 0, .release 0, .post 0, .wait 1,
          .take 1].map RunAction.conn) :=
  always_connected (R := Nat) 10 1 2 (List.nodup_singleton 5) _ (by decide)

/-! ## As many workers as connections -/

/-- Without a thread that appends, there is no step at all. -/
theorem runStep_noAppender [DecidableEq R] (maxRequests workers : Nat) (conns : List C)
    (a : RunAction R) : runStep maxRequests (startWorkers 0 workers conns) a = none := by
  have hwaiting : ∀ {j : Nat} {phase : WorkerPhase R},
      (startWorkers (R := R) 0 workers conns).queue.workers[j]? = some phase → phase = .waiting :=
    fun hj => List.eq_of_mem_replicate (List.mem_of_getElem? hj)
  rcases hs : runStep maxRequests (startWorkers 0 workers conns) a with _ | s'
  · rfl
  cases runStep_inv (startWorkers_ok 0 workers conns) hs with
  | queue a queue hfinish hmove hbalanced =>
    cases hmove with
    | refuse i request hi => cases hi
    | append i request hi => cases hi
    | post i hi => cases hi
    | wait j value hj hvalue => cases hvalue
    | popNothing j hj => cases hwaiting hj
    | pop j ticket rest hj => cases hwaiting hj
    | finish j request hj => cases hwaiting hj
  | goOn a request old new connPool htakes => cases hwaiting htakes.worker
  | getConnection a request old con connPool htakes => cases hwaiting htakes.worker
  | finish a request old connPool htakes => cases hwaiting htakes.worker

/-- Behind `k` rounds: the first `k` workers are in `process` with a connection and a request of
`requests`, the others wait for a request. -/
structure Round (workers total : Nat) (requests : Nat → R) (k : Nat) (s : Workers R C) :
    Prop where
  queue : s.queue.workqueue = []
  queuestat : s.queue.queuestat = 0
  appender : s.queue.appenders[0]? = some .ready
  waiting : ∀ i, k ≤ i → i < workers → s.queue.workers[i]? = some .waiting
  idle : ∀ i, k ≤ i → i < workers → s.connPool.threads[i]? = some .idle
  listed : s.connPool.connList.length = total - k
  reserve : s.connPool.reserve = total - k
  inHand : ∀ request ∈ s.queue.inHand, ∃ i < k, request = requests i

/-- A request goes through the queue to the worker `k`. -/
def handOver (request : R) (k : Nat) : List (RunAction R) :=
  [.queue (.append 0 (some request)), .queue (.post 0), .queue (.wait k), .queue (.pop k)]

section Rounds

variable [DecidableEq R] {maxRequests workers total : Nat} {requests : Nat → R} {k : Nat}
  {s : Workers R C}

theorem Round.handsOver (h : Round workers total requests k s) (hk : k < workers) (request : R)
    (maxRequests : Nat) :
    ∃ queue, exec (runStep maxRequests) s (handOver request k) = some { s with queue := queue } ∧
      queue.workqueue = [] ∧ queue.queuestat = 0 ∧ queue.appenders[0]? = some .ready ∧
      queue.workers = s.queue.workers.set k (.processing request) := by
  obtain ⟨⟨workqueue, queuestat, appenders, ws, accepted, dequeued⟩, connPool, mysql⟩ := s
  obtain ⟨rfl, rfl, happender, hwaiting, -, -, -, -⟩ := h
  have hworker := hwaiting k (Nat.le_refl k) hk
  simp only at happender hworker
  obtain ⟨hready, -⟩ := List.getElem?_eq_some_iff.mp happender
  obtain ⟨hlt, -⟩ := List.getElem?_eq_some_iff.mp hworker
  have hposting : (appenders.set 0 .posting)[0]? = some .posting := List.getElem?_set_self hready
  have hdequeuing : (ws.set k .dequeuing)[k]? = some .dequeuing := List.getElem?_set_self hlt
  refine ⟨⟨[], 0, appenders.set 0 .ready, ws.set k (.processing request),
      accepted ++ [⟨accepted.length, some request⟩],
      dequeued ++ [(k, ⟨accepted.length, some request⟩)]⟩, ?_, rfl, rfl,
    List.getElem?_set_self hready, rfl⟩
  simp [handOver, exec, runStep, poolStep, happender, hworker, hposting, hdequeuing]

/-- A request that is unlike those before it is fresh. -/
theorem Round.fresh (h : Round workers total requests k s)
    (hnew : ∀ i < k, requests i ≠ requests k) :
    AllSteps (runStep maxRequests) Fresh s (handOver (requests k) k) := by
  refine ⟨fun hmem => ?_, fun _ _ => ⟨trivial, fun _ _ => ⟨trivial, fun _ _ =>
    ⟨trivial, fun _ _ => trivial⟩⟩⟩⟩
  obtain ⟨i, hi, heq⟩ := h.inHand _ hmem
  exact hnew i hi heq.symm

/-- The worker `k` takes a request and a connection. -/
theorem Round.next (h : Round workers total requests k s) (hk : k < workers) (htotal : k < total)
    (maxRequests : Nat) :
    ∃ as s', exec (runStep maxRequests) s as = some s' ∧
      Round workers total requests (k + 1) s' ∧
      ((∀ i < k, requests i ≠ requests k) → AllSteps (runStep maxRequests) Fresh s as) := by
  obtain ⟨queue, hqueue, hempty, hstat, happender, hworkers⟩ :=
    h.handsOver hk (requests k) maxRequests
  obtain ⟨con, rest, hlist⟩ : ∃ con rest, s.connPool.connList = con :: rest :=
    List.exists_cons_of_length_pos (by rw [h.listed]; omega)
  obtain ⟨value, hvalue⟩ : ∃ value, s.connPool.reserve = value + 1 :=
    ⟨total - k - 1, by rw [h.reserve]; omega⟩
  have hlisted := h.listed
  have hreserve := h.reserve
  rw [hlist, List.length_cons] at hlisted
  rw [hvalue] at hreserve
  have hthread := h.idle k (Nat.le_refl k) hk
  obtain ⟨hlt, -⟩ := List.getElem?_eq_some_iff.mp hthread
  have hwaiting := h.waiting k (Nat.le_refl k) hk
  obtain ⟨hworkerlt, -⟩ := List.getElem?_eq_some_iff.mp hwaiting
  have hworker : queue.workers[k]? = some (.processing (requests k)) := by
    rw [hworkers, List.getElem?_set_self hworkerlt]
  refine ⟨handOver (requests k) k ++ [.conn (.check k), .conn (.wait k), .conn (.take k)], { s with
      queue := queue
      connPool := { s.connPool with
        connList := rest
        freeConn := s.connPool.freeConn - 1
        curConn := s.connPool.curConn + 1
        reserve := value
        threads := s.connPool.threads.set k (.holding (some con)) }
      mysql := Function.update s.mysql (requests k) (some con) },
    exec_append hqueue ?_, ?_, fun hnew => (h.fresh hnew).append hqueue ?_⟩
  · have hself : ∀ phase : ConnPhase C,
        (s.connPool.threads.set k phase)[k]? = some phase := fun _ => List.getElem?_set_self hlt
    simp [exec, runStep, connStep, ConnAction.thread, ConnectionPool.take, hworker, hthread,
      hlist, hvalue, hself]
  · exact {
      queue := hempty
      queuestat := hstat
      appender := happender
      waiting := by
        intro i hi hlt
        show queue.workers[i]? = _
        rw [hworkers, List.getElem?_set_ne (by omega)]
        exact h.waiting i (by omega) hlt
      idle := by
        intro i hi hlt
        show (s.connPool.threads.set k _)[i]? = _
        rw [List.getElem?_set_ne (by omega)]
        exact h.idle i (by omega) hlt
      listed := by
        show rest.length = total - (k + 1)
        omega
      reserve := by
        show value = total - (k + 1)
        omega
      inHand := by
        intro request hmem
        have hset := holdings_set_perm WorkerPhase.inHand hwaiting (.processing (requests k))
        rw [Threadpool.inHand, hempty, hworkers] at hmem
        rcases List.mem_cons.mp (hset.mem_iff.mp hmem) with rfl | hold
        · exact ⟨k, Nat.lt_succ_self k, rfl⟩
        · obtain ⟨i, hi, heq⟩ := h.inHand request (List.mem_append_right _ hold)
          exact ⟨i, Nat.lt_succ_of_lt hi, heq⟩ }
  · exact ⟨trivial, fun _ _ => ⟨trivial, fun _ _ => ⟨trivial, fun _ _ => trivial⟩⟩⟩

end Rounds

theorem startWorkers_round (appenders workers : Nat) (conns : List C) (requests : Nat → R) :
    Round workers conns.length requests 0 (startWorkers (appenders + 1) workers conns) := by
  have hpool : (startWorkers (R := R) (appenders + 1) workers conns).connPool =
      { ConnectionPool.new workers with
        connList := conns
        freeConn := conns.length
        reserve := conns.length
        maxConn := conns.length } := by
    rw [startWorkers, ConnectionPool.init, init_fold]
    simp [ConnectionPool.new]
  refine ⟨rfl, rfl, rfl, ?_, ?_, ?_, ?_, ?_⟩
  · intro i _ hlt
    exact List.getElem?_replicate_of_lt hlt
  · intro i _ hlt
    rw [hpool]
    exact List.getElem?_replicate_of_lt hlt
  · rw [hpool]
    rfl
  · rw [hpool]
    rfl
  · intro request hmem
    rw [startWorkers_inHand] at hmem
    cases hmem

theorem exists_round [DecidableEq R] (maxRequests appenders : Nat) {workers : Nat}
    (conns : List C) (requests : Nat → R) : ∀ k, k ≤ workers → k ≤ conns.length →
      ∃ as s, exec (runStep maxRequests) (startWorkers (appenders + 1) workers conns) as =
          some s ∧ Round workers conns.length requests k s ∧
        ((∀ j < k, ∀ i < j, requests i ≠ requests j) →
          AllSteps (runStep maxRequests) Fresh (startWorkers (appenders + 1) workers conns) as) := by
  intro k
  induction k with
  | zero => exact fun _ _ => ⟨[], _, rfl, startWorkers_round _ _ _ _, fun _ => trivial⟩
  | succ k ih =>
    intro hk htotal
    obtain ⟨as, s, hexec, hround, hfresh⟩ := ih (by omega) (by omega)
    obtain ⟨bs, s', hexec', hround', hfresh'⟩ := hround.next hk htotal maxRequests
    refine ⟨as ++ bs, s', exec_append hexec hexec', hround', fun hnew => ?_⟩
    exact (hfresh fun j hj => hnew j (Nat.lt_succ_of_lt hj)).append hexec
      (hfresh' (hnew k (Nat.lt_succ_self k)))

/-- With more workers than connections, the worker behind the last connection gets `NULL`.  The
requests of the run may be any, and when they are different, none is appended that is under way. -/
theorem exists_null [DecidableEq R] (maxRequests appenders : Nat) {workers : Nat}
    {conns : List C} (hlt : conns.length < workers) (requests : Nat → R) :
    ∃ as s, exec (runStep maxRequests) (startWorkers (appenders + 1) workers conns) as = some s ∧
      s.Processes conns.length (requests conns.length) none ∧
      ((∀ j ≤ conns.length, ∀ i < j, requests i ≠ requests j) →
        AllSteps (runStep maxRequests) Fresh (startWorkers (appenders + 1) workers conns) as) := by
  obtain ⟨as, s, hexec, hround, hfresh⟩ := exists_round maxRequests appenders conns requests
    conns.length (Nat.le_of_lt hlt) (Nat.le_refl _)
  obtain ⟨queue, hqueue, -, -, -, hworkers⟩ :=
    hround.handsOver hlt (requests conns.length) maxRequests
  have hthread := hround.idle conns.length (Nat.le_refl _) hlt
  obtain ⟨hthreadlt, -⟩ := List.getElem?_eq_some_iff.mp hthread
  obtain ⟨hworkerlt, -⟩ :=
    List.getElem?_eq_some_iff.mp (hround.waiting conns.length (Nat.le_refl _) hlt)
  have hworker : queue.workers[conns.length]? = some (.processing (requests conns.length)) := by
    rw [hworkers, List.getElem?_set_self hworkerlt]
  have hnil : s.connPool.connList = [] :=
    List.length_eq_zero_iff.mp (by rw [hround.listed, Nat.sub_self])
  have hself : (s.connPool.threads.set conns.length (.holding none))[conns.length]? =
      some (.holding none) := List.getElem?_set_self hthreadlt
  refine ⟨as ++ handOver (requests conns.length) conns.length ++ [.conn (.check conns.length)],
    { s with
      queue := queue
      connPool := { s.connPool with
        threads := s.connPool.threads.set conns.length (.holding none) }
      mysql := Function.update s.mysql (requests conns.length) none },
    exec_append (exec_append hexec hqueue) ?_, ⟨hworker, hself⟩, fun hnew => ?_⟩
  · simp [exec, runStep, connStep, ConnAction.thread, hworker, hthread, hnil, hself]
  · have hbefore := hfresh fun j hj => hnew j (Nat.le_of_lt hj)
    have hlast : AllSteps (runStep maxRequests) Fresh s
        (handOver (requests conns.length) conns.length) :=
      hround.fresh (hnew conns.length (Nat.le_refl _))
    exact (hbefore.append hexec hlast).append (exec_append hexec hqueue)
      ⟨trivial, fun _ _ => trivial⟩

/-- No worker has got `NULL`. -/
def NoneNull (s : Workers R C) : Prop := ∀ i request, ¬ s.Processes i request none

theorem always_noneNull [DecidableEq R] {maxRequests appenders workers : Nat} {conns : List C}
    (h : appenders = 0 ∨ workers ≤ conns.length) (as : List (RunAction R)) :
    Always (runStep maxRequests) NoneNull (startWorkers appenders workers conns) as := by
  rcases h with rfl | hle
  · refine always_of_step (fun s => s = startWorkers 0 workers conns) ?_ ?_ rfl as
    · rintro s a s' rfl hstep
      rw [runStep_noAppender] at hstep
      cases hstep
    · rintro s rfl i request ⟨hworker, -⟩
      cases List.eq_of_mem_replicate (List.mem_of_getElem? hworker)
  · refine always_of_step (RunOk conns workers) (fun _ _ _ h hstep => runStep_ok h hstep) ?_
      (startWorkers_ok appenders workers conns) as
    rintro s h i request ⟨-, hthread⟩
    have hpos := count_pos (p := ConnPhase.isNull) hthread rfl
    rw [h.shared.null hle] at hpos
    exact absurd hpos (Nat.lt_irrefl 0)

/-- No worker gets `NULL` in any run, exactly when no thread appends or there are no more workers
than connections.  When there are more requests than connections, it is the same for the runs in
which no request is appended that is still in the queue or with a worker. -/
theorem never_null_iff [DecidableEq R] [Inhabited R] (maxRequests appenders workers : Nat)
    (conns : List C) :
    ((∀ as : List (RunAction R), Always (runStep maxRequests) NoneNull
        (startWorkers appenders workers conns) as) ↔
      appenders = 0 ∨ workers ≤ conns.length) ∧
    (Nonempty (Fin (conns.length + 1) ↪ R) →
      ((∀ as : List (RunAction R),
          AllSteps (runStep maxRequests) Fresh (startWorkers appenders workers conns) as →
          Always (runStep maxRequests) NoneNull (startWorkers appenders workers conns) as) ↔
        appenders = 0 ∨ workers ≤ conns.length)) := by
  refine ⟨⟨fun h => ?_, always_noneNull⟩, fun ⟨requests⟩ =>
    ⟨fun h => ?_, fun hle as _ => always_noneNull hle as⟩⟩
  · rcases appenders with _ | appenders
    · exact .inl rfl
    refine .inr (Nat.le_of_not_lt fun hlt => ?_)
    obtain ⟨as, s, hexec, hnull, -⟩ :=
      exists_null maxRequests appenders hlt (fun _ => (default : R))
    exact (h as).last hexec _ _ hnull
  · rcases appenders with _ | appenders
    · exact .inl rfl
    refine .inr (Nat.le_of_not_lt fun hlt => ?_)
    obtain ⟨as, s, hexec, hnull, hfresh⟩ := exists_null maxRequests appenders hlt
      (fun i => requests (Fin.ofNat (conns.length + 1) i))
    refine (h as (hfresh ?_)).last hexec _ _ hnull
    intro j hj i hi heq
    have hval := congrArg Fin.val (requests.injective heq)
    simp only [Fin.ofNat] at hval
    rw [Nat.mod_eq_of_lt (by omega), Nat.mod_eq_of_lt (by omega)] at hval
    omega

/-! ## At rest -/

/-- The steps that a thread still has to take for one connection, from this phase on. -/
def ConnPhase.left : ConnPhase C → Nat
  | .idle => 5
  | .waiting => 4
  | .taking => 3
  | .holding _ => 2
  | .posting => 1

/-- The weight of a worker: it has more to do with a request than its `connectionRAII` takes. -/
def WorkerPhase.left : WorkerPhase R → Nat
  | .waiting => 0
  | .dequeuing => 1
  | .processing _ => 6

/-- The weight of the queue. -/
def Threadpool.left (s : Threadpool R) : Nat :=
  3 * s.posting + 2 * s.queuestat + 7 * s.workqueue.length + total WorkerPhase.left s.workers

/-- The weight of the state, which every step without a new request makes less. -/
def Workers.left (s : Workers R C) : Nat :=
  s.queue.left + total ConnPhase.left s.connPool.threads

theorem ConnPhase.Next.left_lt {old new : ConnPhase C} (h : old.Next new) (hidle : new ≠ .idle) :
    new.left < old.left := by
  cases h with
  | releaseNull => exact absurd rfl hidle
  | post => exact absurd rfl hidle
  | check => exact Nat.lt_succ_self _
  | null => exact Nat.lt_of_sub_eq_succ rfl
  | wait => exact Nat.lt_succ_self _
  | take con => exact Nat.lt_succ_self _
  | release con => exact Nat.lt_succ_self _

theorem WorkerPhase.left_le (phase : WorkerPhase R) : phase.left ≤ 6 := by
  cases phase with
  | waiting => exact Nat.zero_le _
  | dequeuing => exact Nat.le_add_left _ _
  | processing request => exact Nat.le_refl _

/-- A step on the queue makes its weight less, unless it is `append`. -/
theorem PoolMove.left_lt {maxRequests : Nat} {s s' : Threadpool R} {a : PoolAction R}
    (h : PoolMove maxRequests s a s') (hown : (RunAction.queue a).own = true)
    (hfinish : ∀ j, a ≠ .finish j) : s'.left < s.left := by
  cases h with
  | refuse => cases hown
  | append => cases hown
  | post i hi =>
    have hleave : count AppendPhase.isPosting (s.appenders.set i .ready) + 1 = s.posting :=
      count_leave hi rfl rfl
    show 3 * count AppendPhase.isPosting (s.appenders.set i .ready) + 2 * (s.queuestat + 1) +
      7 * s.workqueue.length + total WorkerPhase.left s.workers < s.left
    rw [Threadpool.left, ← hleave]
    omega
  | wait j value hj hvalue =>
    have hset := total_set WorkerPhase.left hj .dequeuing
    show 3 * s.posting + 2 * value + 7 * s.workqueue.length +
      total WorkerPhase.left (s.workers.set j .dequeuing) < s.left
    rw [Threadpool.left, hvalue]
    simp only [WorkerPhase.left] at hset
    omega
  | popNothing j hj hqueue =>
    have hset := total_set WorkerPhase.left hj .waiting
    show 3 * s.posting + 2 * s.queuestat + 7 * s.workqueue.length +
      total WorkerPhase.left (s.workers.set j .waiting) < s.left
    rw [Threadpool.left]
    simp only [WorkerPhase.left] at hset
    omega
  | pop j ticket rest hj hqueue =>
    have hpop : ∀ phase : WorkerPhase R, 3 * s.posting + 2 * s.queuestat + 7 * rest.length +
        total WorkerPhase.left (s.workers.set j phase) < s.left := by
      intro phase
      have hset : total WorkerPhase.left (s.workers.set j phase) + 1 =
          total WorkerPhase.left s.workers + phase.left := total_set WorkerPhase.left hj phase
      have hle := phase.left_le
      rw [Threadpool.left, hqueue, List.length_cons]
      omega
    rcases ticket with ⟨number, _ | request⟩
    · exact hpop .waiting
    · exact hpop (.processing request)
  | finish j => exact absurd rfl (hfinish j)

/-- Every step makes the weight less, unless a request comes. -/
theorem RunMove.left_lt [DecidableEq R] {maxRequests : Nat} {s s' : Workers R C}
    {a : RunAction R} (h : RunMove maxRequests s a s') (hown : a.own = true) :
    s'.left < s.left := by
  have htakes : ∀ {a : ConnAction} {request : R} {old new : ConnPhase C}
      {connPool : ConnectionPool C}, s.Takes a request old new connPool →
      total ConnPhase.left connPool.threads + old.left =
        total ConnPhase.left s.connPool.threads + new.left := by
    intro a request old new connPool h
    rw [h.threads]
    exact total_set ConnPhase.left h.phase new
  cases h with
  | queue a queue hfinish hmove =>
    exact Nat.add_lt_add_right (hmove.left_lt hown hfinish) _
  | goOn a request old new connPool h hidle =>
    have hlt := h.next.left_lt hidle
    have htotal := htakes h
    show s.queue.left + total ConnPhase.left connPool.threads < s.left
    rw [Workers.left]
    omega
  | getConnection a request old con connPool h =>
    have hlt := h.next.left_lt (fun h => by cases h)
    have htotal := htakes h
    show s.queue.left + total ConnPhase.left connPool.threads < s.left
    rw [Workers.left]
    omega
  | finish a request old connPool h =>
    have htotal := htakes h
    have hset := total_set WorkerPhase.left h.worker .waiting
    simp only [WorkerPhase.left, ConnPhase.left] at hset htotal
    show 3 * s.queue.posting + 2 * s.queue.queuestat + 7 * s.queue.workqueue.length +
        total WorkerPhase.left (s.queue.workers.set a.thread .waiting) +
      total ConnPhase.left connPool.threads < s.left
    rw [Workers.left, Threadpool.left]
    omega

/-- No thread can take a step, unless a request comes. -/
def Idle [DecidableEq R] (maxRequests : Nat) (s : Workers R C) : Prop :=
  ∀ a, a.own = true → runStep maxRequests s a = none

/-- The pool is at rest: every worker waits for a request, what was accepted was handed out in
its order, and the connections are back. -/
structure AtRest (conns : List C) (s : Workers R C) : Prop where
  workqueue : s.queue.workqueue = []
  handed : s.queue.accepted = s.queue.dequeued.map Prod.snd
  waiting : ∀ phase ∈ s.queue.workers, phase = .waiting
  outside : ∀ phase ∈ s.connPool.threads, phase = .idle
  connections : s.connPool.connList.Perm conns

namespace RunOk

variable {conns : List C} {workers : Nat} {s : Workers R C}

/-- A worker that has a request has a thread in the connection pool. -/
theorem thread (h : RunOk conns workers s) {i : Nat} {phase : WorkerPhase R}
    (hi : s.queue.workers[i]? = some phase) :
    ∃ phase, s.connPool.threads[i]? = some phase := by
  obtain ⟨hlt, -⟩ := List.getElem?_eq_some_iff.mp hi
  rw [h.size, ← h.shared.length] at hlt
  exact ⟨_, List.getElem?_eq_getElem hlt⟩

/-- Where no step is possible, none is possible in the `connectionRAII` of a worker with a
request. -/
theorem connStep_of_idle [DecidableEq R] {maxRequests : Nat} (hidle : Idle maxRequests s)
    (a : ConnAction) {request : R}
    (hi : s.queue.workers[a.thread]? = some (.processing request)) :
    connStep s.connPool a = none := by
  rcases hconn : connStep s.connPool a with _ | connPool
  · rfl
  · have hnone := hidle (.conn a) rfl
    rw [runStep, hi, hconn] at hnone
    simp only [poolStep, hi, Option.map_some] at hnone
    split at hnone <;> cases hnone

/-- There it waits for a connection. -/
theorem waits_of_idle [DecidableEq R] (h : RunOk conns workers s) {maxRequests : Nat}
    (hidle : Idle maxRequests s) {i : Nat} {request : R}
    (hi : s.queue.workers[i]? = some (.processing request)) :
    s.connPool.threads[i]? = some .waiting ∧ s.connPool.reserve = 0 := by
  obtain ⟨phase, hthread⟩ := h.thread hi
  cases phase with
  | idle =>
    have hnone := connStep_of_idle hidle (.check i) hi
    rw [connStep, hthread] at hnone
    rcases hlist : s.connPool.connList with _ | ⟨con, rest⟩
    · rw [hlist] at hnone
      cases hnone
    · rw [hlist] at hnone
      cases hnone
  | waiting =>
    have hnone := connStep_of_idle hidle (.wait i) hi
    rw [connStep, hthread] at hnone
    rcases hvalue : s.connPool.reserve with _ | value
    · exact ⟨hthread, rfl⟩
    · rw [hvalue] at hnone
      cases hnone
  | taking =>
    have hnone := connStep_of_idle hidle (.take i) hi
    rw [connStep, hthread] at hnone
    cases hnone
  | holding con =>
    have hnone := connStep_of_idle hidle (.release i) hi
    rw [connStep, hthread] at hnone
    cases con <;> cases hnone
  | posting =>
    have hnone := connStep_of_idle hidle (.post i) hi
    rw [connStep, hthread] at hnone
    cases hnone

/-- Then no worker has a request: those that wait for a connection wait for one that has it, and
that one can go on. -/
theorem not_processing_of_idle [DecidableEq R] (h : RunOk conns workers s) {maxRequests : Nat}
    (hidle : Idle maxRequests s) (i : Nat) (request : R) :
    s.queue.workers[i]? ≠ some (.processing request) := by
  intro hi
  obtain ⟨hwaiting, hreserve⟩ := h.waits_of_idle hidle hi
  have hphase : ∀ phase ∈ s.connPool.threads, phase = .idle ∨ phase = .waiting := by
    intro phase hmem
    obtain ⟨j, hj⟩ := List.getElem?_of_mem hmem
    by_cases hne : phase = .idle
    · exact .inl hne
    · obtain ⟨request', hworker⟩ := h.inside j phase hj hne
      obtain ⟨hthread, -⟩ := h.waits_of_idle hidle hworker
      rw [hj] at hthread
      exact .inr (Option.some.inj hthread)
  have hcount : ∀ p : ConnPhase C → Bool, p .idle = false → p .waiting = false →
      count p s.connPool.threads = 0 := by
    intro p hp hp'
    refine List.countP_eq_zero.mpr fun phase hmem => ?_
    rcases hphase phase hmem with rfl | rfl
    · rw [hp]
      exact Bool.false_ne_true
    · rw [hp']
      exact Bool.false_ne_true
  have hheld : s.connPool.heldConns = [] := by
    refine List.flatMap_eq_nil_iff.mpr fun phase hmem => ?_
    rcases hphase phase hmem with rfl | rfl <;> rfl
  have hbalance := h.shared.balance
  rw [hreserve, hcount _ rfl rfl, hcount _ rfl rfl] at hbalance
  have hall := h.shared.all.length_eq
  rw [hheld, List.append_nil, hbalance] at hall
  exact h.waits i hwaiting (List.length_eq_zero_iff.mp hall.symm)

/-- What is left then. -/
theorem atRest [DecidableEq R] (h : RunOk conns workers s) (hworkers : 0 < workers)
    {maxRequests : Nat} (hidle : Idle maxRequests s) : AtRest conns s := by
  have hqueue : ∀ a : PoolAction R, (RunAction.queue a).own = true → (∀ j, a ≠ .finish j) →
      poolStep maxRequests s.queue a = none := by
    intro a hown hfinish
    have hnone := hidle (.queue a) hown
    cases a with
    | finish j => exact absurd rfl (hfinish j)
    | append i request => cases hown
    | post i => exact Option.map_eq_none_iff.mp hnone
    | wait j => exact Option.map_eq_none_iff.mp hnone
    | pop j => exact Option.map_eq_none_iff.mp hnone
  have hwaiting : ∀ phase ∈ s.queue.workers, phase = .waiting := by
    intro phase hmem
    obtain ⟨j, hj⟩ := List.getElem?_of_mem hmem
    cases phase with
    | waiting => rfl
    | processing request => exact absurd hj (h.not_processing_of_idle hidle j request)
    | dequeuing =>
      have hnone := hqueue (.pop j) rfl (fun _ h => by cases h)
      rw [poolStep, hj] at hnone
      rcases hlist : s.queue.workqueue with _ | ⟨ticket, rest⟩
      · rw [hlist] at hnone
        cases hnone
      · rw [hlist] at hnone
        cases hnone
  have houtside : ∀ phase ∈ s.connPool.threads, phase = .idle := by
    intro phase hmem
    obtain ⟨j, hj⟩ := List.getElem?_of_mem hmem
    by_contra hne
    obtain ⟨request, hworker⟩ := h.inside j phase hj hne
    exact h.not_processing_of_idle hidle j request hworker
  have hstat : s.queue.queuestat = 0 := by
    have hlt : 0 < s.queue.workers.length := by
      rw [h.size]
      exact hworkers
    have hzero : s.queue.workers[0]? = some .waiting := by
      rw [List.getElem?_eq_getElem hlt, hwaiting _ (List.getElem_mem hlt)]
    have hnone := hqueue (.wait 0) rfl (fun _ h => by cases h)
    rw [poolStep, hzero] at hnone
    rcases hvalue : s.queue.queuestat with _ | value
    · rfl
    · rw [hvalue] at hnone
      cases hnone
  have hposting : s.queue.posting = 0 := by
    refine List.countP_eq_zero.mpr fun phase hmem => ?_
    obtain ⟨i, hi⟩ := List.getElem?_of_mem hmem
    cases phase with
    | ready => exact Bool.false_ne_true
    | posting =>
      have hnone := hqueue (.post i) rfl (fun _ h => by cases h)
      rw [poolStep, hi] at hnone
      cases hnone
  have hdequeuing : s.queue.dequeuing = 0 := by
    refine List.countP_eq_zero.mpr fun phase hmem => ?_
    rw [hwaiting phase hmem]
    exact Bool.false_ne_true
  have hempty := h.balanced.queueOk.awake hstat hposting hdequeuing
  exact {
    workqueue := hempty
    handed := by
      have hfifo := h.balanced.fifo
      rwa [hempty, List.append_nil] at hfifo
    waiting := hwaiting
    outside := houtside
    connections := by
      have hheld : s.connPool.heldConns = [] := by
        refine List.flatMap_eq_nil_iff.mpr fun phase hmem => ?_
        rw [houtside phase hmem]
        rfl
      have hall := h.shared.all
      rwa [hheld, List.append_nil] at hall }

end RunOk

/-- In every run, however few connections there are: without new requests the workers come to a
state in which none of them can go on, and there the pool is at rest. -/
theorem workers_come_to_rest [DecidableEq R] (maxRequests appenders : Nat) {workers : Nat}
    (hworkers : 0 < workers) (conns : List C) (as : List (RunAction R)) :
    Always (runStep maxRequests) (fun s =>
      (∃ bound, ∀ (bs : List (RunAction R)) s', (∀ b ∈ bs, b.own = true) →
        exec (runStep maxRequests) s bs = some s' → bs.length ≤ bound) ∧
      (Idle maxRequests s → AtRest conns s)) (startWorkers appenders workers conns) as := by
  refine always_of_step (RunOk conns workers) (fun _ _ _ h hstep => runStep_ok h hstep) ?_
    (startWorkers_ok appenders workers conns) as
  intro s h
  refine ⟨⟨s.left, fun bs s' hown hexec => ?_⟩, h.atRest hworkers⟩
  refine length_le_of_decreasing (fun s m => RunOk conns workers s ∧ s.left = m)
    (fun b : RunAction R => b.own = true) ?_ ⟨h, rfl⟩ hown hexec
  rintro s a s' m ⟨hs, rfl⟩ ha hstep
  have hmove := runStep_inv hs hstep
  exact ⟨s'.left, hmove.left_lt ha, hs.move hmove, rfl⟩

/-- Two workers and one connection: both requests are served. -/
theorem workers_come_to_rest_two :
    Always (runStep 10) (fun s =>
      (∃ bound, ∀ (bs : List (RunAction Nat)) s', (∀ b ∈ bs, b.own = true) →
        exec (runStep 10) s bs = some s' → bs.length ≤ bound) ∧
      (Idle 10 s → AtRest [5] s)) (startWorkers 1 2 [5])
      ([.append 0 (some 7), .post 0, .append 0 (some 8), .post 0, .wait 0, .pop 0, .wait 1,
        .pop 1].map RunAction.queue ++
        [.check 0, .wait 0, .check 1, .take 0, .release 0, .post 0, .wait 1, .take 1, .release 1,
          .post 1].map RunAction.conn) :=
  workers_come_to_rest 10 1 (by decide) [5] _

end EasyWebServer.Post
