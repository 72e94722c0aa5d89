import EasyWebServer.Lib.Threads
import EasyWebServer.Lib.Transition

/-!
# connection_pool

The database connections that the workers share.

`GetConnection` reads the length of the list without the mutex, waits for the
semaphore, and then takes the first connection under the mutex.
`ReleaseConnection` puts it back under the mutex, and then posts.  Each of these
is one step of a thread here (`ConnAction`), and a thread holds at most one
connection, as in `connectionRAII`.

The list, the two counters and the semaphore are never changed together.
`Shared` says how they differ while threads are between their steps.
-/

namespace EasyWebServer.Post

open Threads Transition

variable {C : Type*}

/-! ## The state -/

/-- Where a thread is. -/
inductive ConnPhase (C : Type*) where
  /-- Before a call of `GetConnection`. -/
  | idle
  /-- Behind the check of the length, before `reserve.wait()`. -/
  | waiting
  /-- Behind `wait`, before the critical section of `GetConnection`. -/
  | taking
  /-- `GetConnection` has returned this connection, or `NULL`. -/
  | holding (con : Option C)
  /-- Behind the critical section of `ReleaseConnection`, before `reserve.post()`. -/
  | posting
  deriving DecidableEq, Repr

/-- A `connection_pool`, and the threads that use it.  `undefined` records a
`pop_front` on an empty list. -/
structure ConnectionPool (C : Type*) where
  connList : List C
  freeConn : Int
  curConn : Int
  maxConn : Int
  reserve : Nat
  threads : List (ConnPhase C)
  undefined : Bool

namespace ConnectionPool

/-- The constructor, with threads before their first steps. -/
def new (threads : Nat) : ConnectionPool C where
  connList := []
  freeConn := 0
  curConn := 0
  maxConn := 0
  reserve := 0
  threads := List.replicate threads .idle
  undefined := false

/-- The body of the loop of `init`, for a connection that was made. -/
def addConn (s : ConnectionPool C) (con : C) : ConnectionPool C :=
  { s with connList := s.connList ++ [con], freeConn := s.freeConn + 1 }

/-- `init`, for the connections that are made. -/
def init (s : ConnectionPool C) (conns : List C) : ConnectionPool C :=
  let s := conns.foldl addConn { s with freeConn := 0 }
  { s with reserve := s.freeConn.toNat, maxConn := s.freeConn }

/-- The critical section of `GetConnection`, by the thread `i`. -/
def take (s : ConnectionPool C) (i : Nat) : ConnectionPool C :=
  match s.connList with
  | [] => { s with undefined := true }
  | con :: rest =>
      { s with
        connList := rest
        freeConn := s.freeConn - 1
        curConn := s.curConn + 1
        threads := s.threads.set i (.holding (some con)) }

/-- The critical section of `ReleaseConnection`, by the thread `i`. -/
def putBack (s : ConnectionPool C) (i : Nat) (con : C) : ConnectionPool C :=
  { s with
    connList := s.connList ++ [con]
    freeConn := s.freeConn + 1
    curConn := s.curConn - 1
    threads := s.threads.set i .posting }

end ConnectionPool

/-- A step of the thread with this index. -/
inductive ConnAction where
  /-- `connList.size()`. -/
  | check (i : Nat)
  /-- `reserve.wait()`. -/
  | wait (i : Nat)
  /-- The critical section of `GetConnection`. -/
  | take (i : Nat)
  /-- The critical section of `ReleaseConnection`, or its return for `NULL`. -/
  | release (i : Nat)
  /-- `reserve.post()`. -/
  | post (i : Nat)
  deriving DecidableEq, Repr

/-- One step.  `wait` sleeps while the semaphore is zero. -/
def connStep (s : ConnectionPool C) : ConnAction → Option (ConnectionPool C)
  | .check i =>
      match s.threads[i]?, s.connList with
      | some .idle, [] => some { s with threads := s.threads.set i (.holding none) }
      | some .idle, _ :: _ => some { s with threads := s.threads.set i .waiting }
      | _, _ => none
  | .wait i =>
      match s.threads[i]?, s.reserve with
      | some .waiting, value + 1 =>
          some { s with reserve := value, threads := s.threads.set i .taking }
      | _, _ => none
  | .take i =>
      match s.threads[i]? with
      | some .taking => some (s.take i)
      | _ => none
  | .release i =>
      match s.threads[i]? with
      | some (.holding none) => some { s with threads := s.threads.set i .idle }
      | some (.holding (some con)) => some (s.putBack i con)
      | _ => none
  | .post i =>
      match s.threads[i]? with
      | some .posting =>
          some { s with reserve := s.reserve + 1, threads := s.threads.set i .idle }
      | _ => none

/-! ## The invariant -/

namespace ConnPhase

/-- The connection of a thread. -/
def held : ConnPhase C → List C
  | .holding (some con) => [con]
  | _ => []

/-- Behind `wait`, before the list. -/
def isTaking : ConnPhase C → Bool
  | .taking => true
  | _ => false

/-- Behind the list, before `post`. -/
def isPosting : ConnPhase C → Bool
  | .posting => true
  | _ => false

/-- `GetConnection` has returned `NULL`. -/
def isNull : ConnPhase C → Bool
  | .holding none => true
  | _ => false

end ConnPhase

namespace ConnectionPool

/-- The connections that are popped and not pushed back. -/
def heldConns (s : ConnectionPool C) : List C := holdings ConnPhase.held s.threads

end ConnectionPool

/-- The connections of the pool are in the list or with the threads, and the
counters and the semaphore follow the list. -/
structure Shared (conns : List C) (threads : Nat) (s : ConnectionPool C) : Prop where
  all : (s.connList ++ s.heldConns).Perm conns
  free : s.freeConn = s.connList.length
  cur : s.curConn = s.heldConns.length
  max : s.maxConn = conns.length
  balance : s.connList.length =
    s.reserve + count ConnPhase.isTaking s.threads + count ConnPhase.isPosting s.threads
  length : s.threads.length = threads
  defined : s.undefined = false
  null : threads ≤ conns.length → count ConnPhase.isNull s.threads = 0

theorem init_fold (conns : List C) : ∀ s : ConnectionPool C,
    conns.foldl ConnectionPool.addConn s =
      { s with connList := s.connList ++ conns, freeConn := s.freeConn + conns.length } := by
  induction conns with
  | nil =>
      intro s
      rw [List.foldl_nil, List.append_nil, List.length_nil, Int.natCast_zero, Int.add_zero]
  | cons con conns ih =>
      intro s
      have hsum : s.freeConn + 1 + (conns.length : Int) = s.freeConn + (conns.length + 1 : Nat) := by
        omega
      rw [List.foldl_cons, ih, ConnectionPool.addConn, List.length_cons, ← hsum, ← List.append_cons]

theorem holdings_replicate_idle (n : Nat) :
    holdings ConnPhase.held (List.replicate n (.idle : ConnPhase C)) = [] := by
  induction n with
  | zero => rfl
  | succ n ih => exact ih

/-- `init` puts every connection into the list. -/
theorem init_shared (threads : Nat) (conns : List C) :
    Shared conns threads ((ConnectionPool.new threads).init conns) := by
  have hcount : ∀ p : ConnPhase C → Bool, p .idle = false →
      count p (List.replicate threads .idle) = 0 := by
    intro p hp
    exact List.countP_replicate.trans (if_neg (by rw [hp]; exact Bool.false_ne_true))
  rw [ConnectionPool.init, init_fold]
  have hheld := holdings_replicate_idle (C := C) threads
  exact {
    all := by
      show ([] ++ conns ++ holdings ConnPhase.held (List.replicate threads .idle)).Perm conns
      rw [hheld, List.nil_append, List.append_nil]
    free := Int.zero_add _
    cur := by
      show (0 : Int) = (holdings ConnPhase.held (List.replicate threads .idle)).length
      rw [hheld]
      rfl
    max := Int.zero_add _
    balance := by
      show ([] ++ conns).length = (0 + (conns.length : Int)).toNat +
        count ConnPhase.isTaking (List.replicate threads .idle) +
        count ConnPhase.isPosting (List.replicate threads .idle)
      rw [hcount _ rfl, hcount _ rfl, List.nil_append]
      omega
    length := List.length_replicate
    defined := rfl
    null := fun _ => hcount _ rfl }

namespace Shared

variable {conns : List C} {threads : Nat} {s : ConnectionPool C}

/-- A step that leaves the list, and what the thread has.  The semaphore changes by
what the phases of the thread count. -/
theorem move (h : Shared conns threads s) {i : Nat} {old new : ConnPhase C} {reserve : Nat}
    (hi : s.threads[i]? = some old) (hheld : new.held = old.held)
    (hreserve : reserve + (if new.isTaking then 1 else 0) + (if new.isPosting then 1 else 0) =
      s.reserve + (if old.isTaking then 1 else 0) + (if old.isPosting then 1 else 0))
    (hnull : threads ≤ conns.length → new.isNull = false) :
    Shared conns threads { s with reserve := reserve, threads := s.threads.set i new } := by
  have hperm : (holdings ConnPhase.held (s.threads.set i new)).Perm s.heldConns := by
    have hset := holdings_set_perm ConnPhase.held hi new
    rw [hheld] at hset
    exact (List.perm_append_left_iff _).mp hset
  exact {
    all := (hperm.append_left s.connList).trans h.all
    free := h.free
    cur := h.cur.trans (congrArg Int.ofNat hperm.length_eq.symm)
    max := h.max
    balance := by
      have htaking := count_set ConnPhase.isTaking hi new
      have hposting := count_set ConnPhase.isPosting hi new
      have hbalance := h.balance
      show s.connList.length = reserve + count ConnPhase.isTaking (s.threads.set i new) +
        count ConnPhase.isPosting (s.threads.set i new)
      omega
    length := by
      show (s.threads.set i new).length = threads
      rw [List.length_set, h.length]
    defined := h.defined
    null := by
      intro hle
      have hset := count_set ConnPhase.isNull hi new
      rw [hnull hle, h.null hle, if_neg Bool.false_ne_true] at hset
      show count ConnPhase.isNull (s.threads.set i new) = 0
      omega }

/-- A thread that is idle sees a connection, when there are no more threads than
connections. -/
theorem list_ne_nil (h : Shared conns threads s) (hle : threads ≤ conns.length) {i : Nat}
    (hi : s.threads[i]? = some .idle) : s.connList ≠ [] := by
  intro hnil
  have hone : ∀ t : ConnPhase C, t.held.length ≤ 1 := by
    intro t
    rcases t with _ | _ | _ | ⟨_ | con⟩ | _ <;> simp [ConnPhase.held]
  have hlt : s.heldConns.length < s.threads.length := length_holdings_lt hone hi rfl
  have hall := h.all.length_eq
  rw [hnil, List.nil_append] at hall
  rw [h.length] at hlt
  omega

/-- A thread that passed `wait` finds a connection. -/
theorem found (h : Shared conns threads s) {i : Nat} (hi : s.threads[i]? = some .taking) :
    s.connList ≠ [] := by
  have hpos := count_pos (p := ConnPhase.isTaking) hi rfl
  have hbalance := h.balance
  intro hnil
  rw [hnil, List.length_nil] at hbalance
  omega

/-- A connection goes from the list to a thread. -/
theorem take (h : Shared conns threads s) {i : Nat} (hi : s.threads[i]? = some .taking) :
    Shared conns threads (s.take i) := by
  rcases hlist : s.connList with _ | ⟨con, rest⟩
  · exact absurd hlist (h.found hi)
  · have hset := holdings_set_perm ConnPhase.held hi (.holding (some con))
    have htaking : count ConnPhase.isTaking (s.threads.set i (.holding (some con))) + 1 =
        count ConnPhase.isTaking s.threads := count_leave hi rfl rfl
    have hposting : count ConnPhase.isPosting (s.threads.set i (.holding (some con))) =
        count ConnPhase.isPosting s.threads := count_stay hi rfl
    have hnull : count ConnPhase.isNull (s.threads.set i (.holding (some con))) =
        count ConnPhase.isNull s.threads := count_stay hi rfl
    have hall := h.all
    have hfree := h.free
    have hbalance := h.balance
    rw [hlist] at hall hfree hbalance
    rw [List.length_cons] at hfree hbalance
    rw [ConnectionPool.take, hlist]
    exact {
      all := by
        show (rest ++ holdings ConnPhase.held (s.threads.set i _)).Perm conns
        have hmove : (rest ++ (con :: s.heldConns)).Perm (con :: rest ++ s.heldConns) :=
          List.perm_middle
        exact ((hset.append_left rest).trans hmove).trans hall
      free := by
        show s.freeConn - 1 = rest.length
        omega
      cur := by
        have hlen : (holdings ConnPhase.held (s.threads.set i (.holding (some con)))).length =
          s.heldConns.length + 1 := hset.length_eq
        show s.curConn + 1 = (holdings ConnPhase.held (s.threads.set i _)).length
        rw [hlen, h.cur]
        rfl
      max := h.max
      balance := by
        show rest.length = s.reserve + count ConnPhase.isTaking (s.threads.set i _) +
          count ConnPhase.isPosting (s.threads.set i _)
        omega
      length := by
        show (s.threads.set i _).length = threads
        rw [List.length_set, h.length]
      defined := h.defined
      null := fun hle => hnull.trans (h.null hle) }

/-- A connection goes from a thread to the list. -/
theorem putBack (h : Shared conns threads s) {i : Nat} {con : C}
    (hi : s.threads[i]? = some (.holding (some con))) :
    Shared conns threads (s.putBack i con) := by
  have hset : (con :: holdings ConnPhase.held (s.threads.set i .posting)).Perm s.heldConns :=
    holdings_set_perm ConnPhase.held hi .posting
  have htaking : count ConnPhase.isTaking (s.threads.set i .posting) =
      count ConnPhase.isTaking s.threads := count_stay hi rfl
  have hposting : count ConnPhase.isPosting (s.threads.set i .posting) =
      count ConnPhase.isPosting s.threads + 1 := count_enter hi rfl rfl
  have hnull : count ConnPhase.isNull (s.threads.set i .posting) =
      count ConnPhase.isNull s.threads := count_stay hi rfl
  have hfree := h.free
  have hcur := h.cur
  have hlen := hset.length_eq
  rw [List.length_cons] at hlen
  exact {
    all := by
      show (s.connList ++ [con] ++ holdings ConnPhase.held (s.threads.set i .posting)).Perm conns
      rw [List.append_assoc]
      exact (hset.append_left s.connList).trans h.all
    free := by
      show s.freeConn + 1 = (s.connList ++ [con]).length
      rw [List.length_append, List.length_singleton]
      omega
    cur := by
      show s.curConn - 1 = (holdings ConnPhase.held (s.threads.set i .posting)).length
      omega
    max := h.max
    balance := by
      show (s.connList ++ [con]).length = s.reserve +
        count ConnPhase.isTaking (s.threads.set i .posting) +
        count ConnPhase.isPosting (s.threads.set i .posting)
      rw [List.length_append, htaking, hposting, h.balance, List.length_singleton]
      omega
    length := by
      show (s.threads.set i .posting).length = threads
      rw [List.length_set, h.length]
    defined := h.defined
    null := fun hle => hnull.trans (h.null hle) }

end Shared

theorem connStep_shared {conns : List C} {threads : Nat} {s s' : ConnectionPool C}
    {a : ConnAction} (h : Shared conns threads s) (hstep : connStep s a = some s') :
    Shared conns threads s' := by
  rcases a with i | i | i | i | i
  · rw [connStep] at hstep
    split at hstep
    · rename_i hi hlist
      cases hstep
      exact h.move hi rfl rfl (fun hle => absurd hlist (h.list_ne_nil hle hi))
    · rename_i hi _
      cases hstep
      exact h.move hi rfl rfl (fun _ => rfl)
    · cases hstep
  · rw [connStep] at hstep
    split at hstep
    · rename_i value hi hvalue
      cases hstep
      exact h.move hi rfl hvalue.symm (fun _ => rfl)
    · cases hstep
  · rw [connStep] at hstep
    split at hstep
    · rename_i hi
      cases hstep
      exact h.take hi
    · cases hstep
  · rw [connStep] at hstep
    split at hstep
    · rename_i hi
      cases hstep
      exact h.move hi rfl rfl (fun _ => rfl)
    · rename_i con hi
      cases hstep
      exact h.putBack hi
    · cases hstep
  · rw [connStep] at hstep
    split at hstep
    · rename_i hi
      cases hstep
      exact h.move hi rfl rfl (fun _ => rfl)
    · cases hstep

/-! ## Every run -/

/-- What the threads rely on: no `pop_front` meets an empty list, a connection has
one place, the counters count, and `GetConnection` returns `NULL` only when there
are more threads than connections. -/
structure PoolOk (threads : Nat) (s : ConnectionPool C) : Prop where
  defined : s.undefined = false
  taking : ∀ i : Nat, s.threads[i]? = some .taking → s.connList ≠ []
  one_thread : ∀ (i j : Nat) (con : C), s.threads[i]? = some (.holding (some con)) →
    s.threads[j]? = some (.holding (some con)) → i = j
  not_listed : ∀ (i : Nat) (con : C), s.threads[i]? = some (.holding (some con)) →
    con ∉ s.connList
  listed_once : s.connList.Nodup
  free : s.freeConn = s.connList.length
  cur : s.curConn = s.heldConns.length
  sum : s.freeConn + s.curConn = s.maxConn
  not_null : (threads : Int) ≤ s.maxConn → ∀ i : Nat, s.threads[i]? ≠ some (.holding none)

theorem Shared.poolOk {conns : List C} {threads : Nat} {s : ConnectionPool C}
    (h : Shared conns threads s) (hconns : conns.Nodup) : PoolOk threads s := by
  obtain ⟨hlisted, hheld, hdisjoint⟩ := List.nodup_append'.mp (h.all.nodup_iff.mpr hconns)
  exact {
    defined := h.defined
    taking := fun _ hi => h.found hi
    one_thread := fun _ _ con hi hj =>
      eq_of_nodup hheld hi hj List.mem_cons_self List.mem_cons_self
    not_listed := fun _ con hi hmem => hdisjoint hmem (mem_holdings hi List.mem_cons_self)
    listed_once := hlisted
    free := h.free
    cur := h.cur
    sum := by
      have hlen := h.all.length_eq
      rw [List.length_append] at hlen
      rw [h.free, h.cur, h.max]
      omega
    not_null := by
      intro hle i hi
      rw [h.max] at hle
      have hpos := count_pos (p := ConnPhase.isNull) hi rfl
      rw [h.null (by omega)] at hpos
      exact absurd hpos (Nat.lt_irrefl 0) }

/-- However many threads there are, and in whatever order they take their steps, the
pool shares its connections. -/
theorem always_poolOk {conns : List C} (hconns : conns.Nodup) (threads : Nat)
    (as : List ConnAction) :
    Always connStep (PoolOk threads) ((ConnectionPool.new threads).init conns) as :=
  always_of_step (Shared conns threads) (fun _ _ _ h hstep => connStep_shared h hstep)
    (fun _ h => h.poolOk hconns) (init_shared threads conns) as

/-- Two threads, one connection: the second waits for the first. -/
theorem always_poolOk_two :
    [7].Nodup ∧ Always connStep (PoolOk 2) ((ConnectionPool.new 2).init [7])
      [.check 0, .check 1, .wait 0, .take 0, .release 0, .post 0, .wait 1, .take 1] :=
  ⟨List.nodup_singleton 7, always_poolOk (List.nodup_singleton 7) 2 _⟩

end EasyWebServer.Post
