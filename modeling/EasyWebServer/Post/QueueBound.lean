import EasyWebServer.Post.Threadpool

/-!
# The bound of the request queue

`m_max_requests` is the largest number of requests that may wait.  `append` refuses a request
when the queue holds more than that, so the queue takes one request more, and
`always_length_le_succ` is the bound that it keeps.

`queueBounded_iff` says in which runs it keeps the documented one: those in which no thread
comes to a queue with exactly `m_max_requests` entries.
-/

namespace EasyWebServer.Post

open Transition

variable {R : Type*}

/-! ## The property -/

/-- What `append` returns. -/
def Threadpool.appendReturns (maxRequests : Nat) (s : Threadpool R) : Bool :=
  if maxRequests < s.workqueue.length then false else true

/-- `append` returns false exactly when the queue holds `m_max_requests` requests. -/
def AnswersFull (maxRequests : Nat) (s : Threadpool R) : PoolAction R → Prop
  | .append i _ => s.appenders[i]? = some .ready →
      (s.appendReturns maxRequests = false ↔ s.workqueue.length = maxRequests)
  | _ => True

/-- The queue keeps the bound, and `append` answers for it. -/
def QueueBounded (maxRequests appenders workers : Nat) (as : List (PoolAction R)) : Prop :=
  Always (poolStep maxRequests) (fun s => s.workqueue.length ≤ maxRequests)
      (startThreadpool appenders workers) as ∧
    AllSteps (poolStep maxRequests) (AnswersFull maxRequests)
      (startThreadpool appenders workers) as

/-- No thread appends to a queue that holds exactly `m_max_requests` requests. -/
def NotFull (maxRequests : Nat) (s : Threadpool R) : PoolAction R → Prop
  | .append i _ => s.appenders[i]? = some .ready → s.workqueue.length ≠ maxRequests
  | _ => True

/-! ## The length of the queue -/

/-- `append` pushes the request exactly when it returns true. -/
theorem poolStep_append {maxRequests i : Nat} {s : Threadpool R} (hi : s.appenders[i]? = some .ready)
    (request : Option R) :
    poolStep maxRequests s (.append i request) = some
      (if s.appendReturns maxRequests then
        { s with
          workqueue := s.workqueue ++ [⟨s.accepted.length, request⟩]
          appenders := s.appenders.set i .posting
          accepted := s.accepted ++ [⟨s.accepted.length, request⟩] }
      else s) := by
  by_cases hfull : maxRequests < s.workqueue.length
  · simp only [poolStep, hi, Threadpool.appendReturns, if_pos hfull, Bool.false_eq_true, if_false]
  · simp only [poolStep, hi, Threadpool.appendReturns, if_neg hfull, if_true]

theorem appendReturns_eq_true {maxRequests : Nat} {s : Threadpool R} :
    s.appendReturns maxRequests = true ↔ s.workqueue.length ≤ maxRequests := by
  rw [Threadpool.appendReturns]
  split
  · exact iff_of_false Bool.false_ne_true (by omega)
  · exact iff_of_true rfl (by omega)

theorem appendReturns_eq_false {maxRequests : Nat} {s : Threadpool R} :
    s.appendReturns maxRequests = false ↔ maxRequests < s.workqueue.length := by
  rw [← Bool.not_eq_true, appendReturns_eq_true, Nat.not_le]

/-- A step appends to a queue that is not longer than `m_max_requests`, or does not make the
queue longer. -/
theorem poolStep_length {maxRequests : Nat} {s s' : Threadpool R} {a : PoolAction R}
    (hstep : poolStep maxRequests s a = some s') :
    (∃ i request, a = .append i request ∧ s.appenders[i]? = some .ready ∧
        s.appendReturns maxRequests = true ∧
        s'.workqueue.length = s.workqueue.length + 1) ∨
      s'.workqueue.length ≤ s.workqueue.length := by
  cases poolStep_inv hstep with
  | refuse i request hi hfull => exact .inr (Nat.le_refl _)
  | append i request hi hroom =>
    exact .inl ⟨i, request, rfl, hi, appendReturns_eq_true.mpr hroom, List.length_append⟩
  | post i hi => exact .inr (Nat.le_refl _)
  | wait j value hj hvalue => exact .inr (Nat.le_refl _)
  | popNothing j hj hqueue => exact .inr (Nat.le_refl _)
  | pop j ticket rest hj hqueue =>
    right
    rw [hqueue, List.length_cons]
    exact Nat.le_succ _
  | finish j request hj => exact .inr (Nat.le_refl _)

/-- However many threads append and work, the queue holds one request more than
`m_max_requests` at most. -/
theorem always_length_le_succ (maxRequests appenders workers : Nat)
    (as : List (PoolAction R)) :
    Always (poolStep maxRequests) (fun s => s.workqueue.length ≤ maxRequests + 1)
      (startThreadpool appenders workers) as := by
  refine always_of_step (fun s : Threadpool R => s.workqueue.length ≤ maxRequests + 1) ?_
    (fun _ h => h) (Nat.zero_le _) as
  intro s a s' h hstep
  rcases poolStep_length hstep with ⟨i, request, -, -, hreturns, hlen⟩ | hlen
  · have hroom := appendReturns_eq_true.mp hreturns
    omega
  · omega

/-! ## When the bound is kept -/

/-- Below the bound, `append` answers for it exactly when the queue is not full. -/
theorem answersFull_iff {maxRequests : Nat} {s : Threadpool R}
    (h : s.workqueue.length ≤ maxRequests) (a : PoolAction R) :
    AnswersFull maxRequests s a ↔ NotFull maxRequests s a := by
  rcases a with ⟨i, request⟩ | _ | _ | _ | _
  case append =>
    apply imp_congr_right
    intro _
    rw [appendReturns_eq_false]
    omega
  all_goals exact Iff.rfl

/-- A thread that does not come to a full queue keeps the bound. -/
theorem poolStep_bounded {maxRequests : Nat} {s s' : Threadpool R} {a : PoolAction R}
    (h : s.workqueue.length ≤ maxRequests) (hguard : NotFull maxRequests s a)
    (hstep : poolStep maxRequests s a = some s') : s'.workqueue.length ≤ maxRequests := by
  rcases poolStep_length hstep with ⟨i, request, rfl, hi, -, hlen⟩ | hlen
  · have hne := hguard hi
    omega
  · omega

/-- In a run, the queue never holds more than `m_max_requests` requests and `append` returns
false exactly when it holds that many, if and only if no thread appends to a queue that holds
exactly that many. -/
theorem queueBounded_iff (maxRequests appenders workers : Nat) (as : List (PoolAction R)) :
    QueueBounded maxRequests appenders workers as ↔
      AllSteps (poolStep maxRequests) (NotFull maxRequests)
        (startThreadpool appenders workers) as := by
  have hstart : (startThreadpool (R := R) appenders workers).workqueue.length ≤ maxRequests :=
    Nat.zero_le _
  have hanswers : AllSteps (poolStep maxRequests) (NotFull maxRequests)
        (startThreadpool appenders workers) as ↔
      AllSteps (poolStep maxRequests) (AnswersFull maxRequests)
        (startThreadpool appenders workers) as :=
    allSteps_congr (fun s => s.workqueue.length ≤ maxRequests)
      (fun s a s' h hguard hstep => poolStep_bounded h hguard hstep)
      (fun s a h => (answersFull_iff h a).symm) hstart as
  rw [QueueBounded, ← hanswers]
  constructor
  · exact And.right
  · intro hall
    refine ⟨?_, hall⟩
    exact always_of_invariant (fun s => s.workqueue.length ≤ maxRequests)
      (NotFull maxRequests) (fun s a s' h hguard hstep => poolStep_bounded h hguard hstep)
      (fun s h => h) hstart hall

/-- With room for one request, the second one is accepted as well. -/
theorem not_queueBounded_second :
    ¬ QueueBounded 1 1 1 [.append 0 (some 4), .post 0, .append 0 (some 5)] := by
  rintro ⟨h, -⟩
  have hexec : (exec (poolStep 1) (startThreadpool 1 1)
      [.append 0 (some 4), .post 0, .append 0 (some 5)]).any
        (fun s => decide (s.workqueue.length = 2)) = true := by decide
  obtain ⟨s, hlen, hle⟩ := h.exists_last (fun s => s.workqueue.length = 2) hexec
  omega

end EasyWebServer.Post
