import Mathlib.Data.List.Nodup
import Mathlib.Order.Lattice
import EasyWebServer.Lib.PriorityQueue

/-!
# HeapTimer

The timers of the connections, in a `std::priority_queue` on `expire`.

`m_pq` holds pointers.  A pointer is a number here, and `objs` gives the
`util_timer` objects that are allocated.  The callback of every timer is
`cb_func`, and `user_data` points into `users_timer`, so a timer has the index
of its entry there.

`delTimer` empties the queue and pushes the other timers again.  Its
`reserve(m_pq.size() - 1)` throws on an empty queue, which is the answer `none`.
-/

namespace EasyWebServer.Post

open PriorityQueue

/-- A `util_timer`.  `conn` is the connection it was created for, which the
source does not record.  `T` is `time_t`. -/
structure UtilTimer (T : Type := Nat) where
  expire : T
  userData : Nat
  conn : Nat
  deriving DecidableEq, Repr

/-- `HeapTimer`, and the memory its pointers point into. -/
structure HeapTimer (T : Type := Nat) where
  pq : List Nat
  objs : Nat → Option (UtilTimer T)
  /-- The address of the next object. -/
  next : Nat

namespace HeapTimer

variable {T : Type} [LinearOrder T] [Inhabited T]

/-- No timer. -/
def empty : HeapTimer T := ⟨[], fun _ => none, 0⟩

/-- `t->expire`. -/
def expire (h : HeapTimer T) (t : Nat) : T := ((h.objs t).map UtilTimer.expire).getD default

/-- `timer_cmp`: the heap has the smallest `expire` on top. -/
def timerCmp (h : HeapTimer T) (f1 f2 : Nat) : Bool := decide (h.expire f2 < h.expire f1)

/-- `new util_timer`, with its fields. -/
def alloc (h : HeapTimer T) (u : UtilTimer T) : HeapTimer T :=
  { h with objs := Function.update h.objs h.next (some u), next := h.next + 1 }

/-- `delete`. -/
def free (h : HeapTimer T) (t : Nat) : HeapTimer T :=
  { h with objs := Function.update h.objs t none }

/-- `add_timer`. -/
def addTimer (h : HeapTimer T) (t : Nat) : HeapTimer T :=
  { h with pq := push h.timerCmp h.pq t }

/-- `del_timer`. -/
def delTimer (h : HeapTimer T) (t : Nat) : Option (HeapTimer T) :=
  if h.pq = [] then none
  else
    let vec := (drain h.timerCmp h.pq.length h.pq).filter (fun t' => t' != t)
    some { h with pq := vec.foldl (push h.timerCmp) [] }

/-- `adjust_timer`. -/
def adjustTimer (h : HeapTimer T) (t : Nat) : Option (HeapTimer T) :=
  (h.delTimer t).map (fun h' => h'.addTimer t)

/-- `timer->expire = e`, when the timer is allocated. -/
def setExpire (h : HeapTimer T) (t : Nat) (e : T) : Option (HeapTimer T) :=
  (h.objs t).map (fun u =>
    { h with objs := Function.update h.objs t (some { u with expire := e }) })

/-- `m_pq.pop()`. -/
def popTop (h : HeapTimer T) : HeapTimer T :=
  { h with pq := PriorityQueue.pop h.timerCmp h.pq }

/-- The loop of `tick` at the time `cur`: the timers whose callback is called, in
order, and what stays. -/
def tickLoop (cur : T) : Nat → HeapTimer T → List Nat × HeapTimer T
  | 0, h => ([], h)
  | fuel + 1, h =>
      match h.pq with
      | [] => ([], h)
      | t :: _ =>
          if h.expire t ≤ cur then
            let r := tickLoop cur fuel (h.popTop.free t)
            (t :: r.1, r.2)
          else ([], h)

/-- `tick`: the length of the queue is enough fuel. -/
def tick (h : HeapTimer T) (cur : T) : List Nat × HeapTimer T := tickLoop cur h.pq.length h

/-! ## What they do to the queue -/

theorem addTimer_pq (h : HeapTimer T) (t : Nat) : (h.addTimer t).pq.Perm (t :: h.pq) :=
  push_perm h.timerCmp h.pq t

@[simp] theorem mem_addTimer (h : HeapTimer T) (t t' : Nat) :
    t' ∈ (h.addTimer t).pq ↔ t' = t ∨ t' ∈ h.pq := by
  rw [(addTimer_pq h t).mem_iff, List.mem_cons]

/-- Every timer but `t` stays. -/
theorem delTimer_spec {h h' : HeapTimer T} {t : Nat} (hdel : h.delTimer t = some h') :
    h'.pq.Perm (h.pq.filter (fun t' => t' != t)) ∧ h'.objs = h.objs ∧ h'.next = h.next := by
  rw [delTimer] at hdel
  split at hdel
  · cases hdel
  · cases hdel
    refine ⟨?_, rfl, rfl⟩
    have hpush := foldl_push_perm h.timerCmp
      ((drain h.timerCmp h.pq.length h.pq).filter (fun t' => t' != t)) []
    have hdrain := drain_perm h.timerCmp h.pq.length h.pq (Nat.le_refl _)
    exact hpush.trans (hdrain.filter _)

theorem mem_delTimer {h h' : HeapTimer T} {t : Nat} (hdel : h.delTimer t = some h') (t' : Nat) :
    t' ∈ h'.pq ↔ t' ∈ h.pq ∧ t' ≠ t := by
  rw [(delTimer_spec hdel).1.mem_iff, List.mem_filter, bne_iff_ne]

/-- `del_timer` runs when there is a timer. -/
theorem delTimer_of_mem {h : HeapTimer T} {t : Nat} (ht : t ∈ h.pq) :
    ∃ h', h.delTimer t = some h' := by
  have hne : h.pq ≠ [] := List.ne_nil_of_mem ht
  exact ⟨_, if_neg hne⟩

/-- The main loop writes `t->expire` and calls `adjust_timer(t)`: the queue has
the same timers, and `t` its new time. -/
theorem renew_spec {h : HeapTimer T} {t : Nat} {u : UtilTimer T} (e : T) (hpq : h.pq.Nodup)
    (ht : t ∈ h.pq) (hu : h.objs t = some u) :
    ∃ h', (h.setExpire t e).bind (fun h => h.adjustTimer t) = some h' ∧ h'.pq.Perm h.pq ∧
      h'.objs = Function.update h.objs t (some { u with expire := e }) ∧ h'.next = h.next := by
  let hset : HeapTimer T :=
    { h with objs := Function.update h.objs t (some { u with expire := e }) }
  have hexpire : h.setExpire t e = some hset := by
    rw [setExpire, hu]
    rfl
  have hmem : t ∈ hset.pq := ht
  obtain ⟨hdel, hdelEq⟩ := delTimer_of_mem hmem
  obtain ⟨hperm, hobjs, hnext⟩ := delTimer_spec hdelEq
  refine ⟨hdel.addTimer t, ?_, ?_, hobjs, hnext⟩
  · rw [hexpire, Option.bind_some, adjustTimer, hdelEq]
    rfl
  · have herase : h.pq.filter (fun t' => t' != t) = h.pq.erase t :=
      (hpq.erase_eq_filter t).symm
    have hperm' : hdel.pq.Perm (h.pq.erase t) := by
      rw [← herase]
      exact hperm
    exact (addTimer_pq hdel t).trans
      ((hperm'.cons t).trans (List.perm_cons_erase ht).symm)

theorem popTop_pq (h : HeapTimer T) : h.popTop.pq.Perm h.pq.tail := pop_perm h.timerCmp h.pq

end HeapTimer

end EasyWebServer.Post
