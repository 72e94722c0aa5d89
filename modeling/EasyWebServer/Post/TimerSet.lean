import EasyWebServer.Lib.Refinement
import EasyWebServer.Post.Slots

/-!
# HeapTimer is a set of timers

What `HeapTimer` is for: a finite set of timers with expiry times
(`TimerSetStep`).  A timer can be added, moved to another time, and deleted, and
`tick` takes out the timers that are due, in the order of their times.

`HeapHolds` relates the heap to the set.  The main loop writes the new time of a timer
while it is in the heap, so `del_timer` pops from a vector that is not a heap.
Popping loses nothing even then, and `del_timer` builds a new heap from what it
popped.
-/

namespace EasyWebServer.Post

open PriorityQueue Refinement

variable {T : Type} [LinearOrder T] [Inhabited T]

/-! ## The operations -/

/-- An operation on the timers. -/
inductive TimerOp (T : Type) where
  /-- `new util_timer`, and `add_timer`. -/
  | add (u : UtilTimer T)
  /-- `t->expire = e`, and `adjust_timer(t)`. -/
  | adjust (t : Nat) (e : T)
  /-- `del_timer(t)`. -/
  | del (t : Nat)
  /-- `tick` at this time. -/
  | tick (cur : T)

/-- What an operation answers. -/
inductive TimerAnswer where
  | done
  /-- The pointer to the new timer. -/
  | added (t : Nat)
  /-- The timers whose callback is called, in order. -/
  | called (ts : List Nat)
  deriving DecidableEq, Repr

/-- Why an operation stops. -/
inductive TimerStop where
  /-- The timer of the operation is not in the queue. -/
  | notQueued
  /-- A timer that is not allocated is used, or `reserve` throws. -/
  | fault
  deriving DecidableEq, Repr

/-- One operation of the heap. -/
def heapStep (h : HeapTimer T) : TimerOp T → Except TimerStop (TimerAnswer × HeapTimer T)
  | .add u => .ok (.added h.next, (h.alloc u).addTimer h.next)
  | .adjust t e =>
      if t ∈ h.pq then
        match (h.setExpire t e).bind (fun h => h.adjustTimer t) with
        | none => .error .fault
        | some h' => .ok (.done, h')
      else .error .notQueued
  | .del t =>
      if t ∈ h.pq then
        match h.delTimer t with
        | none => .error .fault
        | some h' => .ok (.done, h')
      else .error .notQueued
  | .tick cur => .ok (.called (h.tick cur).1, (h.tick cur).2)

/-! ## The set -/

/-- One operation of a set of timers; `m t` is the time of a timer in the set. -/
inductive TimerSetStep (m : Nat → Option T) :
    TimerOp T → TimerAnswer → (Nat → Option T) → Prop where
  | add (u : UtilTimer T) (t : Nat) (hfresh : m t = none) :
      TimerSetStep m (.add u) (.added t) (Function.update m t (some u.expire))
  | adjust (t : Nat) (e : T) (hmem : m t ≠ none) :
      TimerSetStep m (.adjust t e) .done (Function.update m t (some e))
  | del (t : Nat) (hmem : m t ≠ none) :
      TimerSetStep m (.del t) .done (Function.update m t none)
  | tick (cur : T) (ts : List Nat) (m' : Nat → Option T) (honce : ts.Nodup)
      (hdue : ∀ t, t ∈ ts ↔ ∃ e, m t = some e ∧ e ≤ cur)
      (horder : ts.Pairwise (fun a b => ∀ ea eb, m a = some ea → m b = some eb → ea ≤ eb))
      (hrest : ∀ t, m' t = if t ∈ ts then none else m t)
      (hlater : ∀ t e, m' t = some e → cur < e) :
      TimerSetStep m (.tick cur) (.called ts) m'

omit [Inhabited T] in
/-- A timer that is due and has the least time is called before the others. -/
theorem TimerSetStep.tick_cons {m m' : Nat → Option T} {cur e : T} {top : Nat} {ts : List Nat}
    (h : TimerSetStep (Function.update m top none) (.tick cur) (.called ts) m')
    (he : m top = some e) (hle : e ≤ cur) (hfirst : ∀ t e', m t = some e' → e ≤ e') :
    TimerSetStep m (.tick cur) (.called (top :: ts)) m' := by
  rcases h with _ | _ | _ | ⟨_, _, _, honce, hdue, horder, hrest, hlater⟩
  have hnot : top ∉ ts := by
    intro hmem
    obtain ⟨e', he', -⟩ := (hdue top).mp hmem
    rw [Function.update_self] at he'
    cases he'
  have hother : ∀ t ∈ ts, Function.update m top none t = m t := by
    intro t ht
    have hne : t ≠ top := by
      intro heq
      exact hnot (heq ▸ ht)
    exact Function.update_of_ne hne _ _
  refine .tick cur (top :: ts) m' (List.nodup_cons.mpr ⟨hnot, honce⟩) ?_ ?_ ?_ hlater
  · intro t
    by_cases ht : t = top
    · rw [ht]
      exact ⟨fun _ => ⟨e, he, hle⟩, fun _ => List.mem_cons_self⟩
    · rw [List.mem_cons, hdue t, Function.update_of_ne ht]
      exact ⟨fun hor => hor.resolve_left ht, .inr⟩
  · refine List.pairwise_cons.mpr ⟨?_, ?_⟩
    · intro t _ ea eb hea heb
      rw [he] at hea
      cases hea
      exact hfirst t eb heb
    · refine horder.imp_of_mem ?_
      intro a b ha hb hab ea eb hea heb
      rw [← hother a ha] at hea
      rw [← hother b hb] at heb
      exact hab ea eb hea heb
  · intro t
    rw [hrest t]
    by_cases ht : t = top
    · rw [ht, Function.update_self, if_pos List.mem_cons_self]
      split <;> rfl
    · rw [Function.update_of_ne ht]
      by_cases hmem : t ∈ ts
      · rw [if_pos hmem, if_pos (List.mem_cons_of_mem top hmem)]
      · rw [if_neg hmem, if_neg (fun h => (List.mem_cons.mp h).elim ht hmem)]

/-! ## The heap holds the set -/

/-- The heap holds the timers of the set, each once, in the heap order of their times. -/
structure HeapHolds (h : HeapTimer T) (m : Nat → Option T) : Prop where
  once : h.pq.Nodup
  mem : ∀ t, t ∈ h.pq ↔ m t ≠ none
  live : ∀ t e, m t = some e → ∃ u, h.objs t = some u ∧ u.expire = e
  heap : IsHeap h.timerCmp h.pq
  fresh : ∀ t, h.next ≤ t → m t = none

theorem timerCmp_strictWeak (h : HeapTimer T) : StrictWeak h.timerCmp where
  asymm := by
    intro a b hab
    have hlt := of_decide_eq_true hab
    exact decide_eq_false (not_lt.mpr hlt.le)
  trans := by
    intro a b c hab hbc
    have hle := not_lt.mp (of_decide_eq_false hab)
    have hle' := not_lt.mp (of_decide_eq_false hbc)
    exact decide_eq_false (not_lt.mpr (hle.trans hle'))

theorem heapHolds_empty : HeapHolds (HeapTimer.empty : HeapTimer T) (fun _ => none) where
  once := List.nodup_nil
  mem := by
    intro t
    constructor
    · intro ht
      cases ht
    · intro ht
      exact absurd rfl ht
  live := by
    intro t e he
    cases he
  heap := isHeap_nil
  fresh := fun _ _ => rfl

omit [LinearOrder T] in
/-- `expire` of a timer whose object is known. -/
theorem expire_eq {h : HeapTimer T} {t : Nat} {u : UtilTimer T} (hu : h.objs t = some u) :
    h.expire t = u.expire := by
  rw [HeapTimer.expire, hu]
  rfl

/-- Comparisons between timers whose objects are the same. -/
theorem timerCmp_congr {h h' : HeapTimer T} {a b : Nat} (ha : h'.objs a = h.objs a)
    (hb : h'.objs b = h.objs b) : h'.timerCmp a b = h.timerCmp a b := by
  rw [HeapTimer.timerCmp, HeapTimer.timerCmp, HeapTimer.expire, HeapTimer.expire, ha, hb]
  rfl

namespace HeapHolds

variable {h : HeapTimer T} {m : Nat → Option T}

theorem expire (hh : HeapHolds h m) {t : Nat} {e : T} (he : m t = some e) : h.expire t = e := by
  obtain ⟨u, hu, hue⟩ := hh.live t e he
  rw [expire_eq hu, hue]

theorem lt_next (hh : HeapHolds h m) {t : Nat} (ht : t ∈ h.pq) : t < h.next := by
  by_contra hge
  exact (hh.mem t).mp ht (hh.fresh t (Nat.le_of_not_lt hge))

/-- A new timer. -/
theorem add (hh : HeapHolds h m) (u : UtilTimer T) :
    HeapHolds ((h.alloc u).addTimer h.next) (Function.update m h.next (some u.expire)) where
  once := by
    refine ((HeapTimer.addTimer_pq (h.alloc u) h.next).nodup_iff).mpr ?_
    exact List.nodup_cons.mpr ⟨fun hmem => Nat.lt_irrefl _ (hh.lt_next hmem), hh.once⟩
  mem := by
    intro t
    rw [HeapTimer.mem_addTimer]
    show t = h.next ∨ t ∈ h.pq ↔ _
    by_cases ht : t = h.next
    · rw [ht, Function.update_self]
      exact ⟨fun _ => Option.some_ne_none _, fun _ => .inl rfl⟩
    · rw [Function.update_of_ne ht, ← hh.mem t]
      exact ⟨fun hor => hor.resolve_left ht, .inr⟩
  live := by
    intro t e he
    show ∃ v, Function.update h.objs h.next (some u) t = some v ∧ v.expire = e
    by_cases ht : t = h.next
    · rw [ht, Function.update_self] at he
      rw [ht, Function.update_self]
      exact ⟨u, rfl, Option.some.inj he⟩
    · rw [Function.update_of_ne ht] at he
      rw [Function.update_of_ne ht]
      exact hh.live t e he
  heap := by
    have hsame : ∀ t ∈ h.pq, (h.alloc u).objs t = h.objs t := by
      intro t ht
      show Function.update h.objs h.next (some u) t = h.objs t
      exact Function.update_of_ne (hh.lt_next ht).ne _ _
    have hheap : IsHeap (h.alloc u).timerCmp h.pq :=
      hh.heap.congr (fun a ha b hb => timerCmp_congr (hsame a ha) (hsame b hb))
    exact push_heap (timerCmp_strictWeak (h.alloc u)) hheap h.next
  fresh := by
    intro t ht
    change h.next + 1 ≤ t at ht
    rw [Function.update_of_ne (by omega)]
    exact hh.fresh t (by omega)

/-- `del_timer`, whatever order the vector has. -/
theorem delTimer_heap {h h' : HeapTimer T} {t : Nat} (hdel : h.delTimer t = some h') :
    IsHeap h'.timerCmp h'.pq := by
  rw [HeapTimer.delTimer] at hdel
  split at hdel
  · cases hdel
  · cases hdel
    exact foldl_push_heap (timerCmp_strictWeak h) _ [] isHeap_nil

/-- A timer is deleted. -/
theorem del (hh : HeapHolds h m) {h' : HeapTimer T} {t : Nat} (hdel : h.delTimer t = some h') :
    HeapHolds h' (Function.update m t none) where
  once := by
    refine ((HeapTimer.delTimer_spec hdel).1.nodup_iff).mpr ?_
    exact hh.once.filter _
  mem := by
    intro t'
    rw [HeapTimer.mem_delTimer hdel]
    by_cases ht : t' = t
    · rw [ht, Function.update_self]
      exact ⟨fun hand => absurd rfl hand.2, fun hne => absurd rfl hne⟩
    · rw [Function.update_of_ne ht, ← hh.mem t']
      exact ⟨And.left, fun hmem => ⟨hmem, ht⟩⟩
  live := by
    intro t' e he
    rw [(HeapTimer.delTimer_spec hdel).2.1]
    by_cases ht : t' = t
    · rw [ht, Function.update_self] at he
      cases he
    · rw [Function.update_of_ne ht] at he
      exact hh.live t' e he
  heap := delTimer_heap hdel
  fresh := by
    intro t' ht'
    rw [(HeapTimer.delTimer_spec hdel).2.2] at ht'
    by_cases ht : t' = t
    · rw [ht, Function.update_self]
    · rw [Function.update_of_ne ht]
      exact hh.fresh t' ht'

/-- A timer gets a new time while it is in the queue, and is put in its place. -/
theorem adjust (hh : HeapHolds h m) {t : Nat} (ht : t ∈ h.pq) (e : T) :
    ∃ h', (h.setExpire t e).bind (fun h => h.adjustTimer t) = some h' ∧
      HeapHolds h' (Function.update m t (some e)) := by
  obtain ⟨e₀, he₀⟩ := Option.ne_none_iff_exists'.mp ((hh.mem t).mp ht)
  obtain ⟨u, hu, -⟩ := hh.live t e₀ he₀
  obtain ⟨h', heq, hperm, hobjs, hnext⟩ := HeapTimer.renew_spec e hh.once ht hu
  refine ⟨h', heq, ?_⟩
  exact {
    once := hperm.nodup_iff.mpr hh.once
    mem := by
      intro t'
      rw [hperm.mem_iff, hh.mem t']
      by_cases heq' : t' = t
      · rw [heq', Function.update_self, he₀]
        exact ⟨fun _ => Option.some_ne_none e, fun _ => Option.some_ne_none e₀⟩
      · rw [Function.update_of_ne heq']
    live := by
      intro t' e' he'
      rw [hobjs]
      by_cases heq' : t' = t
      · rw [heq', Function.update_self] at he'
        rw [heq', Function.update_self]
        exact ⟨_, rfl, Option.some.inj he'⟩
      · rw [Function.update_of_ne heq'] at he'
        rw [Function.update_of_ne heq']
        exact hh.live t' e' he'
    heap := by
      obtain ⟨hset, -, hadjust⟩ := Option.bind_eq_some_iff.mp heq
      obtain ⟨hdel, hdelEq, hadd⟩ := Option.map_eq_some_iff.mp hadjust
      rw [← hadd]
      exact push_heap (timerCmp_strictWeak hdel) (delTimer_heap hdelEq) t
    fresh := by
      intro t' ht'
      rw [hnext] at ht'
      have hne : t' ≠ t := by
        intro heq'
        have hlt := hh.lt_next ht
        omega
      rw [Function.update_of_ne hne]
      exact hh.fresh t' ht' }

/-- The timer on top has the least time. -/
theorem top_le (hh : HeapHolds h m) {t : Nat} {rest : List Nat} (hpq : h.pq = t :: rest) {t' : Nat}
    {e' : T} (he' : m t' = some e') : h.expire t ≤ e' := by
  have hheap := hh.heap
  rw [hpq] at hheap
  have hmem : t' ∈ t :: rest := by
    rw [← hpq, hh.mem t', he']
    exact Option.some_ne_none e'
  have hcmp := hheap.top (timerCmp_strictWeak h) t' hmem
  rw [← hh.expire he']
  exact not_lt.mp (of_decide_eq_false hcmp)

/-- The timer on top is popped and deleted. -/
theorem popTop (hh : HeapHolds h m) {t : Nat} {rest : List Nat} (hpq : h.pq = t :: rest) :
    HeapHolds (h.popTop.free t) (Function.update m t none) := by
  have hperm : h.popTop.pq.Perm rest := by
    have hpop := HeapTimer.popTop_pq h
    rw [hpq] at hpop
    exact hpop
  have honce := hh.once
  rw [hpq] at honce
  obtain ⟨hnot, hrest⟩ := List.nodup_cons.mp honce
  have hne : ∀ t' ∈ h.popTop.pq, t' ≠ t := by
    intro t' ht' heq
    exact hnot (heq ▸ hperm.subset ht')
  exact {
    once := hperm.nodup_iff.mpr hrest
    mem := by
      intro t'
      show t' ∈ h.popTop.pq ↔ _
      rw [hperm.mem_iff]
      by_cases ht : t' = t
      · rw [ht, Function.update_self]
        exact ⟨fun hmem => absurd hmem hnot, fun hnone => absurd rfl hnone⟩
      · rw [Function.update_of_ne ht, ← hh.mem t', hpq, List.mem_cons]
        exact ⟨.inr, fun hor => hor.resolve_left ht⟩
    live := by
      intro t' e he
      by_cases ht : t' = t
      · rw [ht, Function.update_self] at he
        cases he
      · rw [Function.update_of_ne ht] at he
        obtain ⟨u, hu, hue⟩ := hh.live t' e he
        refine ⟨u, ?_, hue⟩
        show Function.update h.objs t none t' = some u
        rw [Function.update_of_ne ht, hu]
    heap := by
      have hsame : ∀ t' ∈ h.popTop.pq, (h.popTop.free t).objs t' = h.objs t' := by
        intro t' ht'
        show Function.update h.objs t none t' = h.objs t'
        exact Function.update_of_ne (hne t' ht') _ _
      exact (pop_heap (timerCmp_strictWeak h) hh.heap).congr
        (fun a ha b hb => timerCmp_congr (hsame a ha) (hsame b hb))
    fresh := by
      intro t' ht'
      by_cases ht : t' = t
      · rw [ht, Function.update_self]
      · rw [Function.update_of_ne ht]
        exact hh.fresh t' ht' }

/-- The loop of `tick` takes out what is due, the earliest first. -/
theorem tickLoop (cur : T) :
    ∀ (fuel : Nat) {h : HeapTimer T} {m : Nat → Option T}, HeapHolds h m → h.pq.length ≤ fuel →
      ∃ m', TimerSetStep m (.tick cur) (.called (h.tickLoop cur fuel).1) m' ∧
        HeapHolds (h.tickLoop cur fuel).2 m' := by
  -- No round: nothing is due.
  have hstop : ∀ {h : HeapTimer T} {m : Nat → Option T}, HeapHolds h m →
      (∀ t e, m t = some e → cur < e) →
      ∃ m', TimerSetStep m (.tick cur) (.called []) m' ∧ HeapHolds h m' := by
    intro h m hh hlater
    refine ⟨m, .tick cur [] m List.nodup_nil ?_ List.Pairwise.nil (fun t => rfl) hlater, hh⟩
    intro t
    constructor
    · intro ht
      cases ht
    · intro ht
      obtain ⟨e, he, hle⟩ := ht
      exact absurd (hlater t e he) (not_lt.mpr hle)
  have hempty : ∀ {h : HeapTimer T} {m : Nat → Option T}, HeapHolds h m → h.pq = [] →
      ∀ t e, m t = some e → cur < e := by
    intro h m hh hpq t e he
    have hmem := (hh.mem t).mpr (by rw [he]; exact Option.some_ne_none e)
    rw [hpq] at hmem
    cases hmem
  intro fuel
  induction fuel with
  | zero =>
      intro h m hh hlen
      exact hstop hh (hempty hh (List.length_eq_zero_iff.mp (Nat.le_zero.mp hlen)))
  | succ fuel ih =>
      intro h m hh hlen
      rw [HeapTimer.tickLoop]
      split
      · rename_i hpq
        exact hstop hh (hempty hh hpq)
      · rename_i top rest hpq
        split
        · rename_i hle
          have hmemtop : m top ≠ none := by
            rw [← hh.mem top, hpq]
            exact List.mem_cons_self
          obtain ⟨etop, hetop⟩ := Option.ne_none_iff_exists'.mp hmemtop
          rw [hh.expire hetop] at hle
          have hlen' : (h.popTop.free top).pq.length ≤ fuel := by
            have hpop := (HeapTimer.popTop_pq h).length_eq
            rw [hpq] at hpop hlen
            rw [List.length_cons] at hlen
            show h.popTop.pq.length ≤ fuel
            rw [hpop, List.tail_cons]
            omega
          obtain ⟨m', hstep, hh'⟩ := ih (hh.popTop hpq) hlen'
          have hfirst : ∀ t e, m t = some e → etop ≤ e := by
            intro t e he
            rw [← hh.expire hetop]
            exact hh.top_le hpq he
          exact ⟨m', hstep.tick_cons hetop hle hfirst, hh'⟩
        · rename_i hlt
          refine hstop hh (fun t e he => ?_)
          exact lt_of_lt_of_le (not_le.mp hlt) (hh.top_le hpq he)

theorem step (hh : HeapHolds h m) {op : TimerOp T} {o : TimerAnswer} {h' : HeapTimer T}
    (hstep : heapStep h op = .ok (o, h')) : ∃ m', TimerSetStep m op o m' ∧ HeapHolds h' m' := by
  rcases op with u | ⟨t, e⟩ | t | cur
  · cases hstep
    exact ⟨_, .add u h.next (hh.fresh h.next (Nat.le_refl _)), hh.add u⟩
  · rw [heapStep] at hstep
    split at hstep
    · rename_i hmem
      obtain ⟨h₁, heq, hh₁⟩ := hh.adjust hmem e
      rw [heq] at hstep
      cases hstep
      exact ⟨_, .adjust t e ((hh.mem t).mp hmem), hh₁⟩
    · cases hstep
  · rw [heapStep] at hstep
    split at hstep
    · rename_i hmem
      obtain ⟨h₁, hdel⟩ := HeapTimer.delTimer_of_mem hmem
      rw [hdel] at hstep
      cases hstep
      exact ⟨_, .del t ((hh.mem t).mp hmem), hh.del hdel⟩
    · cases hstep
  · cases hstep
    exact HeapHolds.tickLoop cur h.pq.length hh (Nat.le_refl _)

/-- An operation on a timer in the queue does not stop. -/
theorem no_fault (hh : HeapHolds h m) {op : TimerOp T} {e : TimerStop}
    (hstep : heapStep h op = .error e) : e = .notQueued := by
  rcases op with u | ⟨t, e'⟩ | t | cur
  · cases hstep
  · rw [heapStep] at hstep
    split at hstep
    · rename_i hmem
      obtain ⟨h₁, heq, -⟩ := hh.adjust hmem e'
      rw [heq] at hstep
      cases hstep
    · cases hstep
      rfl
  · rw [heapStep] at hstep
    split at hstep
    · rename_i hmem
      obtain ⟨h₁, hdel⟩ := HeapTimer.delTimer_of_mem hmem
      rw [hdel] at hstep
      cases hstep
    · cases hstep
      rfl
  · cases hstep

end HeapHolds

/-! ## Every list of operations -/

/-- From the empty queue, every list of operations on timers of the queue gives
answers that the set gives, and leaves a heap that holds the set. -/
theorem replay_heapTimer (ops : List (TimerOp T)) :
    (∀ e, replay heapStep (.empty : HeapTimer T) ops = .error e → e = .notQueued) ∧
    ∀ answers h, replay heapStep (.empty : HeapTimer T) ops = .ok (answers, h) →
      ∃ m, Performs TimerSetStep (fun _ => none) ops answers m ∧ HeapHolds h m := by
  constructor
  · intro e herror
    refine replay_error (fun h => ∃ m, HeapHolds h m) (· = .notQueued) ?_ ?_ ops ⟨_, heapHolds_empty⟩
      herror
    · intro h op o h' hm hstep
      obtain ⟨m, hh⟩ := hm
      obtain ⟨m', -, hh'⟩ := hh.step hstep
      exact ⟨m', hh'⟩
    · intro h op e hm hstep
      obtain ⟨m, hh⟩ := hm
      exact hh.no_fault hstep
  · intro answers h hreplay
    exact replay_performs (fun _ _ _ _ _ hh hstep => hh.step hstep) ops heapHolds_empty hreplay

/-! ## The timers of the server -/

open Server Transition

/-- The timers of the server are a set of timers. -/
def TimersHold (s : Server) : Prop := ∃ m, HeapHolds s.timers m

theorem renewTimer_holds {s : Server} {fd : Nat} (h : TimersHold s) (htracks : Tracks s fd) :
    TimersHold (s.renewTimer fd) := by
  obtain ⟨m, hh⟩ := h
  obtain ⟨t, -, htimer, ht, -, -⟩ := htracks
  obtain ⟨h', hrenew, hh'⟩ := hh.adjust ht (s.clock + 3 * TIMESLOT)
  have heq : s.renewTimer fd = { s with timers := h' } := by
    simp only [renewTimer, htimer, hrenew]
  rw [heq]
  exact ⟨_, hh'⟩

theorem closeEvent_holds {s : Server} {fd : Nat} (h : TimersHold s) (hok : SlotsOk s)
    (htracks : Tracks s fd) : TimersHold (s.closeEvent fd) := by
  obtain ⟨m, hh⟩ := h
  obtain ⟨t, h', -, hdel, heq⟩ := closeEvent_eq hok.live htracks
  rw [heq]
  exact ⟨_, hh.del hdel⟩

/-- Every use that a step of the server makes of its timers is an operation of the
set. -/
theorem serverStep_holds {cfg : Config} {s s' : Server} {a : ServerAction} (hok : SlotsOk s)
    (h : TimersHold s) (hstep : serverStep cfg s a = some s') : TimersHold s' := by
  have hmove := serverStep_inv hstep
  rcases hmove with _ | _ | _ | _ | _ | _ | _ | ⟨rest, fd, hpending⟩ |
    ⟨rest, fd, ok, hpending⟩ | ⟨rest, fd, exit, hpending⟩ | ⟨_, hpending⟩ | _ | _
  case newConn =>
    obtain ⟨m, hh⟩ := h
    exact ⟨_, hh.add _⟩
  case hangup =>
    obtain ⟨htracks, -⟩ := hok.takeEvent_client hpending
    exact closeEvent_holds h (hok.takeEvent hpending) htracks
  case input =>
    obtain ⟨htracks, -⟩ := hok.takeEvent_client hpending
    rw [handleInput]
    split
    · rw [append_eq]
      apply renewTimer_holds
      · rw [TimersHold, touch_timers]
        exact h
      · apply Tracks.touch
        exact htracks
    · exact closeEvent_holds h (hok.takeEvent hpending) htracks
  case output =>
    obtain ⟨htracks, -⟩ := hok.takeEvent_client hpending
    have hok' := (hok.takeEvent hpending).sockOps fd exit.ops
    have h' : TimersHold ({ s with pending := rest }.sockOps fd exit.ops) := by
      rw [TimersHold, (writeOps_frame { s with pending := rest } fd exit).2.1]
      exact h
    have htaken : Tracks { s with pending := rest } fd := htracks
    have htracks' := htaken.writeOps exit
    rw [handleOutput]
    split
    · apply renewTimer_holds
      · rw [TimersHold, touch_timers]
        exact h'
      · exact htracks'.touch fd
    · exact closeEvent_holds h' hok' htracks'
  case endBatch =>
    refine (endBatch_rule TimersHold hok hpending h (fun _ _ _ h' => h') ?_).2
    intro s₁ t rest u _ h₁ _ _ hpq _ _
    obtain ⟨m, hh⟩ := h₁
    exact ⟨_, hh.popTop hpq⟩
  case process fd code writeRet _ =>
    rcases processOps_eq (s := { s with processing := s.processing.erase fd }) (hok.sockfd fd) code
      writeRet with ⟨-, heq⟩ | ⟨ev, heq⟩ | ⟨-, -, heq⟩
    · rw [heq]
      exact h
    · rw [heq, TimersHold, (arm_frame _ fd ev).2.1]
      exact h
    · rw [heq]
      exact h
  all_goals exact h

/-- In every run of the server, the timers are a heap that holds a set of timers. -/
theorem always_timersHold (cfg : Config) (as : List ServerAction) :
    Always (serverStep cfg) TimersHold startServer as :=
  always_of_step (fun s => SlotsOk s ∧ TimersHold s)
    (fun _ _ _ h hstep => ⟨serverStep_slotsOk h.1 hstep, serverStep_holds h.1 h.2 hstep⟩)
    (fun _ h => h.2) ⟨startServer_slotsOk, _, heapHolds_empty⟩ as

/-- `tick` of the server is `tick` of its timers, at its time. -/
theorem tick_timers {s : Server} (hok : SlotsOk s) (hpending : s.pending = []) :
    s.tick.timers = (s.timers.tick s.clock).2 := by
  have hloop : ∀ (fuel : Nat) (s : Server), SlotsOk s → s.pending = [] →
      (Server.tickLoop fuel s).timers = (s.timers.tickLoop s.clock fuel).2 := by
    intro fuel
    induction fuel with
    | zero => exact fun _ _ _ => rfl
    | succ fuel ih =>
        intro s hok hpending
        rcases hpq : s.timers.pq with _ | ⟨t, rest⟩
        · simp only [Server.tickLoop, HeapTimer.tickLoop, hpq]
        · obtain ⟨u, hu, -⟩ := hok.live t (by rw [hpq]; exact List.mem_cons_self)
          simp only [Server.tickLoop, HeapTimer.tickLoop, hpq, hu, expire_eq hu]
          split
          · exact ih (s.expireTop t u) (hok.expireTop hpq hu hpending) hpending
          · rfl
  exact hloop _ s hok hpending

end EasyWebServer.Post
