import EasyWebServer.Lib.Monitor
import EasyWebServer.Post.BlockQueue

/-!
# The threads of a block_queue

The operations of the queue statement by statement, each under `m_mutex`, with
`m_cond.wait` in the loop of `pop` and `m_cond.broadcast` at the end of `push`.

`section_of_step` shows that a critical section, run alone, is one operation of
`BlockQueue.step`.  With it the queue is a monitor for a bounded list:
`queue_linearizable` says so for every run of any number of threads, and
`queue_comes_to_rest` that no thread sleeps while there is an element, and that
nothing else keeps one from returning.
-/

namespace EasyWebServer.Post

open Refinement Transition Monitor

variable {T : Type*}

/-- The next statement of a thread in the queue. -/
inductive QueueLine (T : Type*) where
  | pushFull (item : T)
  | pushBack (item : T)
  | pushStore (item : T)
  | pushSize
  | pushBroadcast (answer : Bool)
  | popEmpty
  | popFront
  | popRead
  | popSize (value : T)
  | clearSize
  | clearFront
  | clearBack
  | backEmpty
  | backRead
  | size
  | full
  | empty
  | unlock (answer : QueueAnswer T)
  deriving DecidableEq, Repr

/-- The first statement behind `m_mutex.lock()`. -/
def QueueOp.start : QueueOp T → QueueLine T
  | .push item => .pushFull item
  | .pop => .popEmpty
  | .clear => .clearSize
  | .back => .backEmpty
  | .size => .size
  | .full => .full
  | .empty => .empty

/-- What a statement does.  The condition of `pop` is asked again behind `m_cond.wait`. -/
def queueCode : QueueLine T → BlockQueue T → Move (QueueLine T) (BlockQueue T) (QueueAnswer T)
  | .pushFull item, q =>
      if q.maxSize ≤ q.size then .goto (.pushBroadcast false) q else .goto (.pushBack item) q
  | .pushBack item, q => .goto (.pushStore item) { q with back := (q.back + 1).tmod q.maxSize }
  | .pushStore item, q =>
      match q.cell q.back with
      | .error _ => .fault
      | .ok k => .goto .pushSize { q with array := q.array.set k item }
  | .pushSize, q => .goto (.pushBroadcast true) { q with size := q.size + 1 }
  | .pushBroadcast answer, _ => .broadcast (.unlock (.flag answer))
  | .popEmpty, q => if q.size ≤ 0 then .wait .popEmpty else .goto .popFront q
  | .popFront, q => .goto .popRead { q with front := (q.front + 1).tmod q.maxSize }
  | .popRead, q =>
      match q.read q.front with
      | .error _ => .fault
      | .ok value => .goto (.popSize value) q
  | .popSize value, q => .goto (.unlock (.item value)) { q with size := q.size - 1 }
  | .clearSize, q => .goto .clearFront { q with size := 0 }
  | .clearFront, q => .goto .clearBack { q with front := -1 }
  | .clearBack, q => .goto (.unlock .done) { q with back := -1 }
  | .backEmpty, q => if 0 = q.size then .goto (.unlock (.last none)) q else .goto .backRead q
  | .backRead, q =>
      match q.read q.back with
      | .error _ => .fault
      | .ok value => .goto (.unlock (.last (some value))) q
  | .size, q => .goto (.unlock (.count q.size)) q
  | .full, q => .goto (.unlock (.flag (decide (q.maxSize ≤ q.size)))) q
  | .empty, q => .goto (.unlock (.flag (decide (0 = q.size)))) q
  | .unlock answer, _ => .unlock answer

/-- The queue as threads run it. -/
def queueProgram : Program (QueueOp T) (QueueLine T) (BlockQueue T) (QueueAnswer T) where
  start := QueueOp.start
  code := queueCode

/-- `push` wakes those that wait. -/
def QueueOp.wakes : QueueOp T → Bool
  | .push _ => true
  | _ => false

/-! ## A section alone -/

theorem section_unlock (answer : QueueAnswer T) (q : BlockQueue T) :
    Section queueProgram (.unlock answer) q 1 0 (.unlock answer q) := .unlock rfl

theorem section_push {q q' : BlockQueue T} {item : T} {b : Bool} (h : q.push item = .ok (b, q')) :
    ∃ n ≤ 6, Section queueProgram (.pushFull item) q n 1 (.unlock (.flag b) q') := by
  have htell : ∀ (b : Bool) (q : BlockQueue T),
      Section queueProgram (.pushBroadcast b) q 2 1 (.unlock (.flag b) q) :=
    fun b q => .broadcast rfl (section_unlock _ q)
  rw [BlockQueue.push] at h
  split at h
  · rename_i hfull
    cases h
    exact ⟨3, by decide, .goto (if_pos hfull) (htell false q)⟩
  · rename_i hfull
    dsimp only at h
    split at h
    · cases h
    · rename_i k hcell
      cases h
      have hstore : queueCode (.pushStore item) { q with back := (q.back + 1).tmod q.maxSize } =
          .goto .pushSize { q with
            array := q.array.set k item, back := (q.back + 1).tmod q.maxSize } := by
        rw [queueCode]
        change q.cell _ = _ at hcell
        show (match q.cell _ with | .error _ => _ | .ok k => _) = _
        rw [hcell]
      exact ⟨6, Nat.le_refl 6,
        .goto (if_neg hfull) (.goto rfl (.goto hstore (.goto rfl (htell true _))))⟩

theorem section_pop {q q' : BlockQueue T} {value : T} (h : q.pop = .ok (value, q')) :
    Section queueProgram .popEmpty q 5 0 (.unlock (.item value) q') := by
  rw [BlockQueue.pop] at h
  split at h
  · cases h
  · rename_i hempty
    dsimp only at h
    split at h
    · cases h
    · rename_i value' hread
      cases h
      have hitem : queueCode .popRead { q with front := (q.front + 1).tmod q.maxSize } =
          .goto (.popSize value) { q with front := (q.front + 1).tmod q.maxSize } := by
        rw [queueCode]
        show (match q.read _ with | .error _ => _ | .ok value => _) = _
        rw [hread]
      exact .goto (if_neg hempty) (.goto rfl (.goto hitem (.goto rfl (section_unlock _ _))))

theorem section_back {q : BlockQueue T} {value : Option T} (h : q.backValue = .ok value) :
    ∃ n ≤ 6, Section queueProgram .backEmpty q n 0 (.unlock (.last value) q) := by
  rw [BlockQueue.backValue] at h
  split at h
  · rename_i hempty
    cases h
    exact ⟨2, by decide, .goto (if_pos hempty) (section_unlock _ q)⟩
  · rename_i hempty
    split at h
    · cases h
    · rename_i last hread
      cases h
      have hlast : queueCode .backRead q = .goto (.unlock (.last (some last))) q := by
        rw [queueCode, hread]
      exact ⟨3, by decide, .goto (if_neg hempty) (.goto hlast (section_unlock _ q))⟩

/-- A section that ends with an answer is one operation. -/
theorem section_of_step {q q' : BlockQueue T} {op : QueueOp T} {answer : QueueAnswer T}
    (h : q.step op = .ok (answer, q')) :
    ∃ n ≤ 6, Section queueProgram op.start q n (if op.wakes then 1 else 0) (.unlock answer q') := by
  cases op with
  | push item =>
      rw [BlockQueue.step] at h
      rcases hpush : q.push item with e | ⟨b, q''⟩
      · rw [hpush] at h
        cases h
      · rw [hpush] at h
        cases h
        exact section_push hpush
  | pop =>
      rw [BlockQueue.step] at h
      rcases hpop : q.pop with e | ⟨value, q''⟩
      · rw [hpop] at h
        cases h
      · rw [hpop] at h
        cases h
        exact ⟨5, by decide, section_pop hpop⟩
  | clear =>
      cases h
      exact ⟨4, by decide, .goto rfl (.goto rfl (.goto rfl (section_unlock _ _)))⟩
  | back =>
      rw [BlockQueue.step] at h
      rcases hback : q.backValue with e | value
      · rw [hback] at h
        cases h
      · rw [hback] at h
        cases h
        exact section_back hback
  | size | full | empty =>
      cases h
      exact ⟨2, by decide, .goto rfl (section_unlock _ q)⟩

/-- A section that stops is one that waits. -/
theorem section_of_stop {n : Nat} {q : BlockQueue T} (h : Represents n q []) :
    Section queueProgram .popEmpty q 1 0 (.wait .popEmpty q) := by
  have hsize : q.size ≤ 0 := by
    rw [h.size]
    exact Int.le_refl 0
  exact .wait (if_pos hsize)

/-! ## The contract -/

/-- The list stops only a `pop`, when it is empty. -/
theorem boundedFifo_stops {n : Nat} {l : List T} {op : QueueOp T} :
    Stops (boundedFifo n) l op ↔ op = .pop ∧ l = [] := by
  constructor
  · rintro ⟨e, he⟩
    cases op with
    | push item =>
        rw [boundedFifo] at he
        split at he <;> cases he
    | pop =>
        rcases l with _ | ⟨value, rest⟩
        · exact ⟨rfl, rfl⟩
        · cases he
    | _ => cases he
  · rintro ⟨rfl, rfl⟩
    exact ⟨.wait, rfl⟩

/-- Only `push` fills an empty list. -/
theorem boundedFifo_nil {n : Nat} {l' : List T} {op : QueueOp T} {answer : QueueAnswer T}
    (h : boundedFifo n [] op = .ok (answer, l')) (hquiet : op.wakes = false) : l' = [] := by
  cases op with
  | push item => cases hquiet
  | pop => cases h
  | _ =>
      cases h
      rfl

/-- The queue is a monitor for a list of at most `n` elements. -/
def queueContract (T : Type*) (n : Nat) : Contract (queueProgram (T := T)) (boundedFifo n) where
  Rep := Represents n
  Entry := fun op k => k = op.start
  noisy := QueueOp.wakes
  bound := 6
  start := fun _ => rfl
  serves := by
    rintro op k q l rfl hrep
    have hstep := hrep.step op
    rcases hspec : boundedFifo n l op with e | ⟨answer, l'⟩
    · obtain ⟨rfl, rfl⟩ := boundedFifo_stops.mp ⟨e, hspec⟩
      exact ⟨1, 0, _, section_of_stop hrep, by decide, fun _ => rfl,
        .wait ⟨e, hspec⟩ hrep rfl rfl⟩
    · rw [hspec] at hstep
      generalize hq : q.step op = r at hstep
      cases hstep with
      | answer _ hrep' =>
          obtain ⟨m, hm, hsection⟩ := section_of_step hq
          refine ⟨m, _, _, hsection, hm, fun hquiet => if_neg (by rw [hquiet]; decide),
            .unlock hspec hrep' ?_⟩
          rcases hwakes : op.wakes with _ | _
          · refine .inr (fun other hstops => ?_)
            obtain ⟨rfl, rfl⟩ := boundedFifo_stops.mp hstops
            exact boundedFifo_stops.mpr ⟨rfl, boundedFifo_nil hspec hwakes⟩
          · exact .inl Nat.one_pos

/-- A new queue and the threads that use it. -/
def queueStart (threads : Nat) (q : BlockQueue T) :
    State (QueueOp T) (QueueLine T) (BlockQueue T) (QueueAnswer T) :=
  ⟨List.replicate threads .idle, none, q⟩

/-- Every run of any number of threads is, for those who call the queue, one in which each call
takes effect in one step between its first statement and its last, on a first-in first-out
list of at most `max_size` elements.  The list is in the array whenever the mutex is free. -/
theorem queue_linearizable [DecidableEq T] {fill : T} {max_size : Int} {q : BlockQueue T}
    (hnew : BlockQueue.new fill max_size = some q) (threads : Nat)
    {as : List (Action (QueueOp T) (QueueAnswer T))}
    {s : State (QueueOp T) (QueueLine T) (BlockQueue T) (QueueAnswer T)}
    (hexec : exec (Monitor.step queueProgram) (queueStart threads q) as = some s) :
    ∃ bs t, exec (objectStep (boundedFifo max_size.toNat)) ⟨List.replicate threads .idle, []⟩ bs =
        some t ∧
      bs.filterMap ObjectAction.seen = as.filterMap Action.seen ∧
      (s.owner = none → s.shared.contents = t.value) := by
  have hstart := Contract.Sim.start (c := queueContract T max_size.toNat)
    (Represents.new hnew) threads
  obtain ⟨bs, t, hbs, hseen, hsim⟩ := hstart.exec hexec
  exact ⟨bs, t, hbs, hseen, fun hfree => (hsim.free hfree).contents_eq⟩

/-- A consumer sleeps, wakes too early and sleeps again, until a producer pushes. -/
theorem queue_linearizable_two :
    ∃ bs t, exec (objectStep (boundedFifo 1)) ⟨[.idle, .idle], ([] : List Nat)⟩ bs = some t ∧
      bs.filterMap ObjectAction.seen =
        [.call 0 .pop, .call 1 (.push 7), .ret 1 (.flag true), .ret 0 (.item 7)] ∧
      ((none : Option Nat) = none → [] = t.value) :=
  queue_linearizable (show BlockQueue.new 0 1 = some ⟨[0], 0, 1, -1, -1⟩ from rfl) 2
    (show exec (Monitor.step queueProgram) (queueStart 2 ⟨[0], 0, 1, -1, -1⟩)
      ([.call 0 .pop, .lock 0, .run 0, .wake 0, .lock 0, .run 0, .call 1 (.push 7), .lock 1] ++
        List.replicate 6 (.run 1) ++ [.ret 1 (.flag true), .lock 0] ++
        List.replicate 5 (.run 0) ++ [.ret 0 (.item 7)]) = some ⟨[.idle, .idle], none, ⟨[7], 0, 1, 0, 0⟩⟩ from rfl)

/-- In every run of any number of threads: without new calls the threads come to a state in
which none of them can go on, and there each of them is outside the queue, or it waits in `pop`
and the queue is empty. -/
theorem queue_comes_to_rest [DecidableEq T] {fill : T} {max_size : Int} {q : BlockQueue T}
    (hnew : BlockQueue.new fill max_size = some q) (threads : Nat)
    (as : List (Action (QueueOp T) (QueueAnswer T))) :
    Always (Monitor.step queueProgram) (fun s =>
      (∃ bound, ∀ (bs : List (Action (QueueOp T) (QueueAnswer T))) s',
        (∀ b ∈ bs, b.own = true) → exec (Monitor.step queueProgram) s bs = some s' →
          bs.length ≤ bound) ∧
      (Settled queueProgram s → ∀ p ∈ s.threads,
        p = .idle ∨ p = .asleep .pop .popEmpty ∧ s.shared.contents = []))
      (queueStart threads q) as := by
  refine always_of_step (fun s => ∃ t, (queueContract T max_size.toNat).Sim s t) ?_ ?_
    ⟨_, Contract.Sim.start (Represents.new hnew) threads⟩ as
  · rintro s a s' ⟨t, hsim⟩ hstep
    obtain ⟨-, t', -, -, hsim'⟩ := hsim.step hstep
    exact ⟨t', hsim'⟩
  · rintro s ⟨t, hsim⟩
    refine ⟨hsim.runs_settle, fun hsettled p hp => ?_⟩
    obtain ⟨hrep, hphase⟩ := hsim.settled hsettled
    rcases hphase p hp with hidle | ⟨op, k, hp, hentry, hstops⟩
    · exact .inl hidle
    · obtain ⟨rfl, hnil⟩ := boundedFifo_stops.mp hstops
      subst hentry
      refine .inr ⟨hp, ?_⟩
      rw [hrep.contents_eq, hnil]

/-- A consumer that sleeps, with nothing there. -/
theorem queue_comes_to_rest_one :
    Always (Monitor.step queueProgram) (fun s =>
      (∃ bound, ∀ (bs : List (Action (QueueOp Nat) (QueueAnswer Nat))) s',
        (∀ b ∈ bs, b.own = true) → exec (Monitor.step queueProgram) s bs = some s' →
          bs.length ≤ bound) ∧
      (Settled queueProgram s → ∀ p ∈ s.threads,
        p = .idle ∨ p = .asleep .pop .popEmpty ∧ s.shared.contents = []))
      (queueStart 2 ⟨[0], 0, 1, -1, -1⟩) [.call 0 .pop, .lock 0, .run 0] :=
  queue_comes_to_rest (show BlockQueue.new 0 1 = some ⟨[0], 0, 1, -1, -1⟩ from rfl) 2 _

end EasyWebServer.Post
