import EasyWebServer.Lib.CircularArray
import EasyWebServer.Lib.Refinement

/-!
# block_queue

The queue of the log: a circular array under a mutex.

`m_front` is the cell before the first element, and `m_back` the cell of the last
one.  Both are `-1` at first, and advance modulo `m_max_size` when an element
leaves or comes.  Every operation holds the mutex from its first step to its last,
so it is one step here; `pop` gives the mutex up only to wait for an element
(`Stop.wait`).

`boundedFifo` says what the queue is for: a list that is at most as long as the
array.  `replay_blockQueue` shows that no list of operations can tell the two
apart, and that no index leaves the array (`Stop.fault`).
-/

namespace EasyWebServer.Post

open Refinement CircularArray

variable {T : Type*}

/-! ## The queue -/

/-- Why an operation does not return. -/
inductive Stop where
  /-- `pop` waits for an element. -/
  | wait
  /-- An index is not in `m_array`. -/
  | fault
  deriving DecidableEq, Repr

/-- A `block_queue`. -/
structure BlockQueue (T : Type*) where
  array : List T
  size : Int
  maxSize : Int
  front : Int
  back : Int

/-- The operations of the queue. -/
inductive QueueOp (T : Type*) where
  | push (item : T)
  | pop
  | clear
  | back
  | size
  | full
  | empty
  deriving DecidableEq, Repr

/-- What they return.  `back` returns `false` when it has no value. -/
inductive QueueAnswer (T : Type*) where
  | done
  | flag (b : Bool)
  | item (value : T)
  | last (value : Option T)
  | count (n : Int)
  deriving DecidableEq, Repr

namespace BlockQueue

/-- The constructor, which exits unless there is a place.  `fill` is the value of
`T` in a new array. -/
def new (fill : T) (max_size : Int) : Option (BlockQueue T) :=
  if max_size ≤ 0 then none
  else some ⟨List.replicate max_size.toNat fill, 0, max_size, -1, -1⟩

/-- The cell `m_array[i]`. -/
def cell (q : BlockQueue T) (i : Int) : Except Stop Nat :=
  if 0 ≤ i ∧ i < q.array.length then .ok i.toNat else .error .fault

/-- The value of `m_array[i]`. -/
def read (q : BlockQueue T) (i : Int) : Except Stop T :=
  match q.cell i with
  | .error e => .error e
  | .ok k =>
      match q.array[k]? with
      | none => .error .fault
      | some value => .ok value

/-- `clear`. -/
def clear (q : BlockQueue T) : BlockQueue T := { q with size := 0, front := -1, back := -1 }

/-- `full`. -/
def full (q : BlockQueue T) : Bool := decide (q.maxSize ≤ q.size)

/-- `empty`. -/
def empty (q : BlockQueue T) : Bool := decide (0 = q.size)

/-- `back`. -/
def backValue (q : BlockQueue T) : Except Stop (Option T) :=
  if 0 = q.size then .ok none
  else
    match q.read q.back with
    | .error e => .error e
    | .ok value => .ok (some value)

/-- `push`. -/
def push (q : BlockQueue T) (item : T) : Except Stop (Bool × BlockQueue T) :=
  if q.maxSize ≤ q.size then .ok (false, q)
  else
    let back := (q.back + 1).tmod q.maxSize
    match q.cell back with
    | .error e => .error e
    | .ok k => .ok (true, { q with array := q.array.set k item, size := q.size + 1, back := back })

/-- `pop`. -/
def pop (q : BlockQueue T) : Except Stop (T × BlockQueue T) :=
  if q.size ≤ 0 then .error .wait
  else
    let front := (q.front + 1).tmod q.maxSize
    match q.read front with
    | .error e => .error e
    | .ok value => .ok (value, { q with size := q.size - 1, front := front })

/-- The elements that are stored, first the one that came first. -/
def contents (q : BlockQueue T) : List T :=
  (List.range q.size.toNat).filterMap
    (fun i => q.array[((q.front + 1).toNat + i) % q.array.length]?)

/-- One operation. -/
def step (q : BlockQueue T) : QueueOp T → Except Stop (QueueAnswer T × BlockQueue T)
  | .push item => (q.push item).map (fun r => (.flag r.1, r.2))
  | .pop => q.pop.map (fun r => (.item r.1, r.2))
  | .clear => .ok (.done, q.clear)
  | .back => q.backValue.map (fun value => (.last value, q))
  | .size => .ok (.count q.size, q)
  | .full => .ok (.flag q.full, q)
  | .empty => .ok (.flag q.empty, q)

end BlockQueue

/-! ## What the queue is for -/

/-- A list of at most `n` elements, in the order in which they came. -/
def boundedFifo (n : Nat) (l : List T) : QueueOp T → Except Stop (QueueAnswer T × List T)
  | .push item =>
      if l.length < n then .ok (.flag true, l ++ [item]) else .ok (.flag false, l)
  | .pop =>
      match l with
      | [] => .error .wait
      | value :: rest => .ok (.item value, rest)
  | .clear => .ok (.done, [])
  | .back => .ok (.last l.getLast?, l)
  | .size => .ok (.count l.length, l)
  | .full => .ok (.flag (decide (n ≤ l.length)), l)
  | .empty => .ok (.flag l.isEmpty, l)

/-- The elements accepted since the last `clear`. -/
def accepted (trace : List (QueueOp T × QueueAnswer T)) : List T :=
  trace.foldl (fun acc e =>
    match e with
    | (.push item, .flag true) => acc ++ [item]
    | (.clear, _) => []
    | _ => acc) []

/-- The elements that left by `pop` since the last `clear`. -/
def popped (trace : List (QueueOp T × QueueAnswer T)) : List T :=
  trace.foldl (fun acc e =>
    match e with
    | (.pop, .item value) => acc ++ [value]
    | (.clear, _) => []
    | _ => acc) []

/-- What was accepted has left, in order, or is there. -/
theorem boundedFifo_accounts (n : Nat) {trace : List (QueueOp T × QueueAnswer T)} {l l' : List T}
    {op : QueueOp T} {o : QueueAnswer T} (h : accepted trace = popped trace ++ l)
    (hstep : boundedFifo n l op = .ok (o, l')) :
    accepted (trace ++ [(op, o)]) = popped (trace ++ [(op, o)]) ++ l' := by
  rw [accepted, popped, List.foldl_append, List.foldl_append, ← accepted, ← popped]
  rcases op with item | _ | _ | _ | _ | _ | _
  · rw [boundedFifo] at hstep
    split at hstep
    · cases hstep
      show accepted trace ++ [item] = popped trace ++ (l ++ [item])
      rw [h, List.append_assoc]
    · cases hstep
      exact h
  · rcases l with _ | ⟨value, rest⟩
    · cases hstep
    · cases hstep
      show accepted trace = popped trace ++ [value] ++ l'
      rw [h, List.append_assoc]
      rfl
  · cases hstep
    rfl
  all_goals
    cases hstep
    exact h

/-! ## The array holds the list -/

/-- The queue holds `l`: from the cell behind `m_front` to the cell `m_back`. -/
structure Represents (n : Nat) (q : BlockQueue T) (l : List T) : Prop where
  pos : 0 < n
  maxSize : q.maxSize = n
  cells : q.array.length = n
  size : q.size = l.length
  room : l.length ≤ n
  front_range : -1 ≤ q.front ∧ q.front < n
  back_range : -1 ≤ q.back ∧ q.back < n
  back_cell : l ≠ [] → 0 ≤ q.back
  window : Window q.array (q.front + 1).toNat l
  back : (q.back + 1).toNat % n = ((q.front + 1).toNat + l.length) % n

/-- Advancing an index. -/
theorem tmod_next {n : Nat} {i : Int} (hi : -1 ≤ i) :
    (i + 1).tmod n = ((i + 1).toNat % n : Nat) := by
  have hnonneg : 0 ≤ i + 1 := by omega
  rw [Int.tmod_eq_emod_of_nonneg hnonneg, Int.natCast_emod, Int.toNat_of_nonneg hnonneg]

/-- An index that was advanced. -/
theorem mod_range {n : Nat} (hpos : 0 < n) (k : Nat) :
    -1 ≤ ((k % n : Nat) : Int) ∧ ((k % n : Nat) : Int) < n := by
  have hlt := Nat.mod_lt k hpos
  omega

namespace Represents

variable {n : Nat} {q : BlockQueue T} {l : List T}

theorem cell_mod (h : Represents n q l) (k : Nat) : q.cell (k % n : Nat) = .ok (k % n) := by
  have hlt : k % n < n := Nat.mod_lt k h.pos
  rw [BlockQueue.cell, h.cells, if_pos ⟨by omega, by omega⟩]
  rfl

theorem read_mod (h : Represents n q l) (k : Nat) {value : T}
    (hvalue : q.array[k % n]? = some value) : q.read (k % n : Nat) = .ok value := by
  rw [BlockQueue.read, h.cell_mod]
  show (match q.array[k % n]? with | none => _ | some value => _) = _
  rw [hvalue]

/-- A push that finds the queue full does nothing. -/
theorem push_full (h : Represents n q l) (hfull : n ≤ l.length) (item : T) :
    q.push item = .ok (false, q) := by
  have hsize : q.maxSize ≤ q.size := by
    rw [h.maxSize, h.size]
    omega
  rw [BlockQueue.push, if_pos hsize]

/-- A push that finds a place stores into the cell behind the last element. -/
theorem push_eq (h : Represents n q l) (hroom : l.length < n) (item : T) :
    q.push item = .ok (true, { q with
      array := q.array.set (((q.front + 1).toNat + l.length) % n) item
      size := q.size + 1
      back := ((q.back + 1).toNat % n : Nat) }) := by
  have hsize : ¬ q.maxSize ≤ q.size := by
    rw [h.maxSize, h.size]
    omega
  rw [← h.back, BlockQueue.push, if_neg hsize, h.maxSize, tmod_next h.back_range.1]
  show (match q.cell _ with | .error e => _ | .ok k => _) = _
  rw [h.cell_mod]

/-- The element is then the last one. -/
theorem push_room (h : Represents n q l) (hroom : l.length < n) (item : T) :
    ∃ q', q.push item = .ok (true, q') ∧ Represents n q' (l ++ [item]) := by
  have hwindow := h.window.push (by rw [h.cells]; exact hroom) item
  rw [h.cells] at hwindow
  have hback : (q.back + 1).toNat % n < n := Nat.mod_lt _ h.pos
  refine ⟨_, h.push_eq hroom item, ?_⟩
  exact {
    pos := h.pos
    maxSize := h.maxSize
    cells := by
      show (q.array.set _ item).length = n
      rw [List.length_set, h.cells]
    size := by
      show q.size + 1 = _
      rw [h.size, List.length_append]
      rfl
    room := by
      rw [List.length_append, List.length_singleton]
      omega
    front_range := h.front_range
    back_range := mod_range h.pos _
    back_cell := fun _ => Int.natCast_nonneg _
    window := hwindow
    back := by
      show ((((q.back + 1).toNat % n : Nat) : Int) + 1).toNat % n = _
      have hnat : ((((q.back + 1).toNat % n : Nat) : Int) + 1).toNat =
          (q.back + 1).toNat % n + 1 := by omega
      rw [hnat, h.back, Nat.mod_add_mod, List.length_append, List.length_singleton,
        Nat.add_assoc] }

theorem pop_nil (h : Represents n q []) : q.pop = .error .wait := by
  have hsize : q.size ≤ 0 := by
    rw [h.size]
    exact Int.le_refl 0
  rw [BlockQueue.pop, if_pos hsize]

/-- A pop reads the cell behind `m_front`. -/
theorem pop_eq {value : T} {rest : List T} (h : Represents n q (value :: rest)) :
    q.pop = .ok (value, { q with
      size := q.size - 1
      front := ((q.front + 1).toNat % n : Nat) }) := by
  have hlen : q.size = rest.length + 1 := h.size
  have hhead := h.window.head
  rw [h.cells] at hhead
  rw [BlockQueue.pop, if_neg (by omega), h.maxSize, tmod_next h.front_range.1]
  show (match q.read _ with | .error e => _ | .ok value => _) = _
  rw [h.read_mod _ hhead]

/-- The first element is then gone. -/
theorem pop_cons {value : T} {rest : List T} (h : Represents n q (value :: rest)) :
    ∃ q', q.pop = .ok (value, q') ∧ Represents n q' rest := by
  have hlen : q.size = rest.length + 1 := h.size
  have hfront : (q.front + 1).toNat % n < n := Nat.mod_lt _ h.pos
  have hnat : ((((q.front + 1).toNat % n : Nat) : Int) + 1).toNat =
      (q.front + 1).toNat % n + 1 := by omega
  refine ⟨_, h.pop_eq, ?_⟩
  exact {
    pos := h.pos
    maxSize := h.maxSize
    cells := h.cells
    size := by
      show q.size - 1 = _
      omega
    room := by
      have := h.room
      rw [List.length_cons] at this
      omega
    front_range := mod_range h.pos _
    back_range := h.back_range
    back_cell := fun _ => h.back_cell (List.cons_ne_nil value rest)
    window := by
      show Window q.array ((((q.front + 1).toNat % n : Nat) : Int) + 1).toNat rest
      refine h.window.tail.congr ?_
      rw [h.cells, hnat, Nat.mod_add_mod]
    back := by
      show _ = (((((q.front + 1).toNat % n : Nat) : Int) + 1).toNat + rest.length) % n
      rw [h.back, hnat, List.length_cons, Nat.add_assoc, Nat.add_comm 1, Nat.mod_add_mod] }

theorem clear (h : Represents n q l) : Represents n q.clear [] where
  pos := h.pos
  maxSize := h.maxSize
  cells := h.cells
  size := rfl
  room := Nat.zero_le n
  front_range := by
    show (-1 : Int) ≤ -1 ∧ (-1 : Int) < n
    omega
  back_range := by
    show (-1 : Int) ≤ -1 ∧ (-1 : Int) < n
    omega
  back_cell := fun hne => absurd rfl hne
  window := Window.nil _ _
  back := rfl

/-- `back` finds the last element. -/
theorem backValue_eq (h : Represents n q l) : q.backValue = .ok l.getLast? := by
  rw [BlockQueue.backValue, h.size]
  rcases hl : l.getLast? with _ | value
  · rw [List.getLast?_eq_none_iff.mp hl]
    rfl
  · have hne : l ≠ [] := by
      rintro rfl
      cases hl
    have hpos := List.length_pos_iff.mpr hne
    have hlast := h.window.last hne
    -- An element is there, so `m_back` is a cell, and the cell of the last element.
    have hback : q.back = (((q.front + 1).toNat + (l.length - 1)) % n : Nat) := by
      have hcell := h.back_cell hne
      have hrange := h.back_range
      have hnext := h.back
      rw [show (q.back + 1).toNat = q.back.toNat + 1 by omega,
        show (q.front + 1).toNat + l.length = (q.front + 1).toNat + (l.length - 1) + 1 by omega]
        at hnext
      have hmod : q.back.toNat % n = ((q.front + 1).toNat + (l.length - 1)) % n :=
        Nat.ModEq.add_right_cancel' 1 hnext
      rw [Nat.mod_eq_of_lt (by omega)] at hmod
      omega
    rw [if_neg (by omega), hback]
    rw [h.cells, hl] at hlast
    rw [h.read_mod _ hlast]

theorem contents_eq (h : Represents n q l) : q.contents = l := by
  have hsize : q.size.toNat = l.length := by
    rw [h.size]
    exact Int.toNat_natCast _
  rw [BlockQueue.contents, hsize]
  exact h.window.filterMap

/-- The constructor makes an empty queue. -/
theorem new {fill : T} {max_size : Int} {q : BlockQueue T}
    (hnew : BlockQueue.new fill max_size = some q) : Represents max_size.toNat q [] := by
  rw [BlockQueue.new] at hnew
  split at hnew
  · cases hnew
  · rename_i hpos
    cases hnew
    exact {
      pos := by omega
      maxSize := by
        show max_size = _
        omega
      cells := List.length_replicate
      size := rfl
      room := Nat.zero_le _
      front_range := by
        show (-1 : Int) ≤ -1 ∧ (-1 : Int) < _
        omega
      back_range := by
        show (-1 : Int) ≤ -1 ∧ (-1 : Int) < _
        omega
      back_cell := fun hne => absurd rfl hne
      window := Window.nil _ _
      back := rfl }

/-- One operation answers what it answers for the list. -/
theorem step (h : Represents n q l) (op : QueueOp T) :
    Agree (Represents n) (q.step op) (boundedFifo n l op) := by
  rcases op with item | _ | _ | _ | _ | _ | _
  · rw [BlockQueue.step, boundedFifo]
    by_cases hroom : l.length < n
    · obtain ⟨q', hpush, h'⟩ := h.push_room hroom item
      rw [hpush, if_pos hroom]
      exact .answer _ h'
    · rw [h.push_full (by omega) item, if_neg hroom]
      exact .answer _ h
  · rcases l with _ | ⟨value, rest⟩
    · rw [BlockQueue.step, h.pop_nil]
      exact .stop _
    · obtain ⟨q', hpop, h'⟩ := h.pop_cons
      rw [BlockQueue.step, hpop]
      exact .answer _ h'
  · exact .answer _ h.clear
  · rw [BlockQueue.step, h.backValue_eq]
    exact .answer _ h
  · rw [BlockQueue.step, h.size]
    exact .answer _ h
  · have hfull : q.full = decide (n ≤ l.length) := by
      rw [BlockQueue.full, h.maxSize, h.size]
      exact decide_eq_decide.mpr Int.ofNat_le
    rw [BlockQueue.step, hfull]
    exact .answer _ h
  · have hempty : q.empty = l.isEmpty := by
      rw [BlockQueue.empty, h.size]
      rcases l with _ | ⟨value, rest⟩
      · rfl
      · rw [List.isEmpty_cons, decide_eq_false_iff_not, List.length_cons]
        omega
    rw [BlockQueue.step, hempty]
    exact .answer _ h

end Represents

/-! ## Every list of operations -/

/-- A queue of any capacity is a bounded first-in first-out list, however often its
indices go round: it gives the same answers, waits where the list is empty, and
uses no index that is not in the array.  What it accepted since the last `clear`
has left, in order, or is in the list. -/
theorem replay_blockQueue {fill : T} {max_size : Int} {q : BlockQueue T}
    (hnew : BlockQueue.new fill max_size = some q) (ops : List (QueueOp T)) :
    Agree (Represents max_size.toNat) (replay BlockQueue.step q ops)
      (replay (boundedFifo max_size.toNat) [] ops) ∧
    ∀ answers l, replay (boundedFifo max_size.toNat) [] ops = .ok (answers, l) →
      accepted (ops.zip answers) = popped (ops.zip answers) ++ l := by
  constructor
  · exact replay_agree (fun _ _ op h => h.step op) (Represents.new hnew) ops
  · intro answers l hreplay
    exact replay_trace (fun trace l => accepted trace = popped trace ++ l)
      (fun _ _ _ _ _ h hstep => boundedFifo_accounts max_size.toNat h hstep) rfl hreplay

/-- A queue with one cell, round which the indices go. -/
theorem replay_blockQueue_one :
    Agree (Represents 1)
      (replay BlockQueue.step ⟨[0], 0, 1, -1, -1⟩ [.push 7, .push 8, .pop, .push 9, .back, .pop])
      (.ok ([.flag true, .flag false, .item 7, .flag true, .last (some 9), .item 9], [])) :=
  (replay_blockQueue (show BlockQueue.new 0 1 = some ⟨[0], 0, 1, -1, -1⟩ from rfl)
    [.push 7, .push 8, .pop, .push 9, .back, .pop]).1

end EasyWebServer.Post
