import EasyWebServer.Post.BlockQueue

/-!
# The front of block_queue

`front` reads the cell `m_front`.  `pop` advances `m_front` first and reads then, so the
cell that `front` reads is the one of the element that left last, or the cell before the
array when none has left.

`frontAgrees_iff` says when `front` gives the element that the next `pop` gives.
-/

namespace EasyWebServer.Post

open Refinement CircularArray

variable {T : Type*}

/-! ## What front must do -/

/-- `front`, which returns `false` when it has no value. -/
def BlockQueue.frontValue (q : BlockQueue T) : Except Stop (Option T) :=
  if 0 = q.size then .ok none
  else
    match q.read q.front with
    | .error e => .error e
    | .ok value => .ok (some value)

/-- `front` has no value exactly when the queue is empty.  Otherwise it reads a cell of the
array, and its value is the one that `pop` returns. -/
structure FrontAgrees (q : BlockQueue T) : Prop where
  empty : q.frontValue = .ok none ↔ q.contents = []
  index : q.contents ≠ [] → 0 ≤ q.front ∧ q.front < q.maxSize
  next : q.contents ≠ [] →
    ∃ value q', q.frontValue = .ok (some value) ∧ q.pop = .ok (value, q')

/-- The element in the cell `m_front`, when `gone` has left by `pop` since the last `clear`
and the queue holds `l`: the one that left last, and in a full queue the last one that
came. -/
def frontCell (n : Nat) (gone l : List T) : Option T :=
  gone.getLast?.bind (fun value => if l.length < n then some value else l.getLast?)

/-- The queue is empty, or the element in the cell `m_front` is the same as the first. -/
def FrontKept (n : Nat) (gone l : List T) : Prop :=
  ∀ value ∈ l.head?, frontCell n gone l = some value

instance [DecidableEq T] (n : Nat) (gone l : List T) : Decidable (FrontKept n gone l) := by
  unfold FrontKept
  infer_instance

/-! ## The element that left last -/

/-- The element that left last is in the cell before the first one, until the queue is
full. -/
structure LeftBehind (n : Nat) (q : BlockQueue T) (gone l : List T) : Prop where
  fresh : gone = [] → q.front = -1
  index : gone ≠ [] → 0 ≤ q.front
  window : ∀ value, gone.getLast? = some value → l.length < n →
    Window q.array q.front.toNat (value :: l)

namespace LeftBehind

variable {n : Nat} {q : BlockQueue T} {gone l : List T}

theorem nil (hfront : q.front = -1) : LeftBehind n q [] l where
  fresh := fun _ => hfront
  index := fun hne => absurd rfl hne
  window := by
    intro value hlast
    cases hlast

/-- An element comes.  The window of the one that left last has a place until the queue
is full. -/
theorem push (h : LeftBehind n q gone l) (hq : Represents n q l) (hroom : l.length < n)
    {item : T} {q' : BlockQueue T} (hpush : q.push item = .ok (true, q')) :
    LeftBehind n q' gone (l ++ [item]) := by
  rw [hq.push_eq hroom item] at hpush
  cases hpush
  refine ⟨h.fresh, h.index, ?_⟩
  intro value hlast hlen
  rw [List.length_append, List.length_singleton] at hlen
  have hindex : 0 ≤ q.front := h.index (by rintro rfl; cases hlast)
  have hwindow := h.window value hlast hroom
  have hcells : (value :: l).length < q.array.length := by
    rw [hq.cells, List.length_cons]
    exact hlen
  have hnext := hwindow.push hcells item
  have hplace : q.front.toNat + (value :: l).length = (q.front + 1).toNat + l.length := by
    rw [List.length_cons]
    omega
  rw [hplace, hq.cells] at hnext
  exact hnext

/-- An element leaves.  It is in the first cell of the window that it leaves. -/
theorem pop {value : T} {rest : List T} (hq : Represents n q (value :: rest))
    {q' : BlockQueue T} (hpop : q.pop = .ok (value, q')) :
    LeftBehind n q' (gone ++ [value]) rest := by
  rw [hq.pop_eq] at hpop
  cases hpop
  refine ⟨fun hnil => absurd hnil (by simp), fun _ => Int.natCast_nonneg _, ?_⟩
  intro left hlast _
  rw [List.getLast?_concat] at hlast
  cases hlast
  refine hq.window.congr ?_
  show _ = (((q.front + 1).toNat % n : Nat) : Int).toNat % _
  rw [hq.cells, Int.toNat_natCast, Nat.mod_mod]

end LeftBehind

/-- What a list of operations keeps: the queue holds a list, and the cell before it the
element that left last. -/
def FrontInv (n : Nat) (trace : List (QueueOp T × QueueAnswer T)) (q : BlockQueue T) : Prop :=
  ∃ l, Represents n q l ∧ LeftBehind n q (popped trace) l

theorem popped_concat (trace : List (QueueOp T × QueueAnswer T)) (e : QueueOp T × QueueAnswer T) :
    popped (trace ++ [e]) =
      match e with
      | (.pop, .item value) => popped trace ++ [value]
      | (.clear, _) => []
      | _ => popped trace := by
  rw [popped, List.foldl_append]
  rfl

theorem frontInv_step {n : Nat} {trace : List (QueueOp T × QueueAnswer T)} {q q' : BlockQueue T}
    {op : QueueOp T} {o : QueueAnswer T} (h : FrontInv n trace q)
    (hstep : q.step op = .ok (o, q')) : FrontInv n (trace ++ [(op, o)]) q' := by
  obtain ⟨l, hq, hleft⟩ := h
  rw [FrontInv, popped_concat]
  rcases op with item | _ | _ | _ | _ | _ | _
  · rw [BlockQueue.step] at hstep
    by_cases hroom : l.length < n
    · obtain ⟨q₁, hpush, hq₁⟩ := hq.push_room hroom item
      rw [hpush] at hstep
      cases hstep
      exact ⟨l ++ [item], hq₁, hleft.push hq hroom hpush⟩
    · rw [hq.push_full (by omega) item] at hstep
      cases hstep
      exact ⟨l, hq, hleft⟩
  · rw [BlockQueue.step] at hstep
    rcases l with _ | ⟨value, rest⟩
    · rw [hq.pop_nil] at hstep
      cases hstep
    · obtain ⟨q₁, hpop, hq₁⟩ := hq.pop_cons
      rw [hpop] at hstep
      cases hstep
      exact ⟨rest, hq₁, LeftBehind.pop hq hpop⟩
  · cases hstep
    exact ⟨[], hq.clear, LeftBehind.nil rfl⟩
  · rw [BlockQueue.step, hq.backValue_eq] at hstep
    cases hstep
    exact ⟨l, hq, hleft⟩
  all_goals
    cases hstep
    exact ⟨l, hq, hleft⟩

/-- What holds of every queue that a list of operations reaches. -/
theorem frontInv_replay {fill : T} {max_size : Int} {q q' : BlockQueue T}
    (hnew : BlockQueue.new fill max_size = some q) {ops : List (QueueOp T)}
    {answers : List (QueueAnswer T)} (hrun : replay BlockQueue.step q ops = .ok (answers, q')) :
    FrontInv max_size.toNat (ops.zip answers) q' := by
  refine replay_trace (FrontInv max_size.toNat)
    (fun _ _ _ _ _ h hstep => frontInv_step h hstep) ?_ hrun
  have hq := Represents.new hnew
  rw [BlockQueue.new] at hnew
  split at hnew
  · cases hnew
  · cases hnew
    exact ⟨[], hq, LeftBehind.nil rfl⟩

/-! ## The cell that front reads -/

namespace LeftBehind

variable {n : Nat} {q : BlockQueue T} {gone l : List T}

/-- `front` of a queue that is not empty. -/
theorem frontValue_eq (h : LeftBehind n q gone l) (hq : Represents n q l) (hne : l ≠ []) :
    q.frontValue =
      match frontCell n gone l with
      | none => .error .fault
      | some value => .ok (some value) := by
  have hpos := List.length_pos_iff.mpr hne
  have hsize := hq.size
  rw [BlockQueue.frontValue, if_neg (by omega), frontCell]
  rcases hlast : gone.getLast? with _ | left
  · -- nothing has left, and the index is -1
    rw [BlockQueue.read, h.fresh (List.getLast?_eq_none_iff.mp hlast)]
    rfl
  · have hindex : 0 ≤ q.front := h.index (by rintro rfl; cases hlast)
    have hrange := hq.front_range
    have hmod : q.front = ((q.front.toNat % n : Nat) : Int) := by
      rw [Nat.mod_eq_of_lt (by omega)]
      omega
    rw [Option.bind_some]
    split_ifs with hroom
    · have hhead := (h.window left hlast hroom).head
      rw [hq.cells] at hhead
      rw [hmod, hq.read_mod _ hhead]
    · -- in a full queue the cell is the one of the last element
      have hfull := hq.window.last hne
      have hcell : (q.front + 1).toNat + (l.length - 1) = q.front.toNat + n := by
        have hle := hq.room
        omega
      rw [hcell, hq.cells, Nat.add_mod_right, List.getLast?_eq_some_getLast hne] at hfull
      rw [hmod, hq.read_mod _ hfull, List.getLast?_eq_some_getLast hne]

end LeftBehind

/-- `front` agrees with `pop` exactly when the queue is empty or the element in the cell
`m_front` is the same as the first one. -/
theorem frontAgrees_iff {fill : T} {max_size : Int} {q q' : BlockQueue T}
    (hnew : BlockQueue.new fill max_size = some q) {ops : List (QueueOp T)}
    {answers : List (QueueAnswer T)} (hrun : replay BlockQueue.step q ops = .ok (answers, q')) :
    FrontAgrees q' ↔ FrontKept max_size.toNat (popped (ops.zip answers)) q'.contents := by
  obtain ⟨l, hq, hleft⟩ := frontInv_replay hnew hrun
  have hcontents := hq.contents_eq
  rcases l with _ | ⟨value, rest⟩
  · rw [hcontents]
    refine iff_of_true ⟨?_, ?_, ?_⟩ (fun value hvalue => by cases hvalue)
    · have hsize : 0 = q'.size := hq.size.symm
      rw [hcontents, BlockQueue.frontValue, if_pos hsize]
      exact iff_of_true rfl rfl
    · exact fun hne => absurd hcontents hne
    · exact fun hne => absurd hcontents hne
  · have hne : value :: rest ≠ [] := List.cons_ne_nil value rest
    have hfront := hleft.frontValue_eq hq hne
    obtain ⟨q₁, hpop, -⟩ := hq.pop_cons
    rw [hcontents]
    constructor
    · intro h
      obtain ⟨first, q₂, hvalue, hnext⟩ := h.next (by rw [hcontents]; exact hne)
      rw [hpop] at hnext
      cases hnext
      intro first hfirst
      cases hfirst
      rw [hfront] at hvalue
      split at hvalue
      · cases hvalue
      · rename_i hcell
        cases hvalue
        exact hcell
    · intro h
      have hcell := h value rfl
      rw [hcell] at hfront
      have hgone : popped (ops.zip answers) ≠ [] := by
        intro hnil
        rw [hnil] at hcell
        cases hcell
      refine ⟨?_, ?_, ?_⟩
      · rw [hfront, hcontents]
        refine iff_of_false ?_ hne
        intro heq
        cases heq
      · intro _
        rw [hq.maxSize]
        exact ⟨hleft.index hgone, hq.front_range.2⟩
      · exact fun _ => ⟨value, q₁, hfront, hpop⟩

/-- A queue in which the same element comes again behind the one that left. -/
theorem frontAgrees_repeated :
    FrontAgrees (⟨[7, 7], 1, 2, 0, 1⟩ : BlockQueue Nat) ↔ FrontKept 2 [7] [7] :=
  frontAgrees_iff (show BlockQueue.new 0 2 = some ⟨[0, 0], 0, 2, -1, -1⟩ from rfl)
    (show replay BlockQueue.step ⟨[0, 0], 0, 2, -1, -1⟩ [.push 7, .push 7, .pop] =
      .ok ([.flag true, .flag true, .item 7], ⟨[7, 7], 1, 2, 0, 1⟩) from rfl)

/-- The first element of a new queue is behind the cell that `front` reads, which is
outside the array. -/
theorem not_frontAgrees_first : ¬ ∀ (max_size : Int) (q q' : BlockQueue Nat)
    (ops : List (QueueOp Nat)) (answers : List (QueueAnswer Nat)),
    BlockQueue.new 0 max_size = some q → replay BlockQueue.step q ops = .ok (answers, q') →
      FrontAgrees q' := by
  intro h
  have hagrees := h 2 ⟨[0, 0], 0, 2, -1, -1⟩ ⟨[7, 0], 1, 2, -1, 0⟩ [.push 7] [.flag true] rfl rfl
  have hindex := (hagrees.index (by decide)).1
  exact absurd hindex (by decide)

end EasyWebServer.Post
