import Mathlib.Data.List.Basic
import Mathlib.Data.Nat.ModEq

/-!
# A window on a circular array

A circular array of `n` cells holds a list from the cell `start` on: the element
`i` of the list is in the cell `(start + i) % n` (`Window`).

A list that is shorter than the array leaves the cell behind its last element
free.  So an element can be stored there (`Window.push`), and the first element
can be given up (`Window.tail`).
-/

namespace EasyWebServer

namespace CircularArray

variable {α : Type*}

/-- The cells from `start` on, round the end of the array, hold `l`. -/
def Window (cells : List α) (start : Nat) (l : List α) : Prop :=
  ∀ i, i < l.length → cells[(start + i) % cells.length]? = l[i]?

theorem Window.nil (cells : List α) (start : Nat) : Window cells start [] := by
  intro i hi
  exact absurd hi (Nat.not_lt_zero i)

/-- The start counts modulo the number of cells. -/
theorem Window.congr {cells : List α} {start start' : Nat} {l : List α}
    (h : Window cells start l) (hstart : start % cells.length = start' % cells.length) :
    Window cells start' l := by
  intro i hi
  rw [← h i hi, ← Nat.mod_add_mod start, ← Nat.mod_add_mod start', hstart]

/-- The cells of the window are different from the one behind it. -/
theorem cell_ne {n start i k : Nat} (hi : i < k) (hk : k < n) :
    (start + i) % n ≠ (start + k) % n := by
  intro heq
  have hmod : i % n = k % n := Nat.ModEq.add_left_cancel' start heq
  rw [Nat.mod_eq_of_lt (hi.trans hk), Nat.mod_eq_of_lt hk] at hmod
  omega

/-- An element is stored behind the last. -/
theorem Window.push {cells : List α} {start : Nat} {l : List α} (h : Window cells start l)
    (hroom : l.length < cells.length) (x : α) :
    Window (cells.set ((start + l.length) % cells.length) x) start (l ++ [x]) := by
  intro i hi
  rw [List.length_append, List.length_singleton] at hi
  rw [List.length_set]
  have hpos : 0 < cells.length := Nat.zero_lt_of_lt hroom
  rcases Nat.lt_or_ge i l.length with hlt | hge
  · rw [List.getElem?_set_ne (cell_ne hlt hroom).symm, List.getElem?_append_left hlt]
    exact h i hlt
  · have hlast : i = l.length := by omega
    rw [hlast, List.getElem?_set_self (Nat.mod_lt _ hpos), List.getElem?_concat_length]

theorem filterMap_getElem?_range (l : List α) :
    (List.range l.length).filterMap (fun i => l[i]?) = l := by
  induction l with
  | nil => rfl
  | cons x l ih =>
      rw [List.length_cons, List.range_succ_eq_map]
      show x :: ((List.range l.length).map Nat.succ).filterMap (fun i => (x :: l)[i]?) = x :: l
      rw [List.filterMap_map]
      exact congrArg (x :: ·) ih

/-- Reading the cells of the window gives the list. -/
theorem Window.filterMap {cells : List α} {start : Nat} {l : List α} (h : Window cells start l) :
    (List.range l.length).filterMap (fun i => cells[(start + i) % cells.length]?) = l := by
  have hread : (List.range l.length).filterMap (fun i => cells[(start + i) % cells.length]?) =
      (List.range l.length).filterMap (fun i => l[i]?) := by
    apply List.filterMap_congr
    intro i hi
    exact h i (List.mem_range.mp hi)
  rw [hread, filterMap_getElem?_range]

/-- The first element. -/
theorem Window.head {cells : List α} {start : Nat} {x : α} {l : List α}
    (h : Window cells start (x :: l)) : cells[start % cells.length]? = some x := by
  exact h 0 (Nat.zero_lt_succ _)

/-- The first element leaves. -/
theorem Window.tail {cells : List α} {start : Nat} {x : α} {l : List α}
    (h : Window cells start (x :: l)) : Window cells (start + 1) l := by
  intro i hi
  have hnext := h (i + 1) (Nat.succ_lt_succ hi)
  rw [List.getElem?_cons_succ] at hnext
  rw [← hnext, Nat.add_assoc, Nat.add_comm 1 i]

/-- The last element. -/
theorem Window.last {cells : List α} {start : Nat} {l : List α} (h : Window cells start l)
    (hne : l ≠ []) :
    cells[(start + (l.length - 1)) % cells.length]? = l.getLast? := by
  have hpos := List.length_pos_iff.mpr hne
  rw [h (l.length - 1) (by omega), List.getLast?_eq_getElem?]

end CircularArray

end EasyWebServer
