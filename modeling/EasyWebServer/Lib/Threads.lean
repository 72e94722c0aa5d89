import Mathlib.Data.List.Nodup
import Mathlib.Data.List.Perm.Basic
import Mathlib.Algebra.Order.BigOperators.Group.List
import Mathlib.Algebra.Order.Ring.Nat

/-!
# Threads and what they hold

The threads of a program are a list of phases, and a step of a thread replaces
its phase.  `holdings f ts` collects what the threads have, where `f` says what a
phase has: a resource, or a token that only marks the phase.

One equation does the accounting of a step (`holdings_set_perm`): what the old
phase had is gone, what the new phase has is there.
-/

namespace EasyWebServer

namespace Threads

variable {π α : Type*}

/-- What the threads have. -/
def holdings (f : π → List α) (ts : List π) : List α := ts.flatMap f

/-- The number of threads in a phase of the kind `p`. -/
def count (p : π → Bool) (ts : List π) : Nat := ts.countP p

/-- What the threads have together, where `f` says how much a phase has. -/
def total (f : π → Nat) (ts : List π) : Nat := (ts.map f).sum

variable {f : π → List α} {p : π → Bool} {ts : List π} {i : Nat} {old : π}

/-- Behind a step of the thread `i`, a thread is this one in its new phase, or another
one in its old phase. -/
theorem set_cases {j : Nat} {new t : π} (h : (ts.set i new)[j]? = some t) :
    (j = i ∧ t = new) ∨ (j ≠ i ∧ ts[j]? = some t) := by
  by_cases hj : j = i
  · subst hj
    rw [List.getElem?_set] at h
    split at h
    · split at h
      · exact .inl ⟨rfl, (Option.some.inj h).symm⟩
      · cases h
    · rename_i hne
      exact absurd rfl hne
  · rw [List.getElem?_set_ne (Ne.symm hj)] at h
    exact .inr ⟨hj, h⟩

/-- A step leaves what is the same of both phases. -/
theorem map_set_same {β : Type*} (g : π → β) (h : ts[i]? = some old) {new : π}
    (hsame : g new = g old) : (ts.set i new).map g = ts.map g := by
  obtain ⟨hlt, rfl⟩ := List.getElem?_eq_some_iff.mp h
  have hmap : i < (ts.map g).length := by
    rw [List.length_map]
    exact hlt
  have hget : g ts[i] = (ts.map g)[i] := (List.getElem_map g).symm
  rw [List.map_set, hsame, hget, List.set_getElem_self hmap]

/-- A step of the thread `i` moves it from one phase to another. -/
theorem holdings_set_perm (f : π → List α) (h : ts[i]? = some old) (new : π) :
    (f old ++ holdings f (ts.set i new)).Perm (f new ++ holdings f ts) := by
  induction ts generalizing i with
  | nil => cases h
  | cons t ts ih =>
      rcases i with _ | i
      · obtain rfl : t = old := Option.some.inj h
        show (f t ++ (f new ++ holdings f ts)).Perm (f new ++ (f t ++ holdings f ts))
        rw [← List.append_assoc, ← List.append_assoc]
        exact List.perm_append_comm.append_right _
      · have hrest := ih (show ts[i]? = some old from h)
        show (f old ++ (f t ++ holdings f (ts.set i new))).Perm
          (f new ++ (f t ++ holdings f ts))
        have hleft : (f old ++ (f t ++ holdings f (ts.set i new))).Perm
            (f t ++ (f old ++ holdings f (ts.set i new))) := by
          rw [← List.append_assoc, ← List.append_assoc]
          exact List.perm_append_comm.append_right _
        have hright : (f t ++ (f new ++ holdings f ts)).Perm
            (f new ++ (f t ++ holdings f ts)) := by
          rw [← List.append_assoc, ← List.append_assoc]
          exact List.perm_append_comm.append_right _
        exact (hleft.trans (hrest.append_left (f t))).trans hright

theorem count_set (p : π → Bool) (h : ts[i]? = some old) (new : π) :
    count p (ts.set i new) + (if p old then 1 else 0) = count p ts + (if p new then 1 else 0) := by
  obtain ⟨hlt, hold⟩ := List.getElem?_eq_some_iff.mp h
  have hpos : (if p old then 1 else 0) ≤ ts.countP p := by
    split
    · rename_i hp
      exact List.countP_pos_iff.mpr ⟨old, List.mem_of_getElem? h, hp⟩
    · exact Nat.zero_le _
  rw [count, count, List.countP_set hlt, hold]
  omega

/-- A thread enters a phase of the kind. -/
theorem count_enter (h : ts[i]? = some old) (hold : p old = false) {new : π}
    (hnew : p new = true) : count p (ts.set i new) = count p ts + 1 := by
  have hset := count_set p h new
  rw [hold, hnew, if_neg Bool.false_ne_true, if_pos rfl] at hset
  exact hset

/-- A thread leaves the phases of the kind. -/
theorem count_leave (h : ts[i]? = some old) (hold : p old = true) {new : π}
    (hnew : p new = false) : count p (ts.set i new) + 1 = count p ts := by
  have hset := count_set p h new
  rw [hold, hnew, if_neg Bool.false_ne_true, if_pos rfl] at hset
  exact hset

/-- A thread neither enters nor leaves them. -/
theorem count_stay (h : ts[i]? = some old) {new : π} (hsame : p new = p old) :
    count p (ts.set i new) = count p ts := by
  have hset := count_set p h new
  rw [hsame] at hset
  exact Nat.add_right_cancel hset

/-- A step of the thread `i`, when the order of the threads does not matter. -/
theorem set_perm (h : ts[i]? = some old) (new : π) :
    ts.Perm (old :: ts.eraseIdx i) ∧ (ts.set i new).Perm (new :: ts.eraseIdx i) := by
  obtain ⟨hlt, rfl⟩ := List.getElem?_eq_some_iff.mp h
  exact ⟨(List.getElem_cons_eraseIdx_perm hlt).symm, List.set_perm_cons_eraseIdx hlt new⟩

/-! ## Amounts -/

theorem total_set (f : π → Nat) (h : ts[i]? = some old) (new : π) :
    total f (ts.set i new) + f old = total f ts + f new := by
  induction ts generalizing i with
  | nil => cases h
  | cons t ts ih =>
      rcases i with _ | i
      · obtain rfl : t = old := Option.some.inj h
        show f new + total f ts + f t = f t + total f ts + f new
        omega
      · have hrest := ih (show ts[i]? = some old from h)
        show f t + total f (ts.set i new) + f old = f t + total f ts + f new
        omega

/-- One thread has at most what all have. -/
theorem le_total (f : π → Nat) (h : ts[i]? = some old) : f old ≤ total f ts :=
  List.le_sum_of_mem (List.mem_map_of_mem (List.mem_of_getElem? h))

theorem total_le {f g : π → Nat} (h : ∀ t ∈ ts, f t ≤ g t) : total f ts ≤ total g ts :=
  List.sum_le_sum h

theorem total_eq_zero {f : π → Nat} : total f ts = 0 ↔ ∀ t ∈ ts, f t = 0 := by
  simp only [total, List.sum_eq_zero_iff, List.mem_map, forall_exists_index, and_imp,
    forall_apply_eq_imp_iff₂]

/-- Where each thread has at most `w` more. -/
theorem total_map_le {f : π → Nat} {g : π → π} {w : Nat} (h : ∀ t ∈ ts, f (g t) ≤ f t + w) :
    total f (ts.map g) ≤ total f ts + ts.length * w := by
  induction ts with
  | nil => exact Nat.zero_le _
  | cons t ts ih =>
      have hhead := h t List.mem_cons_self
      have hrest := ih (fun u hu => h u (List.mem_cons_of_mem t hu))
      show f (g t) + total f (ts.map g) ≤ f t + total f ts + (ts.length + 1) * w
      rw [Nat.succ_mul]
      omega

/-- Amounts that are not more one by one, and not less together, are the same. -/
theorem eq_of_total_le {f g : π → Nat} (hle : ∀ t ∈ ts, f t ≤ g t)
    (htotal : total g ts ≤ total f ts) : ∀ t ∈ ts, f t = g t := by
  induction ts with
  | nil => exact fun t ht => absurd ht List.not_mem_nil
  | cons t ts ih =>
      have htail : ∀ u ∈ ts, f u ≤ g u := fun u hu => hle u (List.mem_cons_of_mem t hu)
      have hhead := hle t List.mem_cons_self
      have hrest := total_le htail
      change g t + total g ts ≤ f t + total f ts at htotal
      intro u hu
      rcases List.mem_cons.mp hu with rfl | hu
      · omega
      · exact ih htail (by omega) u hu

/-! ## Holdings and threads -/

/-- What a thread has is among the holdings. -/
theorem mem_holdings (h : ts[i]? = some old) {a : α} (ha : a ∈ f old) : a ∈ holdings f ts :=
  List.mem_flatMap.mpr ⟨old, List.mem_of_getElem? h, ha⟩

/-- A thread in a phase of the kind `p` is counted. -/
theorem count_pos (h : ts[i]? = some old) (hp : p old = true) : 0 < count p ts :=
  List.countP_pos_iff.mpr ⟨old, List.mem_of_getElem? h, hp⟩

/-- No two threads have the same, when nothing occurs twice among the holdings. -/
theorem eq_of_nodup (hnodup : (holdings f ts).Nodup) {i j : Nat} {s t : π} (hi : ts[i]? = some s)
    (hj : ts[j]? = some t) {a : α} (has : a ∈ f s) (hat : a ∈ f t) : i = j := by
  have hpair := (List.nodup_flatMap.mp hnodup).2
  obtain ⟨hilt, rfl⟩ := List.getElem?_eq_some_iff.mp hi
  obtain ⟨hjlt, rfl⟩ := List.getElem?_eq_some_iff.mp hj
  have hdisjoint := List.pairwise_iff_getElem.mp hpair
  rcases Nat.lt_trichotomy i j with hlt | heq | hgt
  · exact absurd hat (hdisjoint i j hilt hjlt hlt has)
  · exact heq
  · exact absurd has (hdisjoint j i hjlt hilt hgt hat)

/-- Threads that have at most one each. -/
theorem length_holdings_le (hone : ∀ t, (f t).length ≤ 1) (ts : List π) :
    (holdings f ts).length ≤ ts.length := by
  induction ts with
  | nil => exact Nat.le_refl 0
  | cons t ts ih =>
      have ht := hone t
      show (f t ++ holdings f ts).length ≤ (t :: ts).length
      rw [List.length_append, List.length_cons]
      omega

/-- One of them has none. -/
theorem length_holdings_lt (hone : ∀ t, (f t).length ≤ 1) (h : ts[i]? = some old)
    (hold : f old = []) : (holdings f ts).length < ts.length := by
  induction ts generalizing i with
  | nil => cases h
  | cons t ts ih =>
      have ht := hone t
      show (f t ++ holdings f ts).length < (t :: ts).length
      rw [List.length_append, List.length_cons]
      rcases i with _ | i
      · obtain rfl : t = old := Option.some.inj h
        have hrest := length_holdings_le hone ts
        rw [hold, List.length_nil]
        omega
      · have hrest := ih (show ts[i]? = some old from h)
        omega

end Threads

end EasyWebServer
