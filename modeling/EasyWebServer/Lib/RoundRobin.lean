import Mathlib.Data.List.Basic

/-!
# Round robin

Workers `0` to `n - 1` take turns.  A counter says where the search for the next worker
starts, the search goes up in cyclic order, and it ends at the first worker that lives
(`IsNext`).  Behind a service the counter is the successor of the worker that was served.

`offset n c k` is how far `k` is from `c` in cyclic order.  `InTurn` relates the counter to the
workers that have been served: since a worker was served last, the others that live were served
once when the counter has gone past them, and not at all otherwise.  A service keeps it
(`InTurn.serve`), and so does the death of a worker (`InTurn.mono`).

`InTurn.fair` says what comes of it: between two services of one worker, each of the others that
lives is served once.
-/

namespace EasyWebServer

namespace RoundRobin

variable {n : Nat}

/-! ## Cyclic order -/

/-- How far `k` is from `c` in cyclic order. -/
def offset (n c k : Nat) : Nat := if c ≤ k then k - c else k + n - c

@[simp] theorem offset_self (n c : Nat) : offset n c c = 0 := by
  rw [offset, if_pos (Nat.le_refl c), Nat.sub_self]

theorem offset_lt {c k : Nat} (hc : c < n) (hk : k < n) : offset n c k < n := by
  rw [offset]
  split <;> omega

theorem offset_inj {c j k : Nat} (hc : c < n) (hj : j < n) (hk : k < n)
    (h : offset n c j = offset n c k) : j = k := by
  rw [offset, offset] at h
  split at h <;> split at h <;> omega

theorem succ_mod {j : Nat} (hj : j < n) : (j + 1) % n = if j + 1 = n then 0 else j + 1 := by
  split
  · rename_i heq
    rw [heq, Nat.mod_self]
  · exact Nat.mod_eq_of_lt (by omega)

/-- The successor is one farther, unless the search is back where it started. -/
theorem offset_succ {c j : Nat} (hc : c < n) (hj : j < n) (hne : (j + 1) % n ≠ c) :
    offset n c ((j + 1) % n) = offset n c j + 1 := by
  rw [succ_mod hj] at hne ⊢
  rw [offset, offset]
  split at hne
  · rename_i heq
    rw [if_pos heq, if_neg (by omega), if_pos (by omega)]
    omega
  · rename_i hlt
    rw [if_neg hlt]
    split <;> split <;> omega

/-- Back where the search started, all offsets have been seen. -/
theorem offset_of_succ {c j : Nat} (hc : c < n) (hj : j < n) (heq : (j + 1) % n = c) :
    offset n c j = n - 1 := by
  rw [succ_mod hj] at heq
  rw [offset]
  split at heq <;> split <;> omega

/-- Offsets from `c` in terms of offsets from `b`. -/
theorem offset_shift {b c k : Nat} (hb : b < n) (hc : c < n) (hk : k < n) :
    offset n c k =
      if offset n b c ≤ offset n b k then offset n b k - offset n b c
      else offset n b k + n - offset n b c := by
  simp only [offset]
  split <;> split <;> split <;> split <;> omega

/-! ## The next worker -/

/-- `j` is the first worker that lives, at or after `c` in cyclic order. -/
structure IsNext (n : Nat) (live : Nat → Prop) (c j : Nat) : Prop where
  lt : j < n
  alive : live j
  first : ∀ k < n, live k → offset n c j ≤ offset n c k

theorem IsNext.congr {live live' : Nat → Prop} {c j : Nat} (h : IsNext n live c j)
    (hiff : ∀ k < n, live k ↔ live' k) : IsNext n live' c j where
  lt := h.lt
  alive := (hiff j h.lt).mp h.alive
  first := fun k hk hlive => h.first k hk ((hiff k hk).mpr hlive)

/-- As long as `b` is not passed, the next worker is the one that is first from `b`, among
those that are not before the counter. -/
theorem IsNext.shift {live : Nat → Prop} {b c i j : Nat} (h : IsNext n live c j) (hb : b < n)
    (hc : c < n) (hi : i < n) (hlive : live i) (hlast : ∀ k < n, offset n b k ≤ offset n b i) :
    offset n b c ≤ offset n b j ∧
      ∀ k < n, live k → offset n b c ≤ offset n b k → offset n b j ≤ offset n b k := by
  have hci := hlast c hc
  have hshift : ∀ k < n, offset n c k =
      if offset n b c ≤ offset n b k then offset n b k - offset n b c
      else offset n b k + n - offset n b c := fun k hk => offset_shift hb hc hk
  have hnotPassed : offset n b c ≤ offset n b j := by
    -- Otherwise `i` comes before `j`.
    by_contra hpassed
    have hfirst := h.first i hi hlive
    have hin := offset_lt hb hi
    rw [hshift j h.lt, hshift i hi, if_neg hpassed, if_pos hci] at hfirst
    omega
  refine ⟨hnotPassed, ?_⟩
  intro k hk hlivek hck
  have hfirst := h.first k hk hlivek
  rw [hshift j h.lt, hshift k hk, if_pos hnotPassed, if_pos hck] at hfirst
  omega

/-! ## The account of the services -/

/-- The counter, and the workers that have been served: since `i` was served last, the workers
that live and are before the counter were served once, and those that are not before it
were not served. -/
structure InTurn (n : Nat) (live : Nat → Prop) (c : Nat) (served : List Nat) : Prop where
  lt : c < n
  counts : ∀ before i since, served = before ++ i :: since → i ∉ since → i < n → live i →
    ∀ k < n, live k → k ≠ i →
      since.count k =
        if offset n ((i + 1) % n) k < offset n ((i + 1) % n) c then 1 else 0

/-- Between two services of a worker, each of the others that lives is served once. -/
def Fair (n : Nat) (live : Nat → Prop) (served : List Nat) : Prop :=
  ∀ before i between, served = before ++ i :: between ++ [i] → i ∉ between →
    ∀ k < n, live k → k ≠ i → between.count k = 1

variable {live live' : Nat → Prop} {c : Nat} {served : List Nat}

theorem InTurn.start (hn : 0 < n) : InTurn n live 0 [] where
  lt := hn
  counts := by
    intro before i since h
    exact absurd h.symm (List.append_ne_nil_of_right_ne_nil _ (List.cons_ne_nil _ _))

/-- Workers die. -/
theorem InTurn.mono (h : InTurn n live c served) (hsub : ∀ k, live' k → live k) :
    InTurn n live' c served where
  lt := h.lt
  counts := fun before i since hserved hi hlt hlive k hk hlivek =>
    h.counts before i since hserved hi hlt (hsub i hlive) k hk (hsub k hlivek)

theorem Fair.mono (h : Fair n live served) (hsub : ∀ k, live' k → live k) :
    Fair n live' served :=
  fun before i between hserved hi k hk hlive => h before i between hserved hi k hk (hsub k hlive)

/-- The last service in a list that ends with `j` is that of `j`, or the list goes on behind
it up to `j`. -/
theorem append_singleton_eq {served before since : List Nat} {i j : Nat}
    (h : served ++ [j] = before ++ i :: since) :
    since = [] ∧ i = j ∨ ∃ since', since = since' ++ [j] ∧ served = before ++ i :: since' := by
  rcases List.eq_nil_or_concat since with rfl | ⟨since', k, rfl⟩
  · exact .inl ⟨rfl, (List.append_inj' h rfl).2 |> List.cons.inj |>.1.symm⟩
  · rw [List.concat_eq_append, ← List.cons_append, ← List.append_assoc] at h
    obtain ⟨hserved, hlast⟩ := List.append_inj' h rfl
    refine .inr ⟨since', ?_, hserved⟩
    rw [List.concat_eq_append, hlast]

/-- The successor of `i` has the other workers before `i`. -/
theorem offset_last {i : Nat} (hi : i < n) :
    offset n ((i + 1) % n) i = n - 1 ∧
      ∀ k < n, offset n ((i + 1) % n) k ≤ offset n ((i + 1) % n) i := by
  have hb : (i + 1) % n < n := Nat.mod_lt _ (Nat.zero_lt_of_lt hi)
  have hlast := offset_of_succ hb hi rfl
  refine ⟨hlast, ?_⟩
  intro k hk
  have := offset_lt hb hk
  omega

/-- The next worker is served. -/
theorem InTurn.serve {j : Nat} (h : InTurn n live c served) (hnext : IsNext n live c j) :
    InTurn n live ((j + 1) % n) (served ++ [j]) where
  lt := Nat.mod_lt _ (Nat.zero_lt_of_lt h.lt)
  counts := by
    intro before i since hserved hi hlt hlive k hk hlivek hne
    have hb : (i + 1) % n < n := Nat.mod_lt _ (Nat.zero_lt_of_lt hlt)
    rcases append_singleton_eq hserved with ⟨rfl, rfl⟩ | ⟨since, rfl, hbefore⟩
    · rw [offset_self, if_neg (Nat.not_lt_zero _), List.count_nil]
    · have hji : j ≠ i := by
        intro heq
        rw [heq] at hi
        exact hi (List.mem_append_right _ (List.mem_singleton_self i))
      have hsince := h.counts before i since hbefore
        (fun hmem => hi (List.mem_append_left _ hmem)) hlt hlive k hk hlivek hne
      obtain ⟨hge, hfirst⟩ := hnext.shift hb h.lt hlt hlive (offset_last hlt).2
      have hsucc : offset n ((i + 1) % n) ((j + 1) % n) = offset n ((i + 1) % n) j + 1 := by
        apply offset_succ hb hnext.lt
        intro heq
        rw [succ_mod hlt, succ_mod hnext.lt] at heq
        split at heq <;> split at heq <;> omega
      rw [List.count_append, hsince, hsucc]
      by_cases hkj : k = j
      · rw [hkj, if_neg (by omega), List.count_singleton_self, if_pos (by omega)]
      · have hother : List.count k [j] = 0 :=
          List.count_eq_zero.mpr (fun hmem => hkj (List.mem_singleton.mp hmem))
        have hoffset : offset n ((i + 1) % n) k ≠ offset n ((i + 1) % n) j :=
          fun heq => hkj (offset_inj hb hk hnext.lt heq)
        by_cases hbehind : offset n ((i + 1) % n) k < offset n ((i + 1) % n) c
        · rw [hother, if_pos hbehind, if_pos (by omega)]
        · have hle := hfirst k hk hlivek (by omega)
          rw [hother, if_neg hbehind, if_neg (by omega)]

/-- When a worker is served again, the counter has gone past all the others. -/
theorem InTurn.fair {j : Nat} (h : InTurn n live c served) (hnext : IsNext n live c j) :
    Fair n live (served ++ [j]) := by
  intro before i between hserved hi k hk hlivek hne
  obtain ⟨hbefore, hlast⟩ := List.append_inj' hserved rfl
  obtain rfl : j = i := (List.cons.inj hlast).1
  have hb : (j + 1) % n < n := Nat.mod_lt _ (Nat.zero_lt_of_lt h.lt)
  obtain ⟨-, hfirst⟩ := hnext.shift hb h.lt hnext.lt hnext.alive (offset_last hnext.lt).2
  have hcount := h.counts before j between hbefore hi hnext.lt hnext.alive k hk hlivek hne
  have hpassed : offset n ((j + 1) % n) k < offset n ((j + 1) % n) c := by
    by_contra hnot
    have hle := hfirst k hk hlivek (by omega)
    have hge := (offset_last hnext.lt).2 k hk
    exact hne (offset_inj hb hk hnext.lt (by omega))
  rw [hcount, if_pos hpassed]

end RoundRobin

end EasyWebServer
