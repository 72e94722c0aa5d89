import EasyWebServer.Lib.CString

/-!
# The first line of a byte stream

`crlfIndex` is the index of the first CR that an LF follows.  What stands before it is the
first line.

A line that has been found stays the first one when more bytes arrive
(`crlfIndex_append`), and only a pair that ends among the new bytes can be a new one
(`crlfAt_append`).
-/

namespace EasyWebServer

namespace CrlfLine

/-- A CR at index `i`, with an LF behind it. -/
def CrlfAt (s : Bytes) (i : Nat) : Prop := s[i]? = some CR ∧ s[i + 1]? = some LF

/-- The index of the first CR that an LF follows. -/
def crlfIndex : Bytes → Option Nat
  | a :: b :: rest =>
      if a = CR ∧ b = LF then some 0 else (crlfIndex (b :: rest)).map (fun k => k + 1)
  | _ => none

variable {s t : Bytes} {i k : Nat}

theorem CrlfAt.lt (h : CrlfAt s i) : i + 1 < s.length := by
  by_contra hge
  have hnone := h.2
  rw [List.getElem?_eq_none (by omega)] at hnone
  cases hnone

theorem CrlfAt.append (h : CrlfAt s i) (t : Bytes) : CrlfAt (s ++ t) i := by
  have hlt := h.lt
  refine ⟨?_, ?_⟩
  · rw [List.getElem?_append_left (by omega)]
    exact h.1
  · rw [List.getElem?_append_left hlt]
    exact h.2

/-- A pair in a longer stream is one of the stream before, or its LF is new. -/
theorem crlfAt_append (h : CrlfAt (s ++ t) i) (hlt : i + 1 < s.length) : CrlfAt s i := by
  obtain ⟨hcr, hlf⟩ := h
  rw [List.getElem?_append_left (by omega)] at hcr
  rw [List.getElem?_append_left hlt] at hlf
  exact ⟨hcr, hlf⟩

theorem crlfAt_zero {a b : UInt8} {rest : Bytes} :
    CrlfAt (a :: b :: rest) 0 ↔ a = CR ∧ b = LF := by
  simp [CrlfAt]

theorem crlfAt_succ {a : UInt8} : CrlfAt (a :: s) (i + 1) ↔ CrlfAt s i := by
  simp [CrlfAt]

theorem not_crlfAt_short (h : s.length ≤ 1) (i : Nat) : ¬ CrlfAt s i := by
  intro hat
  have := hat.lt
  omega

/-- `crlfIndex` finds the first pair, or there is none. -/
theorem crlfIndex_spec (s : Bytes) :
    match crlfIndex s with
    | some k => CrlfAt s k ∧ ∀ i < k, ¬ CrlfAt s i
    | none => ∀ i, ¬ CrlfAt s i := by
  fun_induction crlfIndex s with
  | case1 a b rest hpair =>
      exact ⟨crlfAt_zero.mpr hpair, fun i hi => absurd hi (Nat.not_lt_zero i)⟩
  | case2 a b rest hpair ih =>
      rcases hrest : crlfIndex (b :: rest) with _ | k
      · rw [hrest] at ih
        intro i
        rcases i with _ | i
        · rw [crlfAt_zero]
          exact hpair
        · rw [crlfAt_succ]
          exact ih i
      · rw [hrest] at ih
        refine ⟨crlfAt_succ.mpr ih.1, ?_⟩
        intro i hi
        rcases i with _ | i
        · rw [crlfAt_zero]
          exact hpair
        · rw [crlfAt_succ]
          exact ih.2 i (Nat.lt_of_succ_lt_succ hi)
  | case3 s hshort =>
      apply not_crlfAt_short
      rcases s with _ | ⟨a, _ | ⟨b, rest⟩⟩
      · exact Nat.zero_le 1
      · exact Nat.le_refl 1
      · exact absurd rfl (hshort a b rest)

theorem crlfIndex_eq_some : crlfIndex s = some k ↔ CrlfAt s k ∧ ∀ i < k, ¬ CrlfAt s i := by
  have hspec := crlfIndex_spec s
  rcases hk : crlfIndex s with _ | k'
  · rw [hk] at hspec
    exact iff_of_false nofun (fun h => hspec k h.1)
  · rw [hk] at hspec
    constructor
    · rintro ⟨⟩
      exact hspec
    · intro h
      rcases Nat.lt_trichotomy k k' with hlt | rfl | hgt
      · exact absurd h.1 (hspec.2 k hlt)
      · rfl
      · exact absurd hspec.1 (h.2 k' hgt)

theorem crlfIndex_eq_none : crlfIndex s = none ↔ ∀ i, ¬ CrlfAt s i := by
  have hspec := crlfIndex_spec s
  rcases hk : crlfIndex s with _ | k
  · rw [hk] at hspec
    exact iff_of_true rfl hspec
  · rw [hk] at hspec
    exact iff_of_false nofun (fun h => h k hspec.1)

/-- Bytes that arrive later do not change the first line. -/
theorem crlfIndex_append (h : crlfIndex s = some k) (t : Bytes) :
    crlfIndex (s ++ t) = some k := by
  rw [crlfIndex_eq_some] at h ⊢
  have hlt := h.1.lt
  exact ⟨h.1.append t, fun i hi hat => h.2 i hi (crlfAt_append hat (by omega))⟩

/-- The pair splits the stream. -/
theorem CrlfAt.split (h : CrlfAt s k) : s = s.take k ++ CR :: LF :: s.drop (k + 2) := by
  have hlt := h.lt
  obtain ⟨hcr, hlf⟩ := h
  rw [List.getElem?_eq_getElem (by omega)] at hcr hlf
  have hrest : s.drop k = CR :: LF :: s.drop (k + 2) := by
    rw [List.drop_eq_getElem_cons (by omega), List.drop_eq_getElem_cons (by omega),
      Option.some.inj hcr, Option.some.inj hlf]
  rw [← hrest, List.take_append_drop]

theorem crlfAt_of_split (p q : Bytes) : CrlfAt (p ++ CR :: LF :: q) p.length := by
  simp [CrlfAt]

/-- A stream without a pair, in terms of its parts. -/
theorem crlfIndex_none_iff : crlfIndex s = none ↔ ¬ [CR, LF] <:+: s := by
  rw [crlfIndex_eq_none]
  constructor
  · rintro h ⟨p, q, rfl⟩
    refine h p.length ?_
    rw [List.append_assoc]
    exact crlfAt_of_split p q
  · intro h i hat
    refine h ⟨s.take i, s.drop (i + 2), ?_⟩
    rw [List.append_assoc]
    exact hat.split.symm

/-- The first line of a line and its end. -/
theorem crlfIndex_line (h : crlfIndex s = none) : crlfIndex (s ++ [CR, LF]) = some s.length := by
  rw [crlfIndex_eq_some]
  refine ⟨crlfAt_of_split s [], fun i hi hat => ?_⟩
  -- the pair would end at or before the CR, which is no LF
  rcases Nat.lt_or_ge (i + 1) s.length with hlt | hge
  · exact crlfIndex_eq_none.mp h i (crlfAt_append hat hlt)
  · have hlast : i + 1 = s.length := by omega
    have hlf := hat.2
    rw [hlast, List.getElem?_append_right (Nat.le_refl _), Nat.sub_self] at hlf
    exact absurd (Option.some.inj hlf) (by decide)

/-- What stands before the first pair has none. -/
theorem crlfIndex_take (h : crlfIndex s = some k) : crlfIndex (s.take k) = none := by
  rw [crlfIndex_eq_some] at h
  rw [crlfIndex_eq_none]
  intro i hat
  have hlt := hat.lt
  rw [List.length_take] at hlt
  refine h.2 i (by omega) ?_
  have happend := hat.append (s.drop k)
  rwa [List.take_append_drop] at happend

/-- A segment of a line and its end: it has no pair, or it is the last one and ends with
it. -/
theorem crlfIndex_segment {line p q : Bytes} (hline : crlfIndex line = none)
    (h : p ++ s ++ q = line ++ [CR, LF]) :
    crlfIndex s = none ∨
      ∃ tail, s = tail ++ [CR, LF] ∧ crlfIndex tail = none ∧ line = p ++ tail ∧ q = [] := by
  rcases hs : crlfIndex s with _ | k
  · exact Or.inl rfl
  · right
    have hat := (crlfIndex_eq_some.mp hs).1
    have hsplit := hat.split
    have hlt := hat.lt
    -- the pair of the segment is the one at the end of the line
    have hpair : CrlfAt (line ++ [CR, LF]) (p.length + k) := by
      have hshift := crlfAt_of_split (p ++ s.take k) (s.drop (k + 2) ++ q)
      rw [List.append_assoc, ← List.cons_append, ← List.cons_append, ← List.append_assoc (s.take k),
        ← hsplit, ← List.append_assoc, h, List.length_append, List.length_take,
        Nat.min_eq_left (by omega)] at hshift
      exact hshift
    have hfirst := (crlfIndex_eq_some.mp (crlfIndex_line hline)).2 (p.length + k)
    have hge : line.length ≤ p.length + k := by
      by_contra hless
      exact hfirst (by omega) hpair
    have hlen := congrArg List.length h
    simp only [List.length_append, List.length_cons, List.length_nil] at hlen
    have hq : q = [] := List.length_eq_zero_iff.mp (by omega)
    have hdrop : s.drop (k + 2) = [] := List.drop_eq_nil_of_le (by omega)
    rw [hdrop] at hsplit
    refine ⟨s.take k, hsplit, crlfIndex_take hs, ?_, hq⟩
    rw [hq, List.append_nil, hsplit, ← List.append_assoc] at h
    exact (List.append_cancel_right h).symm

end CrlfLine

end EasyWebServer
