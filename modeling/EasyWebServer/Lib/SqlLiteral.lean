import EasyWebServer.Lib.CString

/-!
# String literals of SQL

A literal runs from a single quote to the next one that is neither escaped nor doubled.
A backslash escapes the byte behind it, and a doubled quote stands for one quote.
`readBody` reads what follows the opening quote, and `readPair` reads a statement that
consists of two literals in fixed texts.

`quoted` puts quotes around a text without escaping anything.  `readPair_quoted_iff`
says for which texts this is read back as it was written: those without a quote and
without a backslash.  What one literal loses by an escape, no other part of the
statement can give back (`readBody_length`).
-/

namespace EasyWebServer

namespace Sql

/-- A single quote. -/
def quote : UInt8 := 39
/-- A backslash. -/
def backslash : UInt8 := 92

/-- The text needs no escape in a literal. -/
def Plain (s : Bytes) : Prop := quote ∉ s ∧ backslash ∉ s

instance (s : Bytes) : Decidable (Plain s) := inferInstanceAs (Decidable (_ ∧ _))

/-- A text in quotes. -/
def quoted (s : Bytes) : Bytes := quote :: (s ++ [quote])

/-- Read a literal behind its opening quote: what it denotes, and what follows it. -/
def readBody : Bytes → Option (Bytes × Bytes)
  | [] => none
  | [b] => if b = quote then some ([], []) else none
  | b :: c :: rest =>
      if b = backslash then (readBody rest).map (fun r => (c :: r.1, r.2))
      else if b = quote then
        if c = quote then (readBody rest).map (fun r => (quote :: r.1, r.2))
        else some ([], c :: rest)
      else (readBody (c :: rest)).map (fun r => (b :: r.1, r.2))

/-- Read a literal. -/
def readLiteral : Bytes → Option (Bytes × Bytes)
  | [] => none
  | b :: rest => if b = quote then readBody rest else none

/-- Read a statement of two literals, with the text before them, between them and behind
them, and nothing else. -/
def readPair (before between behind s : Bytes) : Option (Bytes × Bytes) := do
  let s ← s.dropPrefix? before
  let (a, s) ← readLiteral s
  let s ← s.dropPrefix? between
  let (b, s) ← readLiteral s
  if s = behind then some (a, b) else none

theorem plain_cons {b : UInt8} {s : Bytes} :
    Plain (b :: s) ↔ b ≠ quote ∧ b ≠ backslash ∧ Plain s := by
  simp only [Plain, List.mem_cons, not_or]
  constructor
  · rintro ⟨⟨h1, h2⟩, h3, h4⟩
    exact ⟨Ne.symm h1, Ne.symm h3, h2, h4⟩
  · rintro ⟨h1, h3, h2, h4⟩
    exact ⟨⟨Ne.symm h1, h2⟩, Ne.symm h3, h4⟩

/-- A plain text in quotes is read back. -/
theorem readBody_plain {a rest : Bytes} (ha : Plain a) (hrest : rest.head? ≠ some quote) :
    readBody (a ++ quote :: rest) = some (a, rest) := by
  have hne : quote ≠ backslash := by decide
  induction a with
  | nil =>
      cases rest with
      | nil => rfl
      | cons c rest =>
          have hc : c ≠ quote := fun h => hrest (by rw [h]; rfl)
          rw [List.nil_append, readBody, if_neg hne, if_pos rfl, if_neg hc]
  | cons b a ih =>
      obtain ⟨hq, hb, ha⟩ := plain_cons.mp ha
      obtain ⟨c, tail, htail⟩ : ∃ c tail, a ++ quote :: rest = c :: tail := by
        cases a with
        | nil => exact ⟨quote, rest, rfl⟩
        | cons c a => exact ⟨c, a ++ quote :: rest, rfl⟩
      rw [List.cons_append, htail, readBody, if_neg hb, if_neg hq, ← htail, ih ha]
      rfl

/-- A literal denotes at most as many bytes as it has, and as many only when it is plain. -/
theorem readBody_length (s : Bytes) : ∀ {a rest : Bytes}, readBody s = some (a, rest) →
    a.length + 1 + rest.length ≤ s.length ∧
      (s.length ≤ a.length + 1 + rest.length → s = a ++ quote :: rest ∧ Plain a) := by
  have hnil : Plain [] := ⟨List.not_mem_nil, List.not_mem_nil⟩
  fun_induction readBody s with
  | case1 =>
      intro a rest h
      cases h
  | case2 =>
      intro a rest h
      cases h
      exact ⟨Nat.le_refl _, fun _ => ⟨rfl, hnil⟩⟩
  | case3 =>
      intro a rest h
      cases h
  | case4 c tail ih =>
      -- an escape: two bytes for one
      intro a rest h
      obtain ⟨⟨a', rest'⟩, hread, heq⟩ := Option.map_eq_some_iff.mp h
      cases heq
      have hle := (ih hread).1
      simp only [List.length_cons]
      exact ⟨by omega, fun hge => by omega⟩
  | case5 tail hne ih =>
      intro a rest h
      obtain ⟨⟨a', rest'⟩, hread, heq⟩ := Option.map_eq_some_iff.mp h
      cases heq
      have hle := (ih hread).1
      simp only [List.length_cons]
      exact ⟨by omega, fun hge => by omega⟩
  | case6 c tail hc hne =>
      intro a rest h
      cases h
      exact ⟨by simp only [List.length_cons, List.length_nil]; omega, fun _ => ⟨rfl, hnil⟩⟩
  | case7 b c tail hb hq ih =>
      intro a rest h
      obtain ⟨⟨a', rest'⟩, hread, heq⟩ := Option.map_eq_some_iff.mp h
      cases heq
      obtain ⟨hle, hplain⟩ := ih hread
      simp only [List.length_cons] at hle hplain ⊢
      refine ⟨by omega, fun hge => ?_⟩
      obtain ⟨htail, ha⟩ := hplain (by omega)
      exact ⟨by rw [htail]; rfl, plain_cons.mpr ⟨hq, hb, ha⟩⟩

theorem readLiteral_quoted {a rest : Bytes} (ha : Plain a) (hrest : rest.head? ≠ some quote) :
    readLiteral (quoted a ++ rest) = some (a, rest) := by
  rw [quoted, List.cons_append, List.append_assoc, readLiteral, if_pos rfl]
  exact readBody_plain ha hrest

theorem readLiteral_length {s a rest : Bytes} (h : readLiteral s = some (a, rest)) :
    a.length + 2 + rest.length ≤ s.length ∧
      (s.length ≤ a.length + 2 + rest.length → s = quoted a ++ rest ∧ Plain a) := by
  cases s with
  | nil => cases h
  | cons b s =>
      rw [readLiteral] at h
      split_ifs at h with hb
      obtain ⟨hle, hplain⟩ := readBody_length s h
      rw [List.length_cons]
      refine ⟨by omega, fun hge => ?_⟩
      obtain ⟨hs, ha⟩ := hplain (by omega)
      refine ⟨?_, ha⟩
      rw [hb, hs, quoted, List.cons_append, List.append_assoc]
      rfl

theorem dropPrefix?_append (p s : Bytes) : (p ++ s).dropPrefix? p = some s :=
  List.dropPrefix?_append_of_beq s (beq_self_eq_true p)

/-- Two texts in quotes are read back as they were written exactly when both are plain. -/
theorem readPair_quoted_iff {before between behind a b : Bytes}
    (hbetween : between.head? ≠ some quote) (hne : between ≠ [])
    (hbehind : behind.head? ≠ some quote) :
    readPair before between behind (before ++ quoted a ++ between ++ quoted b ++ behind) =
        some (a, b) ↔ Plain a ∧ Plain b := by
  have hhead : (between ++ (quoted b ++ behind)).head? ≠ some quote := by
    cases between with
    | nil => exact absurd rfl hne
    | cons x xs => exact hbetween
  simp only [List.append_assoc]
  constructor
  · intro h
    simp only [readPair, dropPrefix?_append, Option.bind_eq_bind, Option.bind_some] at h
    obtain ⟨⟨a', s₁⟩, ha, h⟩ := Option.bind_eq_some_iff.mp h
    obtain ⟨s₂, hdrop, h⟩ := Option.bind_eq_some_iff.mp h
    obtain ⟨⟨b', s₃⟩, hb, h⟩ := Option.bind_eq_some_iff.mp h
    simp only at hdrop h
    split_ifs at h with hend
    cases h
    obtain ⟨p, hs₁, hp⟩ := List.dropPrefix?_eq_some_iff.mp hdrop
    obtain rfl := eq_of_beq hp
    obtain ⟨hlea, haplain⟩ := readLiteral_length ha
    obtain ⟨hleb, hbplain⟩ := readLiteral_length hb
    -- no byte is left over for an escape
    rw [hs₁] at hlea haplain
    rw [hend] at hleb hbplain
    simp only [quoted, List.length_append, List.length_cons, List.length_nil] at hlea haplain
    exact ⟨(haplain (by omega)).2, (hbplain (by omega)).2⟩
  · rintro ⟨ha, hb⟩
    simp only [readPair, dropPrefix?_append, Option.bind_eq_bind, Option.bind_some,
      readLiteral_quoted ha hhead, readLiteral_quoted hb hbehind, if_true]

end Sql

end EasyWebServer
