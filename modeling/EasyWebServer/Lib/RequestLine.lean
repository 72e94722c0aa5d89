import EasyWebServer.Lib.CString

/-!
# Request lines

The grammar of an HTTP request line: a method, a target and a version, with runs of
blanks between them.  `WellFormed method line target` is the grammar, and `targetPath`
is the path of a target that may be an absolute URL.

A line has at most one reading (`WellFormed.of_split`), and a line that a parser cuts at
its first run of blanks is either a single word or splits (`word_or_split`).
-/

namespace EasyWebServer

open CString

namespace RequestLine

/-! ## Words and blanks -/

/-- No byte of the text is a space or a tab. -/
def Word (s : Bytes) : Prop := ∀ b ∈ s, b ∉ blanks

/-- Every byte of the text is a space or a tab. -/
def Blank (s : Bytes) : Prop := ∀ b ∈ s, b ∈ blanks

/-- The text does not start with a blank. -/
def Starts (s : Bytes) : Prop := ∀ b ∈ s.head?, b ∉ blanks

/-- The texts are equal when case is ignored. -/
def EqualFold (s t : Bytes) : Prop := s.map toLower = t.map toLower

/-- The text starts with `p` when case is ignored. -/
def StartsFold (s p : Bytes) : Prop := EqualFold (s.take p.length) p

instance (s : Bytes) : Decidable (Word s) := List.decidableBAll _ s
instance (s : Bytes) : Decidable (Blank s) := List.decidableBAll _ s
instance (s : Bytes) : Decidable (Starts s) := Option.decidableForallMem s.head?
instance (s t : Bytes) : Decidable (EqualFold s t) := inferInstanceAs (Decidable (_ = _))
instance (s p : Bytes) : Decidable (StartsFold s p) := inferInstanceAs (Decidable (EqualFold _ _))

theorem Word.cons {b : UInt8} {s : Bytes} (hb : b ∉ blanks) (hs : Word s) : Word (b :: s) :=
  List.forall_mem_cons.mpr ⟨hb, hs⟩

theorem Blank.cons {b : UInt8} {s : Bytes} (hb : b ∈ blanks) (hs : Blank s) : Blank (b :: s) :=
  List.forall_mem_cons.mpr ⟨hb, hs⟩

theorem Word.starts {s t : Bytes} (hs : Word s) (hne : s ≠ []) : Starts (s ++ t) := by
  cases s with
  | nil => exact absurd rfl hne
  | cons b s =>
      intro x hx
      cases hx
      exact hs b List.mem_cons_self

/-- A blank is its own lower case. -/
theorem toLower_blank {b : UInt8} (h : b ∈ blanks) : toLower b = b := by
  simp only [blanks, List.mem_cons, List.not_mem_nil, or_false] at h
  rcases h with rfl | rfl <;> decide

/-- A text that equals a word when case is ignored is a word. -/
theorem EqualFold.word {s t : Bytes} (h : EqualFold s t) (ht : Word (t.map toLower)) :
    Word s := by
  intro b hb hblank
  have hmem : toLower b ∈ t.map toLower := by
    rw [← h]
    exact List.mem_map_of_mem hb
  rw [toLower_blank hblank] at hmem
  exact ht b hmem hblank

theorem EqualFold.ne_nil {s t : Bytes} (h : EqualFold s t) (ht : t ≠ []) : s ≠ [] := by
  rintro rfl
  exact ht (List.map_eq_nil_iff.mp h.symm)

/-- A text is a word, or a word and a run of blanks stand at its start. -/
theorem word_or_split (s : Bytes) :
    Word s ∨ ∃ a w r, s = a ++ w ++ r ∧ Word a ∧ Blank w ∧ w ≠ [] ∧ Starts r := by
  induction s with
  | nil => exact Or.inl nofun
  | cons b s ih =>
      by_cases hb : b ∈ blanks
      · have hsingle : Blank [b] := Blank.cons hb nofun
        rcases ih with hword | ⟨a, w, r, rfl, ha, hw, hne, hr⟩
        · refine Or.inr ⟨[], [b], s, rfl, nofun, hsingle, List.cons_ne_nil _ _, fun x hx => ?_⟩
          exact hword x (List.mem_of_mem_head? hx)
        · cases a with
          | nil => exact Or.inr ⟨[], b :: w, r, rfl, nofun, hw.cons hb, List.cons_ne_nil _ _, hr⟩
          | cons x a =>
              refine Or.inr ⟨[], [b], x :: a ++ w ++ r, rfl, nofun, hsingle,
                List.cons_ne_nil _ _, ?_⟩
              rw [List.append_assoc]
              exact ha.starts (List.cons_ne_nil _ _)
      · rcases ih with hword | ⟨a, w, r, rfl, ha, hw, hne, hr⟩
        · exact Or.inl (hword.cons hb)
        · exact Or.inr ⟨b :: a, w, r, rfl, ha.cons hb, hw, hne, hr⟩

/-- The bytes up to the first that fails a test. -/
theorem takeWhile_append_stop {p : UInt8 → Bool} {a r : Bytes} (ha : ∀ b ∈ a, p b = true)
    (hr : ∀ b ∈ r.head?, p b = false) : (a ++ r).takeWhile p = a := by
  rw [List.takeWhile_append_of_pos ha]
  cases r with
  | nil => rw [List.takeWhile_nil, List.append_nil]
  | cons x r => rw [List.takeWhile_cons, hr x rfl, if_neg Bool.false_ne_true, List.append_nil]

/-- The word at the start of a split text. -/
theorem takeWhile_word {a w r : Bytes} (ha : Word a) (hw : Blank w) (hne : w ≠ []) :
    (a ++ w ++ r).takeWhile (fun b => !blanks.contains b) = a := by
  rw [List.append_assoc]
  apply takeWhile_append_stop
  · intro b hb
    simpa using ha b hb
  · intro b hb
    cases w with
    | nil => exact absurd rfl hne
    | cons x w =>
        cases hb
        simpa using hw _ List.mem_cons_self

/-- The blanks at the start of a text. -/
theorem takeWhile_blank {w r : Bytes} (hw : Blank w) (hr : Starts r) :
    (w ++ r).takeWhile (fun b => blanks.contains b) = w := by
  apply takeWhile_append_stop
  · intro b hb
    simpa using hw b hb
  · intro b hb
    simpa using hr b hb

/-- A text splits in one way. -/
theorem split_unique {a w r a' w' r' : Bytes} (h : a ++ w ++ r = a' ++ w' ++ r')
    (ha : Word a) (hw : Blank w) (hne : w ≠ []) (hr : Starts r)
    (ha' : Word a') (hw' : Blank w') (hne' : w' ≠ []) (hr' : Starts r') :
    a = a' ∧ w = w' ∧ r = r' := by
  have haa : a = a' := by
    rw [← takeWhile_word (r := r) ha hw hne, h, takeWhile_word ha' hw' hne']
  subst haa
  rw [List.append_assoc, List.append_assoc, List.append_cancel_left_eq] at h
  have hww : w = w' := by
    rw [← takeWhile_blank hw hr, h, takeWhile_blank hw' hr']
  subst hww
  exact ⟨rfl, rfl, List.append_cancel_left h⟩

/-- A word does not split. -/
theorem Word.not_split {s a w r : Bytes} (hs : Word s) (h : s = a ++ w ++ r) (hw : Blank w)
    (hne : w ≠ []) : False := by
  cases w with
  | nil => exact hne rfl
  | cons b w =>
      have hmem : b ∈ s := by
        rw [h]
        simp
      exact hs b hmem (hw b List.mem_cons_self)

/-! ## The string functions on words -/

/-- A search finds the byte behind those that fail its test. -/
theorem findIdx?_eq_takeWhile {p : UInt8 → Bool} {s : Bytes} (h : ∃ b ∈ s, p b = true) :
    s.findIdx? p = some (s.takeWhile (fun b => !p b)).length := by
  induction s with
  | nil =>
      obtain ⟨b, hb, -⟩ := h
      cases hb
  | cons x s ih =>
      by_cases hx : p x = true
      · rw [List.findIdx?_cons, if_pos hx, List.takeWhile_cons, hx]
        rfl
      · have hs : ∃ b ∈ s, p b = true := by
          obtain ⟨b, hb, hpb⟩ := h
          rcases List.mem_cons.mp hb with rfl | hb
          · exact absurd hpb hx
          · exact ⟨b, hb, hpb⟩
        rw [List.findIdx?_cons, if_neg hx, ih hs, List.takeWhile_cons,
          Bool.eq_false_iff.mpr hx]
        rfl

/-- What is left from the first `b` on. -/
theorem head?_dropWhile {b : UInt8} {s : Bytes} (h : b ∈ s) :
    (s.dropWhile (fun x => x != b)).head? = some b := by
  induction s with
  | nil => cases h
  | cons x s ih =>
      by_cases hx : x = b
      · rw [List.dropWhile_cons, hx, bne_self_eq_false]
        rfl
      · rw [List.dropWhile_cons, if_pos (bne_iff_ne.mpr hx)]
        exact ih ((List.mem_cons.mp h).resolve_left (fun he => hx he.symm))

theorem strpbrk_word {mem s : Bytes} (hmem : cstr mem = s) (hs : Word s) :
    strpbrk mem blanks = none := by
  rw [strpbrk, hmem, List.findIdx?_eq_none_iff]
  intro b hb
  simpa using hs b hb

theorem strpbrk_split {mem a w r : Bytes} (hmem : cstr mem = a ++ w ++ r) (ha : Word a)
    (hw : Blank w) (hne : w ≠ []) : strpbrk mem blanks = some a.length := by
  have hblank : ∃ b ∈ a ++ w ++ r, blanks.contains b = true := by
    cases w with
    | nil => exact absurd rfl hne
    | cons b w => exact ⟨b, by simp, by simpa using hw b List.mem_cons_self⟩
  rw [strpbrk, hmem, findIdx?_eq_takeWhile hblank, takeWhile_word ha hw hne]

theorem strspn_blank {mem w r : Bytes} (hmem : cstr mem = w ++ r) (hw : Blank w)
    (hr : Starts r) : strspn mem blanks = w.length := by
  rw [strspn, hmem, takeWhile_blank hw hr]

theorem strchr_mem {mem s : Bytes} {b : UInt8} (hmem : cstr mem = s) (hb : b ∈ s) :
    strchr mem b = some (s.takeWhile (fun x => x != b)).length := by
  rw [strchr, hmem, findIdx?_eq_takeWhile (p := fun x => x == b) ⟨b, hb, beq_self_eq_true b⟩]
  rfl

theorem strchr_notMem {mem s : Bytes} {b : UInt8} (hmem : cstr mem = s) (hb : b ∉ s) :
    strchr mem b = none := by
  rw [strchr, hmem, List.findIdx?_eq_none_iff]
  intro x hx
  exact beq_eq_false_iff_ne.mpr (fun he => hb (he ▸ hx))

theorem strcasecmp_iff {mem s t : Bytes} (hmem : cstr mem = s) :
    strcasecmp mem t = true ↔ EqualFold s t := by
  rw [strcasecmp, hmem, beq_iff_eq]
  rfl

theorem strncasecmp_iff {mem s t : Bytes} (hmem : cstr mem = s) :
    strncasecmp mem t = true ↔ StartsFold s t := by
  rw [strncasecmp, hmem, beq_iff_eq]
  rfl

/-! ## The grammar -/

/-- `HTTP/1.1`. -/
def version : Bytes := ascii "HTTP/1.1"

/-- The text is a target, blanks and `HTTP/1.1`. -/
def TargetOf (rest target : Bytes) : Prop :=
  ∃ w v, rest = target ++ w ++ v ∧ target ≠ [] ∧ Word target ∧ Blank w ∧ w ≠ [] ∧
    EqualFold v version

/-- The line is a method, blanks, a target, blanks and `HTTP/1.1`. -/
def WellFormed (method line target : Bytes) : Prop :=
  ∃ m w rest, line = m ++ w ++ rest ∧ EqualFold m method ∧ Blank w ∧ w ≠ [] ∧
    TargetOf rest target

/-- What stands from the first `slash` on behind a scheme. -/
def pathBehind (slash : UInt8) (target scheme : Bytes) : Option Bytes :=
  if slash ∈ target.drop scheme.length then
    some ((target.drop scheme.length).dropWhile (fun b => b != slash))
  else none

/-- The path of a target: the target itself, or the path behind a scheme. -/
def targetPath (schemes : List Bytes) (slash : UInt8) (target : Bytes) : Option Bytes :=
  match schemes.find? (fun p => decide (StartsFold target p)) with
  | none => some target
  | some p => pathBehind slash target p

theorem targetPath_nil (slash : UInt8) (target : Bytes) :
    targetPath [] slash target = some target := rfl

theorem targetPath_cons (p : Bytes) (schemes : List Bytes) (slash : UInt8) (target : Bytes) :
    targetPath (p :: schemes) slash target =
      if StartsFold target p then pathBehind slash target p
      else targetPath schemes slash target := by
  unfold targetPath
  rw [List.find?_cons]
  split_ifs with h
  · rw [decide_eq_true h]
  · rw [decide_eq_false h]

theorem word_version : Word (version.map toLower) := by decide

theorem EqualFold.starts_version {v : Bytes} (h : EqualFold v version) : Starts v := by
  have hstarts := (h.word word_version).starts (t := []) (h.ne_nil (by decide))
  rwa [List.append_nil] at hstarts

theorem TargetOf.starts {rest target : Bytes} (h : TargetOf rest target) : Starts rest := by
  obtain ⟨w, v, rfl, hne, hword, -⟩ := h
  rw [List.append_assoc]
  exact hword.starts hne

/-- The reading of a line whose first word and first run of blanks are known. -/
theorem WellFormed.of_split {method m w r target : Bytes}
    (hmethod : Word (method.map toLower)) (hm : Word m) (hw : Blank w) (hne : w ≠ [])
    (hr : Starts r) :
    WellFormed method (m ++ w ++ r) target ↔ EqualFold m method ∧ TargetOf r target := by
  constructor
  · rintro ⟨m₁, w₁, rest, hline, hm₁, hw₁, hne₁, htarget⟩
    obtain ⟨rfl, rfl, rfl⟩ :=
      split_unique hline hm hw hne hr (hm₁.word hmethod) hw₁ hne₁ htarget.starts
    exact ⟨hm₁, htarget⟩
  · rintro ⟨hfold, htarget⟩
    exact ⟨m, w, r, rfl, hfold, hw, hne, htarget⟩

/-- A line of one word has no reading. -/
theorem WellFormed.not_word {method line target : Bytes} (h : WellFormed method line target) :
    ¬ Word line := by
  obtain ⟨m, w, rest, hline, -, hw, hne, -⟩ := h
  exact fun hword => hword.not_split hline hw hne

theorem TargetOf.not_word {rest target : Bytes} (h : TargetOf rest target) : ¬ Word rest := by
  obtain ⟨w, v, hrest, -, -, hw, hne, -⟩ := h
  exact fun hword => hword.not_split hrest hw hne

/-- The reading of the part behind the method, when its first word and first run of
blanks are known. -/
theorem TargetOf.of_split {u w r target : Bytes} (hu : Word u) (hw : Blank w) (hne : w ≠ [])
    (hr : Starts r) (hstarts : Starts (u ++ w ++ r)) :
    TargetOf (u ++ w ++ r) target ↔ target = u ∧ EqualFold r version := by
  constructor
  · rintro ⟨w', v, h, -, ht, hw', hne', hv⟩
    obtain ⟨rfl, rfl, rfl⟩ := split_unique h hu hw hne hr ht hw' hne' hv.starts_version
    exact ⟨rfl, hv⟩
  · rintro ⟨rfl, hv⟩
    refine ⟨w, r, rfl, ?_, hu, hw, hne, hv⟩
    rintro rfl
    -- the part starts with a blank, which it must not
    cases w with
    | nil => exact hne rfl
    | cons b w => exact hstarts b rfl (hw b List.mem_cons_self)

/-- A text has at most one target. -/
theorem TargetOf.unique {rest t t' : Bytes} (h : TargetOf rest t) (h' : TargetOf rest t') :
    t = t' := by
  obtain ⟨w, v, rfl, -, ht, hw, hne, hv⟩ := h
  obtain ⟨w', v', heq, -, ht', hw', hne', hv'⟩ := h'
  exact (split_unique heq ht hw hne hv.starts_version ht' hw' hne' hv'.starts_version).1

theorem StartsFold.length_le {s p : Bytes} (h : StartsFold s p) : p.length ≤ s.length := by
  have hlen := congrArg List.length h
  simp only [List.length_map, List.length_take] at hlen
  omega

/-- A text that starts with two texts when case is ignored: the texts start alike. -/
theorem StartsFold.head?_eq {s p : Bytes} (h : StartsFold s p) (hp : p ≠ []) :
    s.head?.map toLower = p.head?.map toLower := by
  unfold StartsFold EqualFold at h
  cases p with
  | nil => exact absurd rfl hp
  | cons x p =>
      cases s with
      | nil => cases h
      | cons y s =>
          simp only [List.length_cons, List.take_succ_cons, List.map_cons, List.cons.injEq] at h
          simp only [List.head?_cons, Option.map_some, h.1]

end RequestLine

end EasyWebServer
