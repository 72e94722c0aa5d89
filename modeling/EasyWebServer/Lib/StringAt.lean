import EasyWebServer.Lib.CharBuf
import EasyWebServer.Lib.RequestLine

/-!
# Strings that are edited in place

`StringAt buf i s` says that the pointer `buf + i` denotes the string `s`, with its
terminator inside the array.  A parser that cuts a line into words stores a NUL behind
a word and moves a pointer to the next one.  The lemmas say what the pointers denote
then: `left` is the word before the NUL, `right` what lies behind a moved pointer, and
`set_lt` is a store in front of the string.  `cut` joins them for a byte of the string that
is overwritten, `cutWord` and `cutBlanks` for the blank behind a word, and `behindScheme` and
`fromByte` are the moves over an absolute URL.
-/

namespace EasyWebServer

open CString RequestLine

namespace CharBuf

variable {cap : Nat}

/-- The pointer `buf + i` denotes `s`. -/
structure StringAt (buf : CharBuf cap) (i : Nat) (s : Bytes) : Prop where
  no_nul : NUL ∉ s
  fits : i + s.length < cap
  get_eq : ∀ k, k ≤ s.length → buf.get (i + k) = s.getD k NUL

namespace StringAt

variable {buf : CharBuf cap} {i : Nat} {s a b : Bytes}

theorem get_head (h : StringAt buf i s) : buf.get i = s.getD 0 NUL := h.get_eq 0 (Nat.zero_le _)

/-- A pointer that is moved over the first part of a string. -/
theorem right (h : StringAt buf i (a ++ b)) : StringAt buf (i + a.length) b := by
  have hfits := h.fits
  rw [List.length_append] at hfits
  refine ⟨fun hmem => h.no_nul (List.mem_append_right a hmem), by omega, fun k hk => ?_⟩
  rw [Nat.add_assoc, h.get_eq (a.length + k) (by rw [List.length_append]; omega),
    List.getD_append_right _ _ _ _ (by omega), Nat.add_sub_cancel_left]

/-- The string that is left when a NUL is stored into it. -/
theorem left (h : StringAt buf i (a ++ b)) : StringAt (buf.set (i + a.length) NUL) i a := by
  have hfits := h.fits
  rw [List.length_append] at hfits
  refine ⟨fun hmem => h.no_nul (List.mem_append_left b hmem), by omega, fun k hk => ?_⟩
  rcases Nat.eq_or_lt_of_le hk with rfl | hlt
  · rw [get_set_self _ _ (by omega), List.getD_eq_default _ _ (Nat.le_refl _)]
  · rw [get_set_ne _ _ (by omega), h.get_eq k (by rw [List.length_append]; omega),
      List.getD_append _ _ _ _ hlt]

theorem set_lt {j : Nat} (h : StringAt buf i s) (hj : j < i) (x : UInt8) :
    StringAt (buf.set j x) i s := by
  refine ⟨h.no_nul, h.fits, fun k hk => ?_⟩
  rw [get_set_ne _ _ (by omega), h.get_eq k hk]

/-- A NUL that is stored over a byte of the string cuts it there. -/
theorem cut {x : UInt8} (h : StringAt buf i (a ++ x :: b)) :
    StringAt (buf.set (i + a.length) NUL) i a ∧
      StringAt (buf.set (i + a.length) NUL) (i + a.length + 1) b := by
  have hsecond : StringAt buf (i + a.length) ([x] ++ b) := h.right
  exact ⟨h.left, hsecond.right.set_lt (by rw [List.length_singleton]; omega) NUL⟩

theorem cstr (h : StringAt buf i s) : cstr (buf.view i) = s := by
  induction s generalizing i with
  | nil =>
      apply cstr_view_nil
      rw [h.get_head]
      rfl
  | cons x s ih =>
      have hx : buf.get i = x := by
        rw [h.get_head]
        rfl
      have hne : x ≠ NUL := fun he => h.no_nul (by rw [he]; exact List.mem_cons_self)
      have htail : StringAt buf (i + 1) s := StringAt.right (a := [x]) h
      rw [cstr_view_cons buf (by rw [hx]; exact hne), hx, ih htail]

/-- What a pointer reads as. -/
theorem of_cstr (h : CString.cstr (buf.view i) = s) (hfits : i + s.length < cap) :
    StringAt buf i s := by
  refine ⟨h ▸ nul_notMem_cstr _, hfits, ?_⟩
  induction s generalizing i with
  | nil =>
      intro k hk
      obtain rfl : k = 0 := Nat.le_zero.mp hk
      by_contra hne
      have hcons := cstr_view_cons buf (i := i) hne
      rw [h] at hcons
      cases hcons
  | cons x s ih =>
      have hne : buf.get i ≠ NUL := by
        intro hnul
        rw [cstr_view_nil buf hnul] at h
        cases h
      rw [cstr_view_cons buf hne] at h
      obtain ⟨hx, hrest⟩ := List.cons.inj h
      rw [List.length_cons] at hfits
      intro k hk
      rcases k with _ | k
      · exact hx
      · rw [List.length_cons] at hk
        have hget := ih hrest (by omega) k (by omega)
        rw [show i + (k + 1) = i + 1 + k by omega, hget, List.getD_cons_succ]

theorem strlen (h : StringAt buf i s) : strlen (buf.view i) = s.length := by
  rw [CString.strlen, h.cstr]

/-- The pointer that is moved over a scheme. -/
theorem behindScheme {scheme : Bytes} (h : StringAt buf i s) (hstarts : StartsFold s scheme) :
    StringAt buf (i + scheme.length) (s.drop scheme.length) := by
  rw [← List.take_append_drop scheme.length s] at h
  have hright := h.right
  rwa [List.length_take, Nat.min_eq_left hstarts.length_le] at hright

/-- The pointer that `strchr` returns. -/
theorem fromByte {x : UInt8} (h : StringAt buf i s) (hx : x ∈ s) :
    ∃ k, strchr (buf.view i) x = some k ∧
      StringAt buf (i + k) (s.dropWhile (fun b => b != x)) ∧
      k + (s.dropWhile (fun b => b != x)).length = s.length := by
  have hsplit : s.takeWhile (fun b => b != x) ++ s.dropWhile (fun b => b != x) = s :=
    List.takeWhile_append_dropWhile
  refine ⟨_, strchr_mem h.cstr hx, ?_, ?_⟩
  · rw [← hsplit] at h
    exact h.right
  · rw [← List.length_append, hsplit]

/-- The first word of a string is cut off: the NUL stands over the first blank behind it. -/
theorem cutWord {m w r : Bytes} (h : StringAt buf i (m ++ w ++ r)) (hm : Word m) (hw : Blank w)
    (hne : w ≠ []) : strpbrk (buf.view i) blanks = some m.length ∧
      StringAt (buf.set (i + m.length) NUL) i m ∧
      ∃ w', Blank w' ∧ w'.length + 1 = w.length ∧
        StringAt (buf.set (i + m.length) NUL) (i + m.length + 1) (w' ++ r) := by
  have hpbrk : strpbrk (buf.view i) blanks = some m.length := strpbrk_split h.cstr hm hw hne
  obtain ⟨x, w', rfl⟩ := List.exists_cons_of_ne_nil hne
  rw [List.append_assoc] at h
  obtain ⟨hword, hrest⟩ := h.cut
  exact ⟨hpbrk, hword, w', fun y hy => hw y (List.mem_cons_of_mem x hy), rfl, hrest⟩

/-- The same behind leading blanks, with the pointer moved over the blanks on both sides. -/
theorem cutBlanks {w u w' v : Bytes} (h : StringAt buf i (w ++ (u ++ w' ++ v))) (hw : Blank w)
    (hstarts : Starts (u ++ w' ++ v)) (hu : Word u) (hw' : Blank w') (hne : w' ≠ [])
    (hv : Starts v) : strspn (buf.view i) blanks = w.length ∧
      strpbrk (buf.view (i + w.length)) blanks = some u.length ∧
      StringAt (buf.set (i + w.length + u.length) NUL) (i + w.length) u ∧
      ∃ n, strspn ((buf.set (i + w.length + u.length) NUL).view (i + w.length + u.length + 1))
          blanks = n ∧
        StringAt (buf.set (i + w.length + u.length) NUL) (i + w.length + u.length + 1 + n) v := by
  obtain ⟨hpbrk, hword, w₂, hblank, -, hrest⟩ := h.right.cutWord hu hw' hne
  exact ⟨strspn_blank h.cstr hw hstarts, hpbrk, hword, w₂.length,
    strspn_blank hrest.cstr hblank hv, hrest.right⟩

/-- `strcat` of a text that fits. -/
theorem strcat {t : Bytes} (h : StringAt buf i s) (ht : NUL ∉ t)
    (hfits : i + s.length + t.length < cap) :
    StringAt (buf.write (i + s.length) (t ++ [NUL])) i (s ++ t) := by
  refine ⟨?_, by rw [List.length_append]; omega, fun k hk => ?_⟩
  · rw [List.mem_append]
    exact fun hmem => hmem.elim h.no_nul ht
  · rw [List.length_append] at hk
    rcases Nat.lt_or_ge k s.length with hlt | hge
    · rw [get_write_lt _ _ (by omega), h.get_eq k hlt.le,
        List.getD_append _ _ _ _ hlt]
    · have hrun : i + k < i + s.length + (t ++ [NUL]).length := by
        rw [List.length_append, List.length_singleton]
        omega
      rw [get_write, if_pos ⟨by omega, hrun, by omega⟩, List.getD_append_right _ _ _ _ hge,
        show i + k - (i + s.length) = k - s.length by omega]
      exact getD_append_replicate t 1 _

end StringAt

end CharBuf

end EasyWebServer
