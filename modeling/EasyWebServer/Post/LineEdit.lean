import EasyWebServer.Post.ContentLength
import EasyWebServer.Post.Segmentation

/-!
# The request line is edited in place

`parse_request_line` cuts the line with NULs and may append `judge.html` to the URL, all of it in
`m_read_buf`.  `AgreeBehind` has shown that it stores nothing behind the line.  Here are the other
side of the frame, the bytes in front of the line, and where `m_url` is left.

`lineEdited_of_parseLine` puts them together for a line that `parse_line` has delivered.
-/

namespace EasyWebServer.Post

open CString HttpConn

/-! ## The property -/

/-- What `parse_request_line` leaves behind, when `c` is the connection with the line
`[m_start_line, m_checked_idx)` before it. -/
structure LineEdited (c c' : HttpConn) : Prop where
  /-- The bytes outside the line. -/
  outside : ∀ j, j < c.startLine ∨ c.checkedIdx ≤ j → c'.readBuf.get j = c.readBuf.get j
  /-- `m_url` and its terminator.  The append stores its last byte there. -/
  inside : ∀ url, c'.url = some url →
    c.startLine ≤ url ∧ url + strlen (c'.text url) < c.checkedIdx ∧
      c'.readBuf.get (url + strlen (c'.text url)) = NUL

/-! ## In front of the line -/

/-- Two connections whose buffers agree before index `i`. -/
def AgreeBefore (i : Nat) (c c' : HttpConn) : Prop :=
  ∀ j, j < i → c'.readBuf.get j = c.readBuf.get j

/-- Nothing before `i` changes, and the URL is between `i` and `e`. -/
structure EditsFrom (i e : Nat) (c c' : HttpConn) : Prop where
  before : AgreeBefore i c c'
  url : ∀ u, c'.url = some u → i ≤ u ∧ u ≤ e

variable {c : HttpConn} {i e : Nat}

theorem EditsFrom.of_store {c' : HttpConn} {k : Nat} {b : UInt8} (hik : i ≤ k)
    (h : EditsFrom i e (c.store k b) c') : EditsFrom i e c c' := by
  refine ⟨fun j hj => ?_, h.url⟩
  exact (h.before j hj).trans (CharBuf.get_set_ne _ _ (by omega))

/-- Skipping a scheme moves `m_url` forward. -/
theorem skipScheme_ge {scheme : Bytes} {url u : Nat}
    (h : skipScheme c scheme (some url) = .ok (some u)) : url ≤ u := by
  unfold skipScheme at h
  simp only at h
  split at h
  · obtain ⟨k, -, rfl⟩ := Option.map_eq_some_iff.mp (Except.ok.inj h)
    omega
  · cases h
    exact Nat.le_refl _

theorem finishPath_edits (hurl : ∀ u, c.url = some u → i ≤ u ∧ u ≤ e) :
    EditsFrom i e c (finishPath c).2 := by
  unfold finishPath
  split
  · exact ⟨fun _ _ => rfl, hurl⟩
  · rename_i u hu
    have hiu := (hurl u hu).1
    split
    · exact ⟨fun _ _ => rfl, hurl⟩
    · split
      · exact ⟨fun j hj => CharBuf.get_write_lt _ _ (by omega), hurl⟩
      · exact ⟨fun _ _ => rfl, hurl⟩

theorem parsePath_edits {url p : Nat} (hi : i ≤ url) (hup : url ≤ p) (hpe : p ≤ e)
    (hp : p < READ_BUFFER_SIZE) (hnul : c.readBuf.get p = NUL) {code : HttpCode} {c' : HttpConn}
    (h : parsePath c url = .ok (code, c')) : EditsFrom i e c c' := by
  unfold parsePath at h
  split at h
  · cases h
  · rename_i url₁ h₁
    split at h
    · cases h
    · rename_i url₂ h₂
      have hfinish := finishPath_edits (c := { c with url := url₂ }) (i := i) (e := e) (by
        intro u hu
        have hu : url₂ = some u := hu
        subst hu
        cases url₁ with
        | none => cases h₂
        | some u₁ =>
            have hge := Nat.le_trans (skipScheme_ge h₁) (skipScheme_ge h₂)
            have hle := skipScheme_le (skipScheme_le hup hp hnul h₁) hp hnul h₂
            omega)
      rw [Except.ok.inj h] at hfinish
      exact ⟨hfinish.before, hfinish.url⟩

theorem parseVersion_edits (t : Terminated c e) {url : Nat} (hi : i ≤ url) (hu : url ≤ e)
    {code : HttpCode} {c' : HttpConn} (h : parseVersion c url = .ok (code, c')) :
    EditsFrom i e c c' := by
  have hlt := t.lt
  have hle := t.le
  unfold parseVersion at h
  simp only at h
  have hspan := strspn_le (c.text url) blanks
  have hend := t.add_strlen_le hu
  generalize hurl : url + strspn (c.text url) blanks = url' at h
  cases hk : strpbrk (c.text url') blanks with
  | none =>
      rw [hk] at h
      cases h
      refine ⟨fun _ _ => rfl, ?_⟩
      intro u hu'
      cases hu'
      omega
  | some k =>
      rw [hk] at h
      simp only at h
      have hkl := strpbrk_lt hk
      have hend' := t.add_strlen_le (show url' ≤ e by omega)
      have hnul : (c.store (url' + k) NUL).readBuf.get (url' + k) = NUL :=
        CharBuf.get_set_self _ _ (by omega)
      apply EditsFrom.of_store (k := url' + k) (b := NUL) (by omega)
      split at h
      · have hpath := parsePath_edits (i := i) (e := e) (p := url' + k) (by omega) (by omega)
          (by omega) (by omega) (by exact hnul) h
        exact ⟨hpath.before, hpath.url⟩
      · cases h
        refine ⟨fun _ _ => rfl, ?_⟩
        intro u hu'
        cases hu'
        omega

/-- `parse_request_line` stores nothing in front of the line it is given, and leaves `m_url` in
the line. -/
theorem parseRequestLine_edits (t : Terminated c e) {text : Nat} (hi : text ≤ e)
    {code : HttpCode} {c' : HttpConn} (h : parseRequestLine c text = .ok (code, c')) :
    EditsFrom text e c c' := by
  unfold parseRequestLine at h
  cases hk : strpbrk (c.text text) blanks with
  | none =>
      rw [hk] at h
      cases h
      exact ⟨fun _ _ => rfl, fun u hu => by cases hu⟩
  | some k =>
      rw [hk] at h
      simp only at h
      have hkl := strpbrk_lt hk
      have hend := t.add_strlen_le hi
      have ts := t.store (text + k)
      simp only [HttpConn.text] at hkl hend
      apply EditsFrom.of_store (k := text + k) (b := NUL) (by omega)
      generalize c.store (text + k) NUL = c₁ at ts h ⊢
      have hcut : ∀ {m : Method} {g : Nat}, parseVersion
          { c₁ with url := some (text + k + 1), method := m, cgi := g } (text + k + 1) =
            .ok (code, c') → EditsFrom text e c₁ c' := by
        intro m g hv
        have hversion := parseVersion_edits (i := text) (e := e)
          (by exact ⟨ts.nul, ts.nul_succ, ts.lt, ts.le⟩) (by omega) (by omega) hv
        exact ⟨hversion.before, hversion.url⟩
      split at h
      · exact hcut h
      · split at h
        · exact hcut h
        · cases h
          refine ⟨fun _ _ => rfl, ?_⟩
          intro u hu
          cases hu
          omega

/-! ## The line that parse_line delivers -/

/-- The line ends with two NULs, in whichever of its two branches `parse_line` has found the
end. -/
theorem parseLine_terminated {c c' : HttpConn} (h : InBuffer c)
    (hline : parseLine c = (.lineOk, c')) :
    ∃ e, Terminated c' e ∧ c'.checkedIdx = e + 2 ∧ c'.startLine ≤ e + 1 := by
  obtain ⟨i, hge, hle, -, hscan⟩ := parseLine_scan h.checked
  have hstart := h.start
  rw [hline] at hscan
  cases hscan with
  | crlf hi _ _ =>
      refine ⟨i, terminated_of_crlf hi h.read, rfl, ?_⟩
      show c.startLine ≤ i + 1
      omega
  | lfAfterCr hi _ hcr =>
      obtain ⟨k, rfl⟩ := Nat.exists_eq_add_of_lt hcr.1
      have hterm := terminated_of_crlf (c := c) (i := 1 + k) hi h.read
      refine ⟨1 + k, ⟨hterm.nul, hterm.nul_succ, hterm.lt, hterm.le⟩, rfl, ?_⟩
      show c.startLine ≤ 1 + k + 1
      omega

/-- A line that starts with the second NUL is empty. -/
theorem parseRequestLine_nul {c : HttpConn} {text : Nat} (h : c.readBuf.get text = NUL) :
    parseRequestLine c text = .ok (.badRequest, { c with url := none }) := by
  have hempty : cstr (c.text text) = [] := CharBuf.cstr_view_nil _ h
  have hnone : strpbrk (c.text text) blanks = none := by
    rw [strpbrk, hempty]
    rfl
  rw [parseRequestLine, hnone]

/-- A line that `parse_line` has delivered is edited inside its bounds, whatever its bytes are,
and `m_url`, if it is not null, is a string inside them. -/
theorem lineEdited_of_parseLine {c₀ c c' : HttpConn} {code : HttpCode} (h : InBuffer c₀)
    (hline : parseLine c₀ = (.lineOk, c))
    (hparse : parseRequestLine { c with startLine := c.checkedIdx } c.getLine = .ok (code, c')) :
    LineEdited c c' := by
  obtain ⟨e, t, hchecked, hstart⟩ := parseLine_terminated h hline
  have ht : Terminated { c with startLine := c.checkedIdx } e :=
    ⟨t.nul, t.nul_succ, t.lt, t.le⟩
  rcases Nat.lt_or_ge e c.startLine with hlt | hle
  · -- the line starts behind the CR
    have hnul : c.readBuf.get c.startLine = NUL := by
      rw [show c.startLine = e + 1 by omega]
      exact t.nul_succ
    have hnone := parseRequestLine_nul (c := { c with startLine := c.checkedIdx }) hnul
    have hsame := hparse.symm.trans hnone
    cases hsame
    exact ⟨fun _ _ => rfl, fun url hurl => by cases hurl⟩
  · have hedits := parseRequestLine_edits ht hle hparse
    have hbehind := agreeBehind_parseRequestLine ht hle hparse
    have hlast : c'.readBuf.get (e + 1) = NUL := (hbehind (e + 1) (by omega)).trans t.nul_succ
    have hend := t.lt
    have hread := t.le
    refine ⟨?_, ?_⟩
    · rintro j (hj | hj)
      · exact hedits.before j hj
      · exact hbehind j (by omega)
    · intro url hurl
      obtain ⟨hge, hle⟩ := hedits.url url hurl
      have hlen := CharBuf.add_strlen_le c'.readBuf (i := url) (j := e + 1) (by omega) (by omega)
        hlast
      simp only [HttpConn.text]
      refine ⟨hge, by omega, ?_⟩
      rw [CharBuf.get_cstr _ (Nat.le_refl _), strlen, List.getD_eq_default _ _ (Nat.le_refl _)]

/-- A request line for `/`, with a header behind it. -/
def judgeLine : HttpConn := HttpConn.blank.init.recv (ascii "GET / HTTP/1.1\r\nHost: a\r\n")

/-- The append fills the line to its last byte. -/
theorem lineEdited_judge : ∃ c', parseRequestLine
      { (parseLine judgeLine).2 with startLine := 16 } 0 = .ok (.noRequest, c') ∧
    LineEdited (parseLine judgeLine).2 c' := by
  have hbuffer : InBuffer judgeLine := ⟨by decide, by decide, by decide, by decide, by decide⟩
  exact ⟨_, rfl, lineEdited_of_parseLine hbuffer rfl rfl⟩

end EasyWebServer.Post
