import EasyWebServer.Post.Request

/-!
# The header parser does not depend on the segmentation

A request reaches `m_read_buf` in chunks, and `process_read` runs after each of
them.  This module proves that, up to the request body, the cuts do not matter:
when the calls before the last one return `NO_REQUEST`, the last call ends in
the state and with the code of one call on the whole text.

The proof has four layers.

* `Terminated` is what `parse_line` leaves behind a line: two NULs.  A string
  function that starts inside the line reads the same bytes before and after a
  further `recv`.
* The `_recv` lemmas lift this to the parsers: parsing a line and then
  receiving bytes is receiving the bytes and then parsing the line.  The
  delicate store is the `strcat` of `judge.html`, and `judge_room` shows that
  it stays inside the line.
* `Scanned` is the invariant of the scanner.  Its last part says that the byte
  before `m_checked_idx` is not a CR, so a cut between CR and LF is seen by the
  CR branch of `parse_line` and not by the LF branch.
* `readFrom_resume` is the induction over the loop of `process_read`.
-/

namespace EasyWebServer.Post

open CString CInt HttpConn Common

/-! ## Receiving more bytes -/

theorem get_recv (c : HttpConn) (d : Bytes) {j : Nat} (h : j < c.readIdx) :
    (c.recv d).readBuf.get j = c.readBuf.get j :=
  CharBuf.get_write_lt c.readBuf d h

theorem recv_store (c : HttpConn) (d : Bytes) {i : Nat} (b : UInt8)
    (h : i < c.readIdx) : (c.recv d).store i b = (c.store i b).recv d := by
  simp only [HttpConn.recv, store, CharBuf.set_write_comm c.readBuf b d h]

/-- The connection of a parser's result, with the bytes `d` behind it. -/
def recvResult (d : Bytes) (r : HttpCode × HttpConn) : HttpCode × HttpConn :=
  (r.1, r.2.recv d)

/-! ## A line that parse_line has delivered -/

/-- `e` and `e + 1` are the indices of the two NULs that replaced a CR LF. -/
structure Terminated (c : HttpConn) (e : Nat) : Prop where
  nul : c.readBuf.get e = NUL
  nul_succ : c.readBuf.get (e + 1) = NUL
  lt : e + 1 < c.readIdx
  le : c.readIdx ≤ READ_BUFFER_SIZE

namespace Terminated

variable {c : HttpConn} {e : Nat}

theorem store (t : Terminated c e) (i : Nat) :
    Terminated (c.store i NUL) e := by
  refine ⟨?_, ?_, t.lt, t.le⟩
  · simp only [HttpConn.store, CharBuf.get_set, t.nul, ite_self]
  · simp only [HttpConn.store, CharBuf.get_set, t.nul_succ, ite_self]

/-- A string that starts in the line ends in the line. -/
theorem add_strlen_le (t : Terminated c e) {i : Nat} (hi : i ≤ e) :
    i + strlen (c.text i) ≤ e :=
  CharBuf.add_strlen_le c.readBuf hi
    (Nat.lt_of_lt_of_le (Nat.lt_of_succ_lt t.lt) t.le) t.nul

/-- A string that starts in the line is not changed by bytes received later. -/
theorem cstr_recv (t : Terminated c e) {i : Nat} (hi : i ≤ e) (d : Bytes) :
    cstr ((c.recv d).text i) = cstr (c.text i) := by
  have hlt := Nat.lt_of_succ_lt t.lt
  refine (CharBuf.cstr_view_congr hi (Nat.lt_of_lt_of_le hlt t.le) t.nul ?_).symm
  intro k _ hk
  exact (get_recv c d (by omega)).symm

end Terminated

/-! ## The request line -/

variable {c : HttpConn} {e : Nat}

/-- Skipping a scheme moves `m_url` inside the string it is in. -/
theorem skipScheme_le {scheme : Bytes} {url u p : Nat} (hup : url ≤ p)
    (hp : p < READ_BUFFER_SIZE) (hnul : c.readBuf.get p = NUL)
    (h : skipScheme c scheme (some url) = .ok (some u)) : u ≤ p := by
  have hlen := CharBuf.add_strlen_le c.readBuf hup hp hnul
  unfold skipScheme at h
  simp only at h
  split at h
  · rename_i hs
    have hle := strncasecmp_length hs
    have hup' : url + scheme.length ≤ p := by
      simp only [HttpConn.text] at hle
      omega
    have hlen' := CharBuf.add_strlen_le c.readBuf hup' hp hnul
    obtain ⟨k, hk, rfl⟩ := Option.map_eq_some_iff.mp (Except.ok.inj h)
    have := strchr_lt hk
    simp only [HttpConn.text] at this
    omega
  · cases h
    exact hup

theorem skipScheme_recv (t : Terminated c e) (scheme : Bytes) (url : Option Nat)
    (hu : ∀ u, url = some u → u ≤ e) (d : Bytes) :
    skipScheme (c.recv d) scheme url = skipScheme c scheme url := by
  cases url with
  | none => rfl
  | some u =>
      have hue := hu u rfl
      have hs : strncasecmp ((c.recv d).text u) scheme =
          strncasecmp (c.text u) scheme := by
        simp only [strncasecmp, t.cstr_recv hue d]
      simp only [skipScheme, hs]
      split
      · rename_i hmatch
        have h1 := strncasecmp_length hmatch
        have h2 := t.add_strlen_le hue
        have hc : strchr ((c.recv d).text (u + scheme.length)) slash =
            strchr (c.text (u + scheme.length)) slash := by
          simp only [strchr, t.cstr_recv (show u + scheme.length ≤ e by omega) d]
        rw [hc]
      · rfl

/-- The room for `judge.html` behind a bare `/`: `p` is the NUL between the URL
and the version, and the eight bytes of the version follow it. -/
theorem judge_room {url p : Nat} (hpe : p + 9 ≤ e) (hup : url ≤ p)
    (hp : p < READ_BUFFER_SIZE) (hnul : c.readBuf.get p = NUL)
    (h1 : strlen (c.text url) = 1) :
    url + strlen (c.text url) + (ascii "judge.html").length ≤ e + 1 := by
  have hlen := CharBuf.add_strlen_le c.readBuf hup hp hnul
  have hj : (ascii "judge.html").length = 10 := by decide
  simp only [HttpConn.text] at h1 ⊢
  omega

theorem appendJudge_recv (t : Terminated c e) {url : Nat} (hu : url ≤ e)
    (hroom : url + strlen (c.text url) + (ascii "judge.html").length ≤ e + 1)
    (d : Bytes) : appendJudge (c.recv d) url = (appendJudge c url).recv d := by
  have hs : strlen ((c.recv d).text url) = strlen (c.text url) := by
    simp only [strlen, t.cstr_recv hu d]
  have hlt := t.lt
  have hcomm := CharBuf.write_write_comm c.readBuf
    (ascii "judge.html" ++ [NUL]) d (i := url + strlen (c.text url))
    (r := c.readIdx)
    (by rw [List.length_append, List.length_singleton]; omega)
  unfold appendJudge
  rw [hs]
  simp only [HttpConn.recv, hcomm]

theorem finishPath_recv (t : Terminated c e) {p : Nat} (hpe : p + 9 ≤ e)
    (hu : ∀ u, c.url = some u → u ≤ p) (hnul : c.readBuf.get p = NUL)
    (d : Bytes) : finishPath (c.recv d) = recvResult d (finishPath c) := by
  have hle := t.le
  have hlt := t.lt
  unfold finishPath
  simp only [show (c.recv d).url = c.url from rfl]
  cases hurl : c.url with
  | none => rfl
  | some u =>
      have hup := hu u hurl
      have hs : strlen ((c.recv d).text u) = strlen (c.text u) := by
        simp only [strlen, t.cstr_recv (show u ≤ e by omega) d]
      simp only [get_recv c d (show u < c.readIdx by omega), hs]
      split
      · rfl
      · split
        · rename_i h1
          have hroom := judge_room hpe hup (by omega) hnul h1
          rw [appendJudge_recv t (by omega) hroom d]
          rfl
        · rfl

theorem parsePath_recv (t : Terminated c e) (url : Nat) {p : Nat}
    (hpe : p + 9 ≤ e)
    (hup : url ≤ p) (hnul : c.readBuf.get p = NUL) (d : Bytes) :
    parsePath (c.recv d) url = (parsePath c url).map (recvResult d) := by
  have hle := t.le
  have hlt := t.lt
  have hp : p < READ_BUFFER_SIZE := by omega
  unfold parsePath
  rw [skipScheme_recv t _ _ (fun u hu => by cases hu; omega) d]
  cases h1 : skipScheme c (ascii "http://") (some url) with
  | error f => rfl
  | ok url1 =>
      have hu1 : ∀ u, url1 = some u → u ≤ p := by
        rintro u rfl
        exact skipScheme_le hup hp hnul h1
      simp only
      rw [skipScheme_recv t _ url1 (fun u hu => by have := hu1 u hu; omega) d]
      cases h2 : skipScheme c (ascii "https://") url1 with
      | error f => rfl
      | ok url2 =>
          have hu2 : ∀ u, url2 = some u → u ≤ p := by
            rintro u rfl
            cases url1 with
            | none => cases h2
            | some u1 => exact skipScheme_le (hu1 u1 rfl) hp hnul h2
          have ht : Terminated { c with url := url2 } e :=
            ⟨t.nul, t.nul_succ, t.lt, t.le⟩
          have hf := finishPath_recv ht hpe hu2 hnul d
          exact congrArg Except.ok hf

theorem parseVersion_recv (t : Terminated c e) (url : Nat) (hu : url ≤ e)
    (d : Bytes) :
    parseVersion (c.recv d) url = (parseVersion c url).map (recvResult d) := by
  have hle := t.le
  have hlt := t.lt
  have hspan : strspn ((c.recv d).text url) blanks = strspn (c.text url) blanks := by
    simp only [strspn, t.cstr_recv hu d]
  unfold parseVersion
  simp only [hspan]
  generalize hurl : url + strspn (c.text url) blanks = url'
  have hu' : url' ≤ e := by
    have h1 := strspn_le (c.text url) blanks
    have h2 := t.add_strlen_le hu
    omega
  have hbrk : strpbrk ((c.recv d).text url') blanks = strpbrk (c.text url') blanks := by
    simp only [strpbrk, t.cstr_recv hu' d]
  rw [hbrk]
  cases hk : strpbrk (c.text url') blanks with
  | none => rfl
  | some k =>
      have hkl := strpbrk_lt hk
      have hul := t.add_strlen_le hu'
      have hke : url' + k + 1 ≤ e := by omega
      have ts := t.store (url' + k)
      simp only [recv_store c d NUL (show url' + k < c.readIdx by omega)]
      generalize hc : c.store (url' + k) NUL = c₁ at ts ⊢
      have hnul : c₁.readBuf.get (url' + k) = NUL := by
        rw [← hc]
        exact CharBuf.get_set_self _ _ (by omega)
      have hspan' : strspn ((c₁.recv d).text (url' + k + 1)) blanks =
          strspn (c₁.text (url' + k + 1)) blanks := by
        simp only [strspn, ts.cstr_recv hke d]
      rw [hspan']
      generalize hv : url' + k + 1 + strspn (c₁.text (url' + k + 1)) blanks = v
      have hve : v ≤ e := by
        have h1 := strspn_le (c₁.text (url' + k + 1)) blanks
        have h2 := ts.add_strlen_le hke
        omega
      have hcase : strcasecmp ((c₁.recv d).text v) (ascii "HTTP/1.1") =
          strcasecmp (c₁.text v) (ascii "HTTP/1.1") := by
        simp only [strcasecmp, ts.cstr_recv hve d]
      have hread : ({ c₁.recv d with url := some url', version := some v } :
          HttpConn).text v = (c₁.recv d).text v := rfl
      have hread' : ({ c₁ with url := some url', version := some v } :
          HttpConn).text v = c₁.text v := rfl
      have hidx : c₁.readIdx = c.readIdx := by rw [← hc]; rfl
      rw [hread, hread', hcase]
      split
      · rename_i hmatch
        have hvlen := strcasecmp_length hmatch
        have h8 : (ascii "HTTP/1.1").length = 8 := by decide
        have h3 := ts.add_strlen_le hve
        have ht : Terminated { c₁ with url := some url', version := some v } e :=
          ⟨ts.nul, ts.nul_succ, ts.lt, ts.le⟩
        have hpath := parsePath_recv ht url' (p := url' + k)
          (by omega) (by omega) hnul d
        exact hpath
      · rfl

theorem parseRequestLine_recv (t : Terminated c e) {text : Nat} (hi : text ≤ e)
    (d : Bytes) : parseRequestLine (c.recv d) text =
      (parseRequestLine c text).map (recvResult d) := by
  have hle := t.le
  have hlt := t.lt
  have hbrk : strpbrk ((c.recv d).text text) blanks = strpbrk (c.text text) blanks := by
    simp only [strpbrk, t.cstr_recv hi d]
  unfold parseRequestLine
  rw [hbrk]
  cases hk : strpbrk (c.text text) blanks with
  | none => rfl
  | some k =>
      have hkl := strpbrk_lt hk
      have hul := t.add_strlen_le hi
      have ts := t.store (text + k)
      simp only [recv_store c d NUL (show text + k < c.readIdx by omega)]
      generalize c.store (text + k) NUL = c₁ at ts ⊢
      have hread : ∀ s, strcasecmp (({ c₁.recv d with url := some (text + k + 1) } :
          HttpConn).text text) s =
          strcasecmp (({ c₁ with url := some (text + k + 1) } : HttpConn).text text) s := by
        intro s
        have hc := ts.cstr_recv hi d
        simp only [HttpConn.text] at hc
        simp only [strcasecmp, HttpConn.text, hc]
      rw [hread, hread]
      split
      · have ht : Terminated { c₁ with url := some (text + k + 1), method := .get } e :=
          ⟨ts.nul, ts.nul_succ, ts.lt, ts.le⟩
        have hv := parseVersion_recv ht (text + k + 1) (by omega) d
        exact hv
      · split
        · have ht : Terminated { c₁ with
              url := some (text + k + 1), method := .post, cgi := 1 } e :=
            ⟨ts.nul, ts.nul_succ, ts.lt, ts.le⟩
          have hv := parseVersion_recv ht (text + k + 1) (by omega) d
          exact hv
        · rfl

/-! ## The bytes behind the line -/

/-- Two connections whose buffers agree behind index `e`. -/
def AgreeBehind (e : Nat) (c c' : HttpConn) : Prop :=
  ∀ j, e < j → c'.readBuf.get j = c.readBuf.get j

theorem agreeBehind_store {i : Nat} (hi : i ≤ e) (b : UInt8) :
    AgreeBehind e c (c.store i b) := by
  intro j hj
  exact CharBuf.get_set_ne _ _ (by omega)

/-- The terminator of `judge.html` may fall on the second NUL of the line, and
no store goes behind it. -/
theorem agreeBehind_appendJudge (t : Terminated c e) (url : Nat)
    (hroom : url + strlen (c.text url) + (ascii "judge.html").length ≤ e + 1) :
    AgreeBehind e c (appendJudge c url) := by
  intro j hj
  simp only [appendJudge, CharBuf.get_write, List.length_append,
    List.length_singleton]
  split
  · rename_i h
    have hj' : j = e + 1 := by omega
    have hlast : j - (url + strlen (c.text url)) = (ascii "judge.html").length := by
      omega
    rw [hlast, hj', t.nul_succ]
    decide
  · rfl

theorem agreeBehind_parsePath (t : Terminated c e) (url : Nat) {p : Nat}
    (hpe : p + 9 ≤ e) (hup : url ≤ p) (hnul : c.readBuf.get p = NUL)
    {code : HttpCode} {c' : HttpConn} (h : parsePath c url = .ok (code, c')) :
    AgreeBehind e c c' := by
  have hle := t.le
  have hlt := t.lt
  have hp : p < READ_BUFFER_SIZE := by omega
  unfold parsePath at h
  cases h1 : skipScheme c (ascii "http://") (some url) with
  | error f => simp [h1] at h
  | ok url1 =>
      rw [h1] at h
      simp only at h
      cases h2 : skipScheme c (ascii "https://") url1 with
      | error f => simp [h2] at h
      | ok url2 =>
          rw [h2] at h
          have hf := Except.ok.inj h
          unfold finishPath at hf
          simp only at hf
          cases url2 with
          | none =>
            cases hf
            exact fun j _ => rfl
          | some u =>
            have hup2 : u ≤ p := by
              cases url1 with
              | none => cases h2
              | some u1 =>
                exact skipScheme_le (skipScheme_le hup hp hnul h1) hp hnul h2
            simp only at hf
            split at hf
            · cases hf
              exact fun j _ => rfl
            · split at hf
              · rename_i hone
                cases hf
                have ht : Terminated { c with url := some u } e :=
                  ⟨t.nul, t.nul_succ, t.lt, t.le⟩
                have ha := agreeBehind_appendJudge ht u
                  (judge_room hpe hup2 hp hnul hone)
                exact ha
              · cases hf
                exact fun j _ => rfl

theorem agreeBehind_parseVersion (t : Terminated c e) {url : Nat} (hu : url ≤ e)
    {code : HttpCode} {c' : HttpConn}
    (h : parseVersion c url = .ok (code, c')) : AgreeBehind e c c' := by
  have hle := t.le
  have hlt := t.lt
  unfold parseVersion at h
  simp only at h
  generalize hurl : url + strspn (c.text url) blanks = url' at h
  have hu' : url' ≤ e := by
    have h1 := strspn_le (c.text url) blanks
    have h2 := t.add_strlen_le hu
    omega
  cases hk : strpbrk (c.text url') blanks with
  | none =>
      rw [hk] at h
      cases h
      exact fun j _ => rfl
  | some k =>
      rw [hk] at h
      simp only at h
      have hkl := strpbrk_lt hk
      have hul := t.add_strlen_le hu'
      have hke : url' + k + 1 ≤ e := by omega
      have ts := t.store (url' + k)
      have hst := agreeBehind_store (c := c) (show url' + k ≤ e by omega) NUL
      generalize hc : c.store (url' + k) NUL = c₁ at ts hst h
      have hnul : c₁.readBuf.get (url' + k) = NUL := by
        rw [← hc]
        exact CharBuf.get_set_self _ _ (by omega)
      generalize hv : url' + k + 1 + strspn (c₁.text (url' + k + 1)) blanks = v at h
      have hve : v ≤ e := by
        have h1 := strspn_le (c₁.text (url' + k + 1)) blanks
        have h2 := ts.add_strlen_le hke
        omega
      split at h
      · rename_i hmatch
        have hvlen := strcasecmp_length hmatch
        have h8 : (ascii "HTTP/1.1").length = 8 := by decide
        have h3 : v + strlen (c₁.text v) ≤ e := ts.add_strlen_le hve
        have ht : Terminated { c₁ with url := some url', version := some v } e :=
          ⟨ts.nul, ts.nul_succ, ts.lt, ts.le⟩
        simp only [HttpConn.text] at hvlen h3
        have hpath := agreeBehind_parsePath ht url' (p := url' + k)
          (by omega) (by omega) hnul h
        exact fun j hj => (hpath j hj).trans (hst j hj)
      · cases h
        exact hst

/-- `parse_request_line` stores nothing behind the line it is given. -/
theorem agreeBehind_parseRequestLine (t : Terminated c e) {text : Nat}
    (hi : text ≤ e) {code : HttpCode} {c' : HttpConn}
    (h : parseRequestLine c text = .ok (code, c')) : AgreeBehind e c c' := by
  unfold parseRequestLine at h
  cases hk : strpbrk (c.text text) blanks with
  | none =>
      rw [hk] at h
      cases h
      exact fun j _ => rfl
  | some k =>
      rw [hk] at h
      simp only at h
      have hkl := strpbrk_lt hk
      have hul := t.add_strlen_le hi
      have ts := t.store (text + k)
      have hst := agreeBehind_store (c := c) (show text + k ≤ e by omega) NUL
      generalize c.store (text + k) NUL = c₁ at ts hst h
      split at h
      · have ht : Terminated { c₁ with url := some (text + k + 1), method := .get } e :=
          ⟨ts.nul, ts.nul_succ, ts.lt, ts.le⟩
        have hv := agreeBehind_parseVersion ht (by omega) h
        exact fun j hj => (hv j hj).trans (hst j hj)
      · split at h
        · have ht : Terminated { c₁ with
              url := some (text + k + 1), method := .post, cgi := 1 } e :=
            ⟨ts.nul, ts.nul_succ, ts.lt, ts.le⟩
          have hv := agreeBehind_parseVersion ht (by omega) h
          exact fun j hj => (hv j hj).trans (hst j hj)
        · cases h
          exact hst

/-! ## The header lines -/

theorem skipName_le (t : Terminated c e) {text n : Nat} (hi : text ≤ e)
    (hn : n ≤ strlen (c.text text)) : skipName c text n ≤ e := by
  have h1 := t.add_strlen_le hi
  have h2 := t.add_strlen_le (show text + n ≤ e by omega)
  have h3 := strspn_le (c.text (text + n)) blanks
  unfold skipName
  omega

theorem skipName_recv (t : Terminated c e) {text n : Nat} (hi : text ≤ e)
    (hn : n ≤ strlen (c.text text)) (d : Bytes) :
    skipName (c.recv d) text n = skipName c text n := by
  have h1 := t.add_strlen_le hi
  simp only [skipName, strspn, t.cstr_recv (show text + n ≤ e by omega) d]

theorem parseHeaders_recv (t : Terminated c e) {text : Nat} (hi : text ≤ e)
    (d : Bytes) :
    parseHeaders (c.recv d) text = recvResult d (parseHeaders c text) := by
  have hlt := t.lt
  have hname : ∀ s, strncasecmp ((c.recv d).text text) s =
      strncasecmp (c.text text) s := by
    intro s
    simp only [strncasecmp, t.cstr_recv hi d]
  unfold parseHeaders
  rw [get_recv c d (show text < c.readIdx by omega), hname, hname, hname]
  split
  · simp only [show (c.recv d).contentLength = c.contentLength from rfl]
    split <;> rfl
  · split
    · rename_i hm
      have hn : 11 ≤ strlen (c.text text) := strncasecmp_length hm
      have hskip := skipName_le t hi hn
      simp only [skipName_recv t hi hn d]
      have hc : strcasecmp ((c.recv d).text (skipName c text 11)) (ascii "keep-alive") =
          strcasecmp (c.text (skipName c text 11)) (ascii "keep-alive") := by
        simp only [strcasecmp, t.cstr_recv hskip d]
      rw [hc]
      split <;> rfl
    · split
      · rename_i hm
        have hn : 15 ≤ strlen (c.text text) := strncasecmp_length hm
        have hskip := skipName_le t hi hn
        simp only [skipName_recv t hi hn d]
        have hc : atoi ((c.recv d).text (skipName c text 15)) =
            atoi (c.text (skipName c text 15)) := by
          simp only [atoi, decimalPrefix, t.cstr_recv hskip d]
        rw [hc]
        rfl
      · split
        · rename_i hm
          have hn : 5 ≤ strlen (c.text text) := strncasecmp_length hm
          simp only [skipName_recv t hi hn d]
          rfl
        · rfl

/-! ## One iteration of process_read -/

/-- The bytes `d` behind the result of an iteration. -/
def recvExit (d : Bytes) : ReadExit → ReadExit
  | .returned code c => .returned code (c.recv d)
  | .request c => .request (c.recv d)

/-- The bytes `d` behind an iteration. -/
def recvStep (d : Bytes) : ReadState ⊕ Except Fault ReadExit →
    ReadState ⊕ Except Fault ReadExit
  | .inl s => .inl ⟨s.lineStatus, s.conn.recv d⟩
  | .inr (.error f) => .inr (.error f)
  | .inr (.ok e) => .inr (.ok (recvExit d e))

/-- Before the body, dispatching a line commutes with receiving bytes. -/
theorem dispatchLine_recv (t : Terminated c e) (hi : c.startLine ≤ e)
    (hstate : c.checkState ≠ .content) (st : LineStatus) (d : Bytes) :
    dispatchLine ⟨st, c.recv d⟩ = recvStep d (dispatchLine ⟨st, c⟩) := by
  have ht : Terminated { c with startLine := c.checkedIdx } e :=
    ⟨t.nul, t.nul_succ, t.lt, t.le⟩
  have hline : { c.recv d with startLine := (c.recv d).checkedIdx } =
      ({ c with startLine := c.checkedIdx } : HttpConn).recv d := rfl
  cases hs : c.checkState with
  | content => exact absurd hs hstate
  | requestLine =>
      rw [dispatchLine_requestLine (s := ⟨st, c.recv d⟩) hs, dispatchLine_requestLine hs]
      dsimp only
      rw [hline, show (c.recv d).getLine = c.getLine from rfl,
        parseRequestLine_recv ht (show c.getLine ≤ e from hi) d]
      generalize parseRequestLine _ c.getLine = r
      rcases r with f | ⟨code, c₁⟩
      · rfl
      · cases code <;> rfl
  | header =>
      rw [dispatchLine_header (s := ⟨st, c.recv d⟩) hs, dispatchLine_header hs]
      dsimp only
      rw [hline, show (c.recv d).getLine = c.getLine from rfl,
        parseHeaders_recv ht (show c.getLine ≤ e from hi) d]
      generalize parseHeaders _ c.getLine = r
      obtain ⟨code, c₁⟩ := r
      cases code <;> rfl

/-! ## The scanner invariant -/

/-- The indices are in order, and the byte before `m_checked_idx` is not a
CR. -/
structure Scanned (c : HttpConn) : Prop where
  start_le : c.startLine ≤ c.checkedIdx
  checked_le : c.checkedIdx ≤ c.readIdx
  read_le : c.readIdx ≤ READ_BUFFER_SIZE
  no_cr : c.checkedIdx = 0 ∨ c.readBuf.get (c.checkedIdx - 1) ≠ CR

theorem scanned_init (c : HttpConn) : Scanned c.init :=
  ⟨Nat.le_refl _, Nat.le_refl _, Nat.zero_le _, Or.inl rfl⟩

theorem Scanned.recv (h : Scanned c) {d : Bytes}
    (hd : c.readIdx + d.length ≤ READ_BUFFER_SIZE) : Scanned (c.recv d) := by
  have hle := h.checked_le
  refine ⟨h.start_le, Nat.le_trans hle (Nat.le_add_right _ _), hd, ?_⟩
  rcases Nat.eq_zero_or_pos c.checkedIdx with h0 | h0
  · exact Or.inl h0
  · right
    have hget := get_recv c d (show c.checkedIdx - 1 < c.readIdx by omega)
    rcases h.no_cr with hz | hcr
    · omega
    · simpa only [HttpConn.recv] using hget ▸ hcr

/-- Moving `m_checked_idx` over plain bytes keeps the invariant. -/
theorem Scanned.skip (h : Scanned c) {i : Nat} (h1 : c.checkedIdx ≤ i)
    (h2 : i ≤ c.readIdx) (hplain : Plain c c.checkedIdx i) :
    Scanned { c with checkedIdx := i } := by
  refine ⟨Nat.le_trans h.start_le h1, h2, h.read_le, ?_⟩
  rcases Nat.eq_or_lt_of_le h1 with rfl | hlt
  · exact h.no_cr
  · exact Or.inr (hplain (i - 1) (by omega) (by omega)).1

/-- Under the invariant a line ends at a CR LF: the LF branch of `parse_line`
finds no CR before the LF. -/
theorem Scanned.ok_crlf (h : Scanned c) {i : Nat} (h1 : c.checkedIdx ≤ i)
    (hplain : Plain c c.checkedIdx i)
    (hcr : 1 < i ∧ c.readBuf.get (i - 1) = CR) : False := by
  rcases Nat.eq_or_lt_of_le h1 with rfl | hlt
  · rcases h.no_cr with hz | hne
    · omega
    · exact hne hcr.2
  · exact (hplain (i - 1) (by omega) (by omega)).1 hcr.2

/-- A complete line, under the invariant: the CR LF at index `i` becomes two
NULs, and `m_checked_idx` moves behind them. -/
theorem Scanned.parseLine_ok (h : Scanned c) {c' : HttpConn}
    (hp : parseLine c = (.lineOk, c')) :
    ∃ i, c.checkedIdx ≤ i ∧ i + 1 < c.readIdx ∧ Plain c c.checkedIdx i ∧
      c.readBuf.get i = CR ∧ c.readBuf.get (i + 1) = LF ∧
      c' = { (c.store i NUL).store (i + 1) NUL with checkedIdx := i + 2 } := by
  obtain ⟨i, h1, h2, hplain, hscan⟩ := parseLine_scan h.checked_le
  rw [hp] at hscan
  cases hscan with
  | crlf hi hcr hlf => exact ⟨i, h1, hi, hplain, hcr, hlf, rfl⟩
  | lfAfterCr hi hlf hcr => exact absurd (h.ok_crlf h1 hplain hcr) id

/-- The line that `parse_line` delivers is terminated. -/
theorem terminated_of_crlf {i : Nat} (hi : i + 1 < c.readIdx)
    (hle : c.readIdx ≤ READ_BUFFER_SIZE) :
    Terminated { (c.store i NUL).store (i + 1) NUL with checkedIdx := i + 2 } i := by
  refine ⟨?_, ?_, hi, hle⟩
  · simp only [store]
    rw [CharBuf.get_set_ne _ _ (by omega), CharBuf.get_set_self _ _ (by omega)]
  · simp only [store]
    rw [CharBuf.get_set_self _ _ (by omega)]

theorem Plain.recv {i j : Nat} (h : Plain c i j) (hj : j ≤ c.readIdx)
    (d : Bytes) : Plain (c.recv d) i j := by
  intro k h1 h2
  rw [get_recv c d (by omega)]
  exact h k h1 h2

/-- A line that is complete stays the first line when more bytes arrive. -/
theorem parseLine_crlf_recv {i : Nat} (h1 : c.checkedIdx ≤ i)
    (hi : i + 1 < c.readIdx) (hplain : Plain c c.checkedIdx i)
    (hcr : c.readBuf.get i = CR) (hlf : c.readBuf.get (i + 1) = LF) (d : Bytes) :
    parseLine (c.recv d) = (.lineOk,
      ({ (c.store i NUL).store (i + 1) NUL with checkedIdx := i + 2 } :
        HttpConn).recv d) := by
  have hcr' : (c.recv d).readBuf.get i = CR := by
    rw [get_recv c d (by omega), hcr]
  have hlf' : (c.recv d).readBuf.get (i + 1) = LF := by
    rw [get_recv c d hi, hlf]
  have hi' : i + 1 < (c.recv d).readIdx := Nat.lt_add_right _ hi
  rw [parseLine_plain (c := c.recv d) h1 hi' (hplain.recv (by omega) d) hcr' hlf']
  have hs1 := recv_store c d NUL (show i < c.readIdx by omega)
  have hs2 := recv_store (c.store i NUL) d NUL (show i + 1 < (c.store i NUL).readIdx from hi)
  rw [← hs1] at hs2
  rw [hs2]
  rfl

/-! ## The loop of process_read -/

theorem dispatchLine_content_inl {s s' : ReadState}
    (hc : s.conn.checkState = .content) (h : dispatchLine s = .inl s') :
    s'.conn.checkState = .content := by
  rw [dispatchLine_content hc] at h
  rcases hp : parseContent { s.conn with startLine := s.conn.checkedIdx } s.conn.getLine
    with f | ⟨code, c₁⟩
  · rw [hp] at h
    cases h
  · rw [hp] at h
    have hkept := (parseContent_checkState hp).trans hc
    cases code <;> cases h <;> exact hkept

theorem dispatchLine_ne_noRequest (s : ReadState) (c' : HttpConn) :
    dispatchLine s ≠ .inr (.ok (.returned .noRequest c')) := by
  intro h
  cases Parser.dispatchLine_code (p := parser) h

/-- The scanner does not touch the state of the main state machine. -/
theorem parseLine_checkState (c : HttpConn) :
    (parseLine c).2.checkState = c.checkState := rfl

/-- Once in the body, `process_read` stays in the body until it ends the
request. -/
theorem content_absorbing {s : ReadState} {r : Except Fault ReadExit}
    (h : Loop.Returns processReadBody s r) (hc : s.conn.checkState = .content)
    {c' : HttpConn} (hr : r = .ok (.returned .noRequest c')) :
    c'.checkState = .content := by
  induction h with
  | @done s r hb =>
      subst hr
      rw [processReadBody_eq] at hb
      split at hb
      · exact absurd hb (dispatchLine_ne_noRequest _ _)
      · have hstate := parseLine_checkState s.conn
        split at hb
        · exact absurd hb (dispatchLine_ne_noRequest _ _)
        · rename_i c₁ hp
          cases hb
          rw [hp] at hstate
          exact hstate.trans hc
  | @next s s' r hb _ ih =>
      refine ih ?_ hr
      rw [processReadBody_eq] at hb
      split at hb
      · exact dispatchLine_content_inl hc hb
      · have hstate := parseLine_checkState s.conn
        split at hb
        · rename_i c₁ hp
          rw [hp] at hstate
          exact dispatchLine_content_inl (hstate.trans hc) hb
        · cases hb

/-- An iteration before the body that goes on keeps `line_status` and the
scanner invariant. -/
theorem dispatchLine_scanned (t : Terminated c e) (hi : c.startLine ≤ e)
    (he : c.checkedIdx = e + 2) (hstate : c.checkState ≠ .content)
    {st : LineStatus} {s' : ReadState} (h : dispatchLine ⟨st, c⟩ = .inl s') :
    s'.lineStatus = st ∧ Scanned s'.conn ∧ s'.conn.readIdx = c.readIdx := by
  have ht : Terminated { c with startLine := c.checkedIdx } e :=
    ⟨t.nul, t.nul_succ, t.lt, t.le⟩
  have hlt := t.lt
  obtain ⟨hr, hck, hsl, -⟩ := dispatchLine_inl h
  simp only at hr hck hsl
  have hscan : c.readBuf.get (e + 1) = s'.conn.readBuf.get (e + 1) →
      Scanned s'.conn := by
    intro hget
    refine ⟨by omega, by omega, by rw [hr]; exact t.le, Or.inr ?_⟩
    rw [hck, he, show e + 2 - 1 = e + 1 by omega, ← hget, t.nul_succ]
    decide
  cases hs : c.checkState with
  | content => exact absurd hs hstate
  | requestLine =>
      rw [dispatchLine_requestLine (s := ⟨st, c⟩) hs] at h
      rcases hp : parseRequestLine { c with startLine := c.checkedIdx } c.startLine
        with f | ⟨code, c₁⟩
      · rw [getLine, hp] at h
        cases h
      · have hag := agreeBehind_parseRequestLine ht hi hp (e + 1) (by omega)
        rw [getLine, hp] at h
        cases code <;> cases h <;> exact ⟨rfl, hscan hag.symm, hr⟩
  | header =>
      rw [dispatchLine_header (s := ⟨st, c⟩) hs] at h
      have hf := (parseHeaders_frame { c with startLine := c.checkedIdx } c.startLine).2
      rcases hp : parseHeaders { c with startLine := c.checkedIdx } c.startLine with ⟨code, c₁⟩
      rw [hp] at hf
      rw [getLine, hp] at h
      cases code <;> cases h <;> exact ⟨rfl, hscan (by rw [hf]), hr⟩

theorem readFrom_congr {s s' : ReadState}
    (h : processReadBody s = processReadBody s') : readFrom s = readFrom s' := by
  cases hb : processReadBody s' with
  | inl m => rw [readFrom_next hb, readFrom_next (h.trans hb)]
  | inr r => rw [readFrom_done hb, readFrom_done (h.trans hb)]

/-- A call that stops before the body and waits for more bytes: calling again
after the bytes `d` ends as one call with the bytes `d` already there. -/
theorem readFrom_resume {s : ReadState} {r : Except Fault ReadExit}
    (h : Loop.Returns processReadBody s r) (hst : s.lineStatus = .lineOk)
    (hinv : Scanned s.conn) (hs : s.conn.checkState ≠ .content)
    {c' : HttpConn} (hr : r = .ok (.returned .noRequest c'))
    (hc' : c'.checkState ≠ .content) (d : Bytes) :
    Scanned c' ∧ c'.readIdx = s.conn.readIdx ∧
      readFrom ⟨.lineOk, c'.recv d⟩ = readFrom ⟨.lineOk, s.conn.recv d⟩ := by
  -- induction on the iterations: each complete line commutes with the receive,
  -- and at the last, incomplete line both sides scan from the same place
  induction h with
  | @done s r hb =>
      subst hr
      obtain ⟨st, c⟩ := s
      simp only at hst hinv hs ⊢
      subst hst
      rw [processReadBody_eq, if_neg (by simp [hs])] at hb
      obtain ⟨i, h1, h2, hplain, hscan⟩ := parseLine_scan hinv.checked_le
      have hopen : parseLine c = (.lineOpen, { c with checkedIdx := i }) ∨
          parseLine c = (.lineBad, { c with checkedIdx := i }) := by
        generalize parseLine c = p at hscan hb
        cases hscan with
        | exhausted _ => exact Or.inl rfl
        | lastCr _ _ => exact Or.inl rfl
        | strayCr _ _ _ => exact Or.inr rfl
        | strayLf _ _ _ => exact Or.inr rfl
        | crlf _ _ _ => exact absurd hb (dispatchLine_ne_noRequest _ _)
        | lfAfterCr _ _ _ => exact absurd hb (dispatchLine_ne_noRequest _ _)
      have heq : c' = { c with checkedIdx := i } := by
        rcases hopen with hp | hp <;> · rw [hp] at hb; cases hb; rfl
      subst heq
      refine ⟨hinv.skip h1 h2 hplain, rfl, readFrom_congr ?_⟩
      have hskip := parseLine_skip (c := c.recv d) (i := i) h1
        (Nat.le_trans h2 (Nat.le_add_right _ _)) (hplain.recv h2 d)
      rw [processReadBody_eq, processReadBody_eq, if_neg (fun hc => hs hc.1),
        if_neg (fun hc => hs hc.1), hskip]
      rfl
  | @next s s' r hb tail ih =>
      obtain ⟨st, c⟩ := s
      simp only at hst hinv hs ⊢
      subst hst
      have hb' := hb
      rw [processReadBody_eq, if_neg (by simp [hs])] at hb
      split at hb
      · rename_i c₁ hp
        obtain ⟨i, h1, hi, hplain, hcr, hlf, rfl⟩ := hinv.parseLine_ok hp
        have t := terminated_of_crlf hi hinv.read_le
        have hsl : c.startLine ≤ i := Nat.le_trans hinv.start_le h1
        obtain ⟨hst', hinv', hr'⟩ := dispatchLine_scanned t hsl rfl hs hb
        have hs' : s'.conn.checkState ≠ .content :=
          fun hc => hc' (content_absorbing tail hc hr)
        obtain ⟨hsc, hidx, hloop⟩ := ih hst' hinv' hs' hr
        refine ⟨hsc, hidx.trans hr', hloop.trans ?_⟩
        -- the same iteration, with the bytes `d` in the buffer
        have hline := parseLine_crlf_recv h1 hi hplain hcr hlf d
        have hdisp := dispatchLine_recv t hsl hs .lineOk d
        rw [hb] at hdisp
        refine (readFrom_next ?_).symm
        rw [processReadBody_eq, if_neg (fun hc => hs hc.1), hline]
        simp only [hdisp, recvStep, hst']
      · cases hb

/-! ## Whole runs -/

/-- A call of `process_read` that returns `NO_REQUEST` has not reached
`do_request`. -/
theorem processRead_noRequest {w w' : World} {c c' : HttpConn}
    (h : processRead w c = .ok (.noRequest, c', w')) :
    processReadLoop c = .ok (.returned .noRequest c') ∧ w' = w := by
  rw [processRead] at h
  generalize processReadLoop c = r at h
  cases r with
  | error f => cases h
  | ok x =>
      cases x with
      | request c₁ =>
        rcases doRequest_code h with hc | hc | hc | hc | hc <;> cases hc
      | returned code c₁ =>
        cases h
        exact ⟨rfl, rfl⟩

/-- The run after the chunk `d` depends on the bytes received so far and not on
how they were cut. -/
theorem feed_resume (w : World) (ds : List Bytes) : ∀ (c : HttpConn) (d : Bytes),
    Scanned c → c.checkState ≠ .content →
    c.readIdx + (d :: ds).flatten.length ≤ READ_BUFFER_SIZE →
    (∀ n, n < (d :: ds).length → waiting (feed w c ((d :: ds).take n)) = true) →
    feed w c (d :: ds) = feed w c [(d :: ds).flatten] := by
  induction ds with
  | nil =>
      intro c d _ _ _ _
      rw [List.flatten_cons, List.flatten_nil, List.append_nil]
  | cons d' ds ih =>
      intro c d hinv hs hlen hwait
      rw [List.flatten_cons, List.length_append] at hlen
      obtain ⟨c₁, w₁, hfeed, hs₁⟩ := (waiting_iff _).mp (hwait 1 (by simp))
      have hcall : processRead w (c.recv d) = .ok (.noRequest, c₁, w) := by
        rw [List.take_succ_cons, List.take_zero, feed] at hfeed
        split at hfeed
        · rename_i hp
          have hw := (processRead_noRequest hp).2
          cases hfeed
          rw [hp, hw]
        · rename_i hno
          exact absurd hfeed (hno _ _)
      obtain ⟨hloop, -⟩ := processRead_noRequest hcall
      have hret := readFrom_returns ⟨.lineOk, c.recv d⟩
      have hscan := hinv.recv (d := d) (by omega)
      obtain ⟨hinv₁, hidx, hres⟩ :=
        readFrom_resume hret rfl hscan hs hloop hs₁ (d' :: ds).flatten
      have hidx' : c₁.readIdx = c.readIdx + d.length := hidx
      have hwait₁ : ∀ n, n < (d' :: ds).length →
          waiting (feed w c₁ ((d' :: ds).take n)) = true := by
        intro n hn
        have hw := hwait (n + 1) (Nat.succ_lt_succ hn)
        rwa [List.take_succ_cons, feed, hcall] at hw
      have hcalls : processRead w (c₁.recv (d' :: ds).flatten) =
          processRead w (c.recv (d :: d' :: ds).flatten) := by
        rw [processRead, processRead, processReadLoop, hres]
        simp only [HttpConn.recv_recv]
        rfl
      calc feed w c (d :: d' :: ds)
          = feed w c₁ (d' :: ds) := by rw [feed, hcall]
        _ = feed w c₁ [(d' :: ds).flatten] :=
            ih c₁ d' hinv₁ hs₁ (by rw [hidx']; omega) hwait₁
        _ = feed w c [(d :: d' :: ds).flatten] := by rw [feed, feed, hcalls]

/-- The request line and the headers under any segmentation.  `ds` are the
chunks, and every call before the last one waits for more bytes before the
body.  Then the last call ends as one call on the whole text: with the same
code, in the same state of the connection, or with the same fault. -/
theorem feed_segmentation (w : World) (c : HttpConn) (ds : List Bytes)
    (hne : ds ≠ []) (hlen : ds.flatten.length ≤ READ_BUFFER_SIZE)
    (hwait : ∀ n, n < ds.length → waiting (feed w c.init (ds.take n)) = true) :
    feed w c.init ds = feed w c.init [ds.flatten] := by
  cases ds with
  | nil => exact absurd rfl hne
  | cons d ds =>
      have hlen' : c.init.readIdx + (d :: ds).flatten.length ≤ READ_BUFFER_SIZE := by
        simp only [init, Nat.zero_add]
        exact hlen
      exact feed_resume w ds c.init d (scanned_init c) (by simp [init]) hlen' hwait

/-- A world with no account and no file. -/
def emptyWorld : World :=
  ⟨UserMap.empty, fun _ => true, fun _ => none, fun _ => .mapFailed⟩

/-- A request for `/` that is cut between CR and LF and inside a header name. -/
theorem feed_segmentation_get :
    feed emptyWorld HttpConn.blank.init
        [ascii "GET / HTTP/1.1\r", ascii "\nHo", ascii "st: a\r\n\r\n"] =
      feed emptyWorld HttpConn.blank.init
        [[ascii "GET / HTTP/1.1\r", ascii "\nHo", ascii "st: a\r\n\r\n"].flatten] :=
  feed_segmentation emptyWorld HttpConn.blank
    [ascii "GET / HTTP/1.1\r", ascii "\nHo", ascii "st: a\r\n\r\n"]
    (by decide) (by decide) (by decide)

end EasyWebServer.Post
