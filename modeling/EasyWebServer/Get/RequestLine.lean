import EasyWebServer.Get.Parser
import EasyWebServer.Lib.StringAt

/-!
# The grammar of the request line of the GET server

`parse_request_line` of the GET server, with pointers that may be null:
`parseRequestLineChecked` stops at a string function that gets a null pointer.
`parseRequestLineChecked_eq` shows that none does.

`grammarOk_line` says that the function accepts exactly the lines of the grammar, and what the
members of the connection are then.
-/

namespace EasyWebServer.Get

open CString HttpConn CharBuf RequestLine

/-! ## Pointers -/

/-- The block that skips `http://`, and the test behind it. -/
def parsePathChecked (c : HttpConn) : Except Fault (HttpCode × HttpConn) := do
  let url ← deref c.url
  if strncasecmp (c.text url) (ascii "http://") then
    let c := { c with url := some (url + 7) }
    let url ← deref c.url
    .ok (finishPath { c with url := (strchr (c.text url) slash).map (fun k => url + k) })
  else .ok (finishPath c)

/-- The part of `parse_request_line` behind the method. -/
def parseVersionChecked (c : HttpConn) : Except Fault (HttpCode × HttpConn) := do
  let url ← deref c.url
  let c := { c with url := some (url + strspn (c.text url) blanks) }
  let url ← deref c.url
  match strpbrk (c.text url) blanks with
  | none => .ok (.badRequest, { c with version := none })
  | some k =>
      let c := { c.store (url + k) NUL with version := some (url + k + 1) }
      let version ← deref c.version
      let c := { c with version := some (version + strspn (c.text version) blanks) }
      let version ← deref c.version
      if strcasecmp (c.text version) (ascii "HTTP/1.1") then parsePathChecked c
      else .ok (.badRequest, c)

/-- `parse_request_line`, in which every string function tests its pointer. -/
def parseRequestLineChecked (c : HttpConn) (text : Option Nat) :
    Except Fault (HttpCode × HttpConn) := do
  let method ← deref text
  match strpbrk (c.text method) blanks with
  | none => .ok (.badRequest, { c with url := none })
  | some k =>
      let c := { c.store (method + k) NUL with url := some (method + k + 1) }
      if strcasecmp (c.text method) (ascii "GET") then
        parseVersionChecked { c with method := .get }
      else .ok (.badRequest, c)

theorem parsePathChecked_eq {c : HttpConn} {url : Nat} (hurl : c.url = some url) :
    parsePathChecked c = .ok (finishPath { c with url := skipHttp c url }) := by
  unfold parsePathChecked skipHttp
  rw [hurl]
  show (if _ then _ else _) = _
  split_ifs
  · rfl
  · rw [← hurl]

theorem parseVersionChecked_eq {c : HttpConn} {url : Nat} (hurl : c.url = some url) :
    parseVersionChecked c = .ok (parseVersion c url) := by
  unfold parseVersionChecked parseVersion
  rw [hurl]
  simp only [deref, bind, Except.bind]
  show (match strpbrk (c.text (url + strspn (c.text url) blanks)) blanks with
    | none => _
    | some k => _) = _
  rcases strpbrk (c.text (url + strspn (c.text url) blanks)) blanks with _ | k
  · rfl
  · let start := url + strspn (c.text url) blanks
    let version := start + k + 1 + strspn ((c.store (start + k) NUL).text (start + k + 1)) blanks
    let c' := { c.store (start + k) NUL with url := some start, version := some version }
    show (if strcasecmp (c'.text version) (ascii "HTTP/1.1") then parsePathChecked c'
      else .ok (.badRequest, c')) = .ok (if strcasecmp (c'.text version) (ascii "HTTP/1.1") then
        finishPath { c' with url := skipHttp c' start } else (.badRequest, c'))
    rw [parsePathChecked_eq (c := c') rfl]
    split_ifs <;> rfl

/-- No string function of `parse_request_line` gets a null pointer. -/
theorem parseRequestLineChecked_eq (c : HttpConn) (text : Nat) :
    parseRequestLineChecked c (some text) = .ok (parseRequestLine c text) := by
  unfold parseRequestLineChecked parseRequestLine
  show (match strpbrk (c.text text) blanks with
    | none => _
    | some k => _) = _
  rcases strpbrk (c.text text) blanks with _ | k
  · rfl
  · let c' := { c.store (text + k) NUL with url := some (text + k + 1) }
    show (if strcasecmp (c'.text text) (ascii "GET") then
        parseVersionChecked { c' with method := .get } else .ok (.badRequest, c')) =
      .ok (if strcasecmp (c'.text text) (ascii "GET") then
        parseVersion { c' with method := .get } (text + k + 1) else (.badRequest, c'))
    rw [parseVersionChecked_eq (c := { c' with method := .get }) rfl]
    split_ifs <;> rfl

/-! ## The lines and their paths -/

/-- The path of a URL. -/
def urlPath (target : Bytes) : Option Bytes := targetPath [ascii "http://"] slash target

/-- The line is a request for a path. -/
def Accepts (line path : Bytes) : Prop :=
  ∃ target, WellFormed (ascii "GET") line target ∧ urlPath target = some path ∧
    path.head? = some slash

/-- The members of the connection behind a line that was accepted. -/
structure Accepted (c : HttpConn) (path : Bytes) : Prop where
  state : c.checkState = .header
  url : ∃ url, c.url = some url ∧ cstr (c.text url) = path

/-- `parse_request_line` uses no null pointer, accepts exactly the lines of the grammar,
and rejects the others. -/
def GrammarOk (c : HttpConn) (text : Nat) (line : Bytes) : Prop :=
  ∃ code c', parseRequestLineChecked c (some text) = .ok (code, c') ∧
    (code = .noRequest ↔ ∃ path, Accepts line path) ∧
    (code = .badRequest ↔ ¬ ∃ path, Accepts line path) ∧
    ∀ path, Accepts line path → Accepted c' path

/-- The text behind the method asks for a path. -/
def AsksFor (rest path : Bytes) : Prop :=
  ∃ target, TargetOf rest target ∧ urlPath target = some path ∧ path.head? = some slash

/-- The answer to a text that asks for the paths in `p`. -/
def Answers (p : Bytes → Prop) (r : HttpCode × HttpConn) : Prop :=
  (∃ path, p path ∧ r.1 = .noRequest ∧ Accepted r.2 path) ∨
    (¬ ∃ path, p path) ∧ r.1 = .badRequest

theorem cstr_text {c : HttpConn} {i : Nat} {s : Bytes} (h : StringAt c.readBuf i s) :
    cstr (c.text i) = s := h.cstr

/-! ## The path -/

theorem urlPath_eq (target : Bytes) : urlPath target =
    if StartsFold target (ascii "http://") then pathBehind slash target (ascii "http://")
    else some target := by
  rw [urlPath, targetPath_cons, targetPath_nil]

/-- The test of the first byte of the path. -/
theorem finishPath_answer {c : HttpConn} {url : Nat} {path : Bytes} (hurl : c.url = some url)
    (hpath : StringAt c.readBuf url path) :
    Answers (fun q => some path = some q ∧ q.head? = some slash) (finishPath c) := by
  have hget : c.readBuf.get url = slash ↔ path.head? = some slash := by
    rw [hpath.get_head]
    cases path with
    | nil => decide
    | cons x rest => exact Option.some_inj.symm
  unfold finishPath
  rw [hurl]
  simp only
  by_cases hslash : path.head? = some slash
  · rw [if_neg (not_not.mpr (hget.mpr hslash))]
    exact Or.inl ⟨path, ⟨rfl, hslash⟩, rfl, rfl, url, rfl, hpath.cstr⟩
  · rw [if_pos (mt hget.mp hslash)]
    refine Or.inr ⟨?_, rfl⟩
    rintro ⟨q, hq, hhead⟩
    cases hq
    exact hslash hhead

theorem finishPath_null {c : HttpConn} (hurl : c.url = none) : (finishPath c).1 = .badRequest := by
  unfold finishPath
  rw [hurl]

/-- `m_url` moves to the path of the URL, or to null. -/
theorem parsePath_answer {c : HttpConn} {url : Nat} {target : Bytes}
    (h : StringAt c.readBuf url target) :
    Answers (fun path => urlPath target = some path ∧ path.head? = some slash)
      (finishPath { c with url := skipHttp c url }) := by
  have hstarts : strncasecmp (c.text url) (ascii "http://") = true ↔
      StartsFold target (ascii "http://") := strncasecmp_iff (cstr_text h)
  rw [urlPath_eq]
  by_cases hhttp : StartsFold target (ascii "http://")
  · have hbehind : StringAt c.readBuf (url + 7) (target.drop (ascii "http://").length) :=
      h.behindScheme hhttp
    have hskip : skipHttp c url =
        (strchr (c.text (url + 7)) slash).map (fun k => url + 7 + k) :=
      if_pos (hstarts.mpr hhttp)
    rw [if_pos hhttp, pathBehind]
    split_ifs with hslash
    · obtain ⟨k, hk, hat, -⟩ := hbehind.fromByte hslash
      have hchr : strchr (c.text (url + 7)) slash = some k := hk
      rw [hchr] at hskip
      exact finishPath_answer (c := { c with url := skipHttp c url }) hskip hat
    · rw [strchr_notMem (cstr_text hbehind) hslash] at hskip
      refine Or.inr ⟨?_, finishPath_null hskip⟩
      rintro ⟨path, hpath, -⟩
      cases hpath
  · have hskip : skipHttp c url = some url := if_neg (mt hstarts.mp hhttp)
    rw [if_neg hhttp]
    exact finishPath_answer (c := { c with url := skipHttp c url }) hskip h

/-! ## The part behind the method -/

theorem parseVersion_word {c : HttpConn} {url : Nat} {w r : Bytes}
    (h : StringAt c.readBuf url (w ++ r)) (hw : Blank w) (hstarts : Starts r) (hr : Word r) :
    (parseVersion c url).1 = .badRequest := by
  have hspan : strspn (c.text url) blanks = w.length := strspn_blank (cstr_text h) hw hstarts
  have hpbrk : strpbrk (c.text (url + w.length)) blanks = none :=
    strpbrk_word (cstr_text h.right) hr
  unfold parseVersion
  simp only [hspan, hpbrk]

/-- The URL and the version are cut apart. -/
theorem parseVersion_split {c : HttpConn} {url : Nat} {w u w' v : Bytes}
    (h : StringAt c.readBuf url (w ++ (u ++ w' ++ v))) (hw : Blank w)
    (hstarts : Starts (u ++ w' ++ v)) (hu : Word u) (hw' : Blank w') (hne : w' ≠ [])
    (hv : Starts v) :
    ∃ c', StringAt c'.readBuf (url + w.length) u ∧
      parseVersion c url =
        if EqualFold v version then
          finishPath { c' with url := skipHttp c' (url + w.length) }
        else (.badRequest, c') := by
  obtain ⟨hspan, hpbrk, htarget, n, hspan', hrest⟩ := h.cutBlanks hw hstarts hu hw' hne hv
  have hversion := strcasecmp_iff (t := version) hrest.cstr
  let c' := { c.store (url + w.length + u.length) NUL with
    url := some (url + w.length)
    version := some (url + w.length + u.length + 1 + n) }
  refine ⟨c', htarget, ?_⟩
  unfold parseVersion text store
  simp only [hspan, hpbrk, hspan']
  exact if_congr hversion rfl rfl

theorem parseVersion_answer {c : HttpConn} {url : Nat} {w r : Bytes}
    (h : StringAt c.readBuf url (w ++ r)) (hw : Blank w) (hstarts : Starts r) :
    Answers (AsksFor r) (parseVersion c url) := by
  rcases word_or_split r with hr | ⟨u, w', v, rfl, hu, hw', hne, hv⟩
  · refine Or.inr ⟨?_, parseVersion_word h hw hstarts hr⟩
    rintro ⟨path, target, htarget, -⟩
    exact htarget.not_word hr
  · obtain ⟨c₁, hat, hparse⟩ := parseVersion_split h hw hstarts hu hw' hne hv
    have hasks : ∀ path, AsksFor (u ++ w' ++ v) path ↔
        EqualFold v version ∧ urlPath u = some path ∧ path.head? = some slash := by
      intro path
      simp only [AsksFor, TargetOf.of_split hu hw' hne hv hstarts, and_assoc, exists_eq_left]
    rw [hparse]
    by_cases hversion : EqualFold v version
    · rw [if_pos hversion]
      simp only [Answers, hasks, hversion, true_and]
      exact parsePath_answer hat
    · rw [if_neg hversion]
      exact Or.inr ⟨fun ⟨path, hpath⟩ => hversion ((hasks path).mp hpath).1, rfl⟩

/-! ## The whole line -/

theorem word_get : Word ((ascii "GET").map toLower) := by decide

/-- What `parse_request_line` does behind the first word of the line. -/
theorem parseRequestLine_split {c : HttpConn} {text : Nat} {m w r : Bytes}
    (h : StringAt c.readBuf text (m ++ w ++ r)) (hm : Word m) (hw : Blank w) (hne : w ≠ []) :
    ∃ c₁ c₂ w', StringAt c₁.readBuf (text + m.length + 1) (w' ++ r) ∧ Blank w' ∧
      parseRequestLine c text =
        if EqualFold m (ascii "GET") then parseVersion c₁ (text + m.length + 1)
        else (.badRequest, c₂) := by
  obtain ⟨hpbrk, hword, w', hblank, -, hrest⟩ := h.cutWord hm hw hne
  have hmethod := strcasecmp_iff (t := ascii "GET") hword.cstr
  let c' := { c.store (text + m.length) NUL with url := some (text + m.length + 1) }
  refine ⟨{ c' with method := .get }, c', w', hrest, hblank, ?_⟩
  unfold parseRequestLine HttpConn.text
  simp only [hpbrk]
  exact if_congr hmethod rfl rfl

theorem parseRequestLine_word {c : HttpConn} {text : Nat} {line : Bytes}
    (h : StringAt c.readBuf text line) (hline : Word line) :
    (parseRequestLine c text).1 = .badRequest := by
  have hpbrk : strpbrk (c.text text) blanks = none := strpbrk_word (cstr_text h) hline
  unfold parseRequestLine
  simp only [hpbrk]

theorem parseRequestLine_answer {c : HttpConn} {text : Nat} {line : Bytes}
    (h : StringAt c.readBuf text line) : Answers (Accepts line) (parseRequestLine c text) := by
  rcases word_or_split line with hword | ⟨m, w, r, rfl, hm, hw, hne, hr⟩
  · refine Or.inr ⟨?_, parseRequestLine_word h hword⟩
    rintro ⟨path, target, hwell, -⟩
    exact hwell.not_word hword
  · obtain ⟨c₁, c₂, w', hat, hw', hparse⟩ := parseRequestLine_split h hm hw hne
    have haccepts : ∀ path, Accepts (m ++ w ++ r) path ↔
        EqualFold m (ascii "GET") ∧ AsksFor r path := by
      intro path
      simp only [Accepts, AsksFor, WellFormed.of_split word_get hm hw hne hr, and_assoc,
        exists_and_left]
    rw [hparse]
    by_cases hget : EqualFold m (ascii "GET")
    · rw [if_pos hget]
      simp only [Answers, haccepts, hget, true_and]
      exact parseVersion_answer hat hw' hr
    · rw [if_neg hget]
      exact Or.inr ⟨fun ⟨path, hpath⟩ => hget ((haccepts path).mp hpath).1, rfl⟩

theorem Accepts.unique {line p p' : Bytes} (h : Accepts line p) (h' : Accepts line p') :
    p = p' := by
  obtain ⟨t, ⟨m, w, r, rfl, hm, hw, hne, ht⟩, hurl, -⟩ := h
  obtain ⟨t', hwell, hurl', -⟩ := h'
  rw [WellFormed.of_split word_get (hm.word word_get) hw hne ht.starts] at hwell
  cases ht.unique hwell.2
  exact Option.some.inj (hurl.symm.trans hurl')

/-- `parse_request_line` uses no null pointer, and follows the grammar on every line. -/
theorem grammarOk_line {c : HttpConn} {text : Nat} {line : Bytes}
    (hline : StringAt c.readBuf text line) : GrammarOk c text line := by
  refine ⟨(parseRequestLine c text).1, (parseRequestLine c text).2,
    parseRequestLineChecked_eq c text, ?_⟩
  rcases parseRequestLine_answer hline with ⟨path, hpath, hcode, haccepted⟩ | ⟨hnone, hcode⟩
  · rw [hcode]
    refine ⟨iff_of_true rfl ⟨path, hpath⟩, ?_, fun q hq => ?_⟩
    · exact iff_of_false nofun (not_not.mpr ⟨path, hpath⟩)
    · cases hpath.unique hq
      exact haccepted
  · rw [hcode]
    exact ⟨iff_of_false nofun hnone, iff_of_true rfl hnone, fun q hq => absurd ⟨q, hq⟩ hnone⟩

/-- An absolute URL with a path, received into an empty buffer. -/
theorem grammarOk_absolute :
    GrammarOk (blank.init.recv (ascii "get http://localhost/x HTTP/1.1")) 0
      (ascii "get http://localhost/x HTTP/1.1") :=
  grammarOk_line ⟨by decide, by decide, by decide⟩

end EasyWebServer.Get
