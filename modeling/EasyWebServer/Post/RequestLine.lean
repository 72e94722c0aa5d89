import EasyWebServer.Lib.RequestLine
import EasyWebServer.Lib.StringAt
import EasyWebServer.Post.Parser

/-!
# The grammar of the request line

`parse_request_line` cuts its line in place.  `GrammarOk` says that it accepts exactly the
lines of the grammar, and what the members of the connection are then.

`grammarOk_iff` finds one exception, `HostOnly`: for an absolute `http://` URL without a
path, `strchr` returns null and the test for `https://` reads through it.
-/

namespace EasyWebServer.Post

open CString HttpConn CharBuf RequestLine

/-! ## The lines and their paths -/

/-- The pointer is at a line of `parse_line`: behind the line the buffer has the two
bytes of its CRLF, of which the first is NUL now. -/
structure LineAt (c : HttpConn) (text : Nat) (line : Bytes) : Prop where
  string : StringAt c.readBuf text line
  fits : text + line.length + 2 ≤ READ_BUFFER_SIZE

/-- The line is a request with the method and the target. -/
def Requests (line : Bytes) (m : Method) (target : Bytes) : Prop :=
  m = .get ∧ WellFormed (ascii "GET") line target ∨
    m = .post ∧ WellFormed (ascii "POST") line target

/-- The path of a URL. -/
def urlPath (target : Bytes) : Option Bytes :=
  targetPath [ascii "http://", ascii "https://"] slash target

/-- The line is a request for a path. -/
def Accepts (line : Bytes) (m : Method) (path : Bytes) : Prop :=
  ∃ target, Requests line m target ∧ urlPath target = some path ∧ path.head? = some slash

/-- The path that is served: a bare `/` is the start page. -/
def servedPath (path : Bytes) : Bytes :=
  if path = [slash] then ascii "/judge.html" else path

/-- The members of the connection behind a line that was accepted. -/
structure Accepted (c : HttpConn) (m : Method) (path : Bytes) : Prop where
  state : c.checkState = .header
  method : c.method = m
  cgi : c.cgi = if m = .post then 1 else 0
  url : ∃ url, c.url = some url ∧ cstr (c.text url) = servedPath path

/-- `parse_request_line` uses no null pointer, accepts exactly the lines of the grammar,
and rejects the others. -/
def GrammarOk (c : HttpConn) (text : Nat) (line : Bytes) : Prop :=
  ∃ code c', parseRequestLine c text = .ok (code, c') ∧
    (code = .noRequest ↔ ∃ m path, Accepts line m path) ∧
    (code = .badRequest ↔ ¬ ∃ m path, Accepts line m path) ∧
    ∀ m path, Accepts line m path → Accepted c' m path

/-- The URL is `http://` and a host, with no path behind it. -/
def NoPath (target : Bytes) : Prop :=
  StartsFold target (ascii "http://") ∧ slash ∉ target.drop (ascii "http://").length

/-- The line is a request whose URL has a host and no path. -/
def HostOnly (line : Bytes) : Prop := ∃ m target, Requests line m target ∧ NoPath target

theorem cstr_text {c : HttpConn} {i : Nat} {s : Bytes} (h : StringAt c.readBuf i s) :
    cstr (c.text i) = s := h.cstr

/-! ## The end of the line -/

/-- What the end of `parse_request_line` sets when it accepts a path. -/
structure PathSet (c c' : HttpConn) (path : Bytes) : Prop where
  state : c'.checkState = .header
  method : c'.method = c.method
  cgi : c'.cgi = c.cgi
  url : ∃ url, c'.url = some url ∧ cstr (c'.text url) = servedPath path

/-- A path that starts with `/`. -/
theorem finishPath_slash {c : HttpConn} {url : Nat} {path : Bytes} (hurl : c.url = some url)
    (hpath : StringAt c.readBuf url path)
    (hroom : url + path.length + 11 ≤ READ_BUFFER_SIZE) (hslash : path.head? = some slash) :
    ∃ c', finishPath c = (.noRequest, c') ∧ PathSet c c' path := by
  obtain ⟨rest, rfl⟩ : ∃ rest, path = slash :: rest := by
    cases path with
    | nil => cases hslash
    | cons x rest =>
        cases hslash
        exact ⟨rest, rfl⟩
  have hget : c.readBuf.get url = slash := hpath.get_head
  have hlen : strlen (c.text url) = rest.length + 1 := hpath.strlen
  unfold finishPath
  simp only [hurl, hget, ne_eq, not_true_eq_false, if_false, hlen]
  cases rest with
  | nil =>
      -- the page is appended behind the `/`
      have happend : StringAt (appendJudge c url).readBuf url (ascii "/judge.html") := by
        have hstring := hpath.strcat (t := ascii "judge.html") (by decide) (by
          rw [show (ascii "judge.html").length = 10 from by decide]
          omega)
        rw [appendJudge, hlen]
        exact hstring
      simp only [List.length_nil, if_true]
      exact ⟨_, rfl, rfl, rfl, rfl, url, hurl, happend.cstr⟩
  | cons x rest =>
      have hserved : servedPath (slash :: x :: rest) = slash :: x :: rest := if_neg (by simp)
      simp only [List.length_cons, Nat.add_eq_right, Nat.succ_ne_zero, if_false]
      exact ⟨_, rfl, rfl, rfl, rfl, url, hurl, hpath.cstr.trans hserved.symm⟩

theorem finishPath_noSlash {c : HttpConn} {url : Nat} {path : Bytes} (hurl : c.url = some url)
    (hpath : StringAt c.readBuf url path) (hslash : path.head? ≠ some slash) :
    finishPath c = (.badRequest, c) := by
  have hget : c.readBuf.get url ≠ slash := by
    rw [hpath.get_head]
    cases path with
    | nil => decide
    | cons x rest => exact fun he => hslash (congrArg some he)
  unfold finishPath
  simp only [hurl, if_pos hget]

/-! ## The schemes -/

theorem skipScheme_no {c : HttpConn} {url : Nat} {target scheme : Bytes}
    (h : StringAt c.readBuf url target) (hstarts : ¬ StartsFold target scheme) :
    skipScheme c scheme (some url) = .ok (some url) := by
  rw [skipScheme, if_neg]
  rw [strncasecmp_iff (cstr_text h)]
  exact hstarts

/-- Behind a scheme, `m_url` moves to the first `/`, or to null. -/
theorem skipScheme_yes {c : HttpConn} {url : Nat} {target scheme : Bytes}
    (h : StringAt c.readBuf url target) (hstarts : StartsFold target scheme) :
    StringAt c.readBuf (url + scheme.length) (target.drop scheme.length) ∧
      skipScheme c scheme (some url) = .ok ((strchr (c.text (url + scheme.length)) slash).map
        (fun k => url + scheme.length + k)) := by
  refine ⟨h.behindScheme hstarts, ?_⟩
  rw [skipScheme, if_pos]
  rw [strncasecmp_iff (cstr_text h)]
  exact hstarts

theorem skipScheme_null {c : HttpConn} {url : Nat} {target scheme : Bytes}
    (h : StringAt c.readBuf url target) (hstarts : StartsFold target scheme)
    (hslash : slash ∉ target.drop scheme.length) :
    skipScheme c scheme (some url) = .ok none := by
  obtain ⟨hright, hskip⟩ := skipScheme_yes h hstarts
  rw [hskip, strchr_notMem (cstr_text hright) hslash]
  rfl

theorem skipScheme_path {c : HttpConn} {url : Nat} {target scheme : Bytes}
    (h : StringAt c.readBuf url target) (hstarts : StartsFold target scheme)
    (hslash : slash ∈ target.drop scheme.length) :
    ∃ u path, skipScheme c scheme (some url) = .ok (some u) ∧
      path = (target.drop scheme.length).dropWhile (fun b => b != slash) ∧
      path.head? = some slash ∧ StringAt c.readBuf u path ∧
      u + path.length = url + target.length := by
  obtain ⟨hright, hskip⟩ := skipScheme_yes h hstarts
  obtain ⟨k, hk, hat, hlen⟩ := hright.fromByte hslash
  have hchr : strchr (c.text (url + scheme.length)) slash = some k := hk
  rw [hskip, hchr]
  refine ⟨_, _, rfl, rfl, head?_dropWhile hslash, hat, ?_⟩
  have hle := hstarts.length_le
  rw [List.length_drop] at hlen
  show url + scheme.length + k + _ = _
  omega

/-! ## The path -/

theorem urlPath_eq (target : Bytes) : urlPath target =
    if StartsFold target (ascii "http://") then pathBehind slash target (ascii "http://")
    else if StartsFold target (ascii "https://") then pathBehind slash target (ascii "https://")
    else some target := by
  rw [urlPath, targetPath_cons, targetPath_cons, targetPath_nil]

/-- A path does not start with a scheme. -/
theorem not_startsFold_of_slash {path : Bytes} (h : path.head? = some slash) :
    ¬ StartsFold path (ascii "https://") := by
  intro hstarts
  have hhead := hstarts.head?_eq (by decide)
  rw [h] at hhead
  exact absurd hhead (by decide)

/-- `m_url` moves to the path of the URL. -/
theorem parsePath_path {c : HttpConn} {url : Nat} {target path : Bytes}
    (h : StringAt c.readBuf url target) (hpath : urlPath target = some path) :
    ∃ u, parsePath c url = .ok (finishPath { c with url := some u }) ∧
      StringAt c.readBuf u path ∧ u + path.length = url + target.length := by
  rw [urlPath_eq] at hpath
  unfold parsePath
  split_ifs at hpath with hhttp hhttps
  · unfold pathBehind at hpath
    split_ifs at hpath with hslash
    obtain ⟨u, p, hskip, rfl, hhead, hat, hlen⟩ := skipScheme_path h hhttp hslash
    cases hpath
    refine ⟨u, ?_, hat, hlen⟩
    simp only [hskip, skipScheme_no hat (not_startsFold_of_slash hhead)]
  · unfold pathBehind at hpath
    split_ifs at hpath with hslash
    obtain ⟨u, p, hskip, rfl, -, hat, hlen⟩ := skipScheme_path h hhttps hslash
    cases hpath
    refine ⟨u, ?_, hat, hlen⟩
    simp only [skipScheme_no h hhttp, hskip]
  · cases hpath
    refine ⟨url, ?_, h, rfl⟩
    simp only [skipScheme_no h hhttp, skipScheme_no h hhttps]

/-- A URL without a path is rejected, if its scheme is `https://`. -/
theorem parsePath_none {c : HttpConn} {url : Nat} {target : Bytes}
    (h : StringAt c.readBuf url target) (hpath : urlPath target = none)
    (hhost : ¬ NoPath target) :
    parsePath c url = .ok (.badRequest, { c with url := none }) := by
  rw [urlPath_eq] at hpath
  unfold parsePath
  split_ifs at hpath with hhttp hhttps
  · unfold pathBehind at hpath
    split_ifs at hpath with hslash
    exact absurd ⟨hhttp, hslash⟩ hhost
  · unfold pathBehind at hpath
    split_ifs at hpath with hslash
    simp only [skipScheme_no h hhttp, skipScheme_null h hhttps hslash]
    rfl

/-- For `http://` and a host, the test for `https://` reads through a null pointer. -/
theorem parsePath_noPath {c : HttpConn} {url : Nat} {target : Bytes}
    (h : StringAt c.readBuf url target) (hhost : NoPath target) :
    parsePath c url = .error .nullPointer := by
  unfold parsePath
  simp only [skipScheme_null h hhost.1 hhost.2]
  rfl

/-! ## The part behind the method -/

/-- The text behind the method asks for a path. -/
def AsksFor (rest path : Bytes) : Prop :=
  ∃ target, TargetOf rest target ∧ urlPath target = some path ∧ path.head? = some slash

/-- The answer to the text behind the method. -/
def TargetAnswer (c : HttpConn) (rest : Bytes) (code : HttpCode) (c' : HttpConn) : Prop :=
  (∃ path, AsksFor rest path ∧ code = .noRequest ∧ PathSet c c' path) ∨
    (¬ ∃ path, AsksFor rest path) ∧ code = .badRequest

theorem parsePath_answer {c : HttpConn} {url : Nat} {target : Bytes}
    (h : StringAt c.readBuf url target)
    (hroom : url + target.length + 11 ≤ READ_BUFFER_SIZE) (hhost : ¬ NoPath target) :
    ∃ code c', parsePath c url = .ok (code, c') ∧
      ((∃ path, urlPath target = some path ∧ path.head? = some slash ∧ code = .noRequest ∧
          PathSet c c' path) ∨
        (∀ path, urlPath target = some path → path.head? ≠ some slash) ∧
          code = .badRequest) := by
  cases hpath : urlPath target with
  | none => exact ⟨_, _, parsePath_none h hpath hhost, Or.inr ⟨nofun, rfl⟩⟩
  | some path =>
      obtain ⟨u, hparse, hat, hlen⟩ := parsePath_path h hpath
      by_cases hslash : path.head? = some slash
      · obtain ⟨c', hfinish, hset⟩ :=
          finishPath_slash (c := { c with url := some u }) rfl hat (by omega) hslash
        rw [hfinish] at hparse
        exact ⟨_, _, hparse, Or.inl ⟨path, rfl, hslash, rfl,
          ⟨hset.state, hset.method, hset.cgi, hset.url⟩⟩⟩
      · have hfinish := finishPath_noSlash (c := { c with url := some u }) rfl hat hslash
        rw [hfinish] at hparse
        refine ⟨_, _, hparse, Or.inr ⟨fun p hp => ?_, rfl⟩⟩
        cases hp
        exact hslash

/-- The URL and the version are cut apart. -/
theorem parseVersion_split {c : HttpConn} {url : Nat} {w u w' v : Bytes}
    (h : StringAt c.readBuf url (w ++ (u ++ w' ++ v))) (hw : Blank w)
    (hstarts : Starts (u ++ w' ++ v)) (hu : Word u) (hw' : Blank w') (hne : w' ≠ [])
    (hv : Starts v) :
    ∃ c', StringAt c'.readBuf (url + w.length) u ∧ c'.method = c.method ∧ c'.cgi = c.cgi ∧
      parseVersion c url =
        if EqualFold v version then parsePath c' (url + w.length)
        else .ok (.badRequest, c') := by
  obtain ⟨hspan, hpbrk, htarget, n, hspan', hrest⟩ := h.cutBlanks hw hstarts hu hw' hne hv
  have hversion := strcasecmp_iff (t := version) hrest.cstr
  let c' := { c.store (url + w.length + u.length) NUL with
    url := some (url + w.length)
    version := some (url + w.length + u.length + 1 + n) }
  refine ⟨c', htarget, rfl, rfl, ?_⟩
  unfold parseVersion text store
  simp only [hspan, hpbrk, hspan']
  exact if_congr hversion rfl rfl

theorem parseVersion_word {c : HttpConn} {url : Nat} {w r : Bytes}
    (h : StringAt c.readBuf url (w ++ r)) (hw : Blank w) (hstarts : Starts r) (hr : Word r) :
    ∃ c', parseVersion c url = .ok (.badRequest, c') := by
  have hspan : strspn (c.text url) blanks = w.length := strspn_blank (cstr_text h) hw hstarts
  have hpbrk : strpbrk (c.text (url + w.length)) blanks = none :=
    strpbrk_word (cstr_text h.right) hr
  unfold parseVersion
  simp only [hspan, hpbrk]
  exact ⟨_, rfl⟩

theorem parseVersion_answer {c : HttpConn} {url : Nat} {w r : Bytes}
    (h : StringAt c.readBuf url (w ++ r)) (hw : Blank w) (hstarts : Starts r)
    (hroom : url + (w ++ r).length + 2 ≤ READ_BUFFER_SIZE)
    (hhost : ¬ ∃ target, TargetOf r target ∧ NoPath target) :
    ∃ code c', parseVersion c url = .ok (code, c') ∧ TargetAnswer c r code c' := by
  rcases word_or_split r with hr | ⟨u, w', v, rfl, hu, hw', hne, hv⟩
  · obtain ⟨c', hparse⟩ := parseVersion_word h hw hstarts hr
    refine ⟨_, c', hparse, Or.inr ⟨?_, rfl⟩⟩
    rintro ⟨path, target, htarget, -⟩
    exact htarget.not_word hr
  · obtain ⟨c₁, hat, hmethod, hcgi, hparse⟩ := parseVersion_split h hw hstarts hu hw' hne hv
    rw [hparse]
    have htarget : ∀ target, TargetOf (u ++ w' ++ v) target ↔
        target = u ∧ EqualFold v version :=
      fun target => TargetOf.of_split hu hw' hne hv hstarts
    simp only [AsksFor, TargetAnswer, htarget] at hhost ⊢
    split_ifs with hversion
    · have hvlen : v.length = 8 := by
        have hlen := congrArg List.length hversion
        rwa [List.length_map, List.length_map] at hlen
      have hwlen := List.length_pos_iff.mpr hne
      simp only [List.length_append] at hroom
      obtain ⟨code, c', hpath, hanswer⟩ :=
        parsePath_answer hat (by omega) (fun hno => hhost ⟨u, ⟨rfl, hversion⟩, hno⟩)
      refine ⟨code, c', hpath, ?_⟩
      rcases hanswer with ⟨path, hurl, hslash, hcode, hset⟩ | ⟨hnone, hcode⟩
      · refine Or.inl ⟨path, ⟨u, ⟨rfl, hversion⟩, hurl, hslash⟩, hcode, ?_⟩
        exact ⟨hset.state, hset.method.trans hmethod, hset.cgi.trans hcgi, hset.url⟩
      · refine Or.inr ⟨?_, hcode⟩
        rintro ⟨path, target, ⟨rfl, -⟩, hurl, hslash⟩
        exact hnone path hurl hslash
    · refine ⟨_, c₁, rfl, Or.inr ⟨?_, rfl⟩⟩
      rintro ⟨path, target, ⟨-, hfold⟩, -⟩
      exact hversion hfold

theorem parseVersion_hostOnly {c : HttpConn} {url : Nat} {w r target : Bytes}
    (h : StringAt c.readBuf url (w ++ r)) (hw : Blank w)
    (htarget : TargetOf r target) (hhost : NoPath target) :
    parseVersion c url = .error .nullPointer := by
  have hstarts := htarget.starts
  obtain ⟨w', v, rfl, -, hu, hw', hne, hv⟩ := htarget
  obtain ⟨c₁, hat, -, -, hparse⟩ :=
    parseVersion_split h hw hstarts hu hw' hne hv.starts_version
  rw [hparse, if_pos hv]
  exact parsePath_noPath hat hhost

/-! ## The whole line -/

theorem word_get : Word ((ascii "GET").map toLower) := by decide
theorem word_post : Word ((ascii "POST").map toLower) := by decide

/-- The readings of a line whose method and first run of blanks are known. -/
theorem requests_split {m w r target : Bytes} {method : Method} (hm : Word m) (hw : Blank w)
    (hne : w ≠ []) (hr : Starts r) :
    Requests (m ++ w ++ r) method target ↔
      (method = .get ∧ EqualFold m (ascii "GET") ∨
        method = .post ∧ EqualFold m (ascii "POST")) ∧ TargetOf r target := by
  unfold Requests
  rw [WellFormed.of_split word_get hm hw hne hr, WellFormed.of_split word_post hm hw hne hr,
    or_and_right, and_assoc, and_assoc]

theorem Requests.not_word {line target : Bytes} {m : Method} (h : Requests line m target) :
    ¬ Word line := by
  rcases h with ⟨-, h⟩ | ⟨-, h⟩
  · exact h.not_word
  · exact h.not_word

/-- What `parse_request_line` does behind the first word of the line. -/
theorem parseRequestLine_split {c : HttpConn} {text : Nat} {m w r : Bytes}
    (h : StringAt c.readBuf text (m ++ w ++ r)) (hm : Word m) (hw : Blank w) (hne : w ≠ []) :
    ∃ c' w', StringAt c'.readBuf (text + m.length + 1) (w' ++ r) ∧ Blank w' ∧
      w'.length + 1 = w.length ∧ c'.cgi = c.cgi ∧
      parseRequestLine c text =
        if EqualFold m (ascii "GET") then
          parseVersion { c' with method := .get } (text + m.length + 1)
        else if EqualFold m (ascii "POST") then
          parseVersion { c' with method := .post, cgi := 1 } (text + m.length + 1)
        else .ok (.badRequest, c') := by
  obtain ⟨hpbrk, hword, w', hblank, hlen, hrest⟩ := h.cutWord hm hw hne
  let c' := { c.store (text + m.length) NUL with url := some (text + m.length + 1) }
  have hmethod : cstr (c'.text text) = m := hword.cstr
  refine ⟨c', w', hrest, hblank, hlen, rfl, ?_⟩
  unfold parseRequestLine HttpConn.text
  simp only [hpbrk]
  exact if_congr (strcasecmp_iff hmethod) rfl (if_congr (strcasecmp_iff hmethod) rfl rfl)

theorem parseRequestLine_word {c : HttpConn} {text : Nat} {line : Bytes}
    (h : StringAt c.readBuf text line) (hline : Word line) :
    ∃ c', parseRequestLine c text = .ok (.badRequest, c') := by
  have hpbrk : strpbrk (c.text text) blanks = none := strpbrk_word (cstr_text h) hline
  unfold parseRequestLine
  simp only [hpbrk]
  exact ⟨_, rfl⟩

/-- A request line for a host without a path. -/
theorem parseRequestLine_hostOnly {c : HttpConn} {text : Nat} {line : Bytes}
    (hline : LineAt c text line) (hhost : HostOnly line) :
    parseRequestLine c text = .error .nullPointer := by
  obtain ⟨m, target, hrequests, hno⟩ := hhost
  rcases word_or_split line with hword | ⟨method, w, r, rfl, hm, hw, hne, hr⟩
  · exact absurd hword hrequests.not_word
  · obtain ⟨c₁, w', hrest, hw', -, -, hparse⟩ := parseRequestLine_split hline.string hm hw hne
    rw [requests_split hm hw hne hr] at hrequests
    obtain ⟨hmethod, htarget⟩ := hrequests
    rw [hparse]
    by_cases hget : EqualFold method (ascii "GET")
    · rw [if_pos hget]
      exact parseVersion_hostOnly hrest hw' htarget hno
    · have hpost : EqualFold method (ascii "POST") := by
        rcases hmethod with ⟨-, hfold⟩ | ⟨-, hfold⟩
        · exact absurd hfold hget
        · exact hfold
      rw [if_neg hget, if_pos hpost]
      exact parseVersion_hostOnly hrest hw' htarget hno

theorem AsksFor.unique {rest p p' : Bytes} (h : AsksFor rest p) (h' : AsksFor rest p') :
    p = p' := by
  obtain ⟨t, ht, hurl, -⟩ := h
  obtain ⟨t', ht', hurl', -⟩ := h'
  cases ht.unique ht'
  exact Option.some.inj (hurl.symm.trans hurl')

/-- A line whose method is known: the answer is the one to the text behind it. -/
theorem grammarOk_of_target {c c₁ : HttpConn} {text url : Nat} {line w r : Bytes}
    {method : Method} (hparse : parseRequestLine c text = parseVersion c₁ url)
    (hreq : ∀ m target, Requests line m target ↔ m = method ∧ TargetOf r target)
    (h : StringAt c₁.readBuf url (w ++ r)) (hw : Blank w) (hstarts : Starts r)
    (hroom : url + (w ++ r).length + 2 ≤ READ_BUFFER_SIZE)
    (hmethod : c₁.method = method) (hcgi : c₁.cgi = if method = .post then 1 else 0)
    (hhost : ¬ HostOnly line) : GrammarOk c text line := by
  have haccepts : ∀ m path, Accepts line m path ↔ m = method ∧ AsksFor r path := by
    intro m path
    simp only [Accepts, AsksFor, hreq, and_assoc, exists_and_left]
  have hhost' : ¬ ∃ target, TargetOf r target ∧ NoPath target := by
    rintro ⟨target, htarget, hno⟩
    exact hhost ⟨method, target, (hreq method target).mpr ⟨rfl, htarget⟩, hno⟩
  obtain ⟨code, c', hok, hanswer⟩ := parseVersion_answer h hw hstarts hroom hhost'
  refine ⟨code, c', hparse.trans hok, ?_⟩
  simp only [haccepts, exists_and_left, exists_eq_left]
  rcases hanswer with ⟨path, hasks, rfl, hset⟩ | ⟨hnone, rfl⟩
  · refine ⟨iff_of_true rfl ⟨path, hasks⟩, ?_, ?_⟩
    · exact iff_of_false nofun (not_not.mpr ⟨path, hasks⟩)
    · rintro m p ⟨rfl, hp⟩
      cases hasks.unique hp
      exact ⟨hset.state, hset.method.trans hmethod, hset.cgi.trans hcgi, hset.url⟩
  · refine ⟨iff_of_false nofun hnone, iff_of_true rfl hnone, ?_⟩
    rintro m p ⟨-, hp⟩
    exact absurd ⟨p, hp⟩ hnone

/-- A line that is rejected at its method. -/
theorem grammarOk_of_rejected {c c' : HttpConn} {text : Nat} {line : Bytes}
    (hparse : parseRequestLine c text = .ok (.badRequest, c'))
    (hreq : ∀ m target, ¬ Requests line m target) : GrammarOk c text line := by
  have hnone : ∀ m path, ¬ Accepts line m path := by
    rintro m path ⟨target, hrequests, -⟩
    exact hreq m target hrequests
  refine ⟨_, c', hparse, iff_of_false nofun ?_, iff_of_true rfl ?_, fun m path h => ?_⟩
  · rintro ⟨m, path, h⟩
    exact hnone m path h
  · rintro ⟨m, path, h⟩
    exact hnone m path h
  · exact absurd h (hnone m path)

/-- `parse_request_line` follows the grammar on a line that does not ask for a host without a
path. -/
theorem grammarOk_of_not_hostOnly {c : HttpConn} {text : Nat} {line : Bytes}
    (hline : LineAt c text line) (hcgi : c.cgi = 0) (hhost : ¬ HostOnly line) :
    GrammarOk c text line := by
  have hat := hline.string
  have hroom := hline.fits
  rcases word_or_split line with hword | ⟨m, w, r, rfl, hm, hw, hne, hr⟩
  · obtain ⟨c', hparse⟩ := parseRequestLine_word hat hword
    exact grammarOk_of_rejected hparse (fun m target h => h.not_word hword)
  · obtain ⟨c₁, w', hrest, hw', hlen, hcgi₁, hparse⟩ := parseRequestLine_split hat hm hw hne
    have hreq : ∀ method target, Requests (m ++ w ++ r) method target ↔
        (method = .get ∧ EqualFold m (ascii "GET") ∨
          method = .post ∧ EqualFold m (ascii "POST")) ∧ TargetOf r target :=
      fun method target => requests_split hm hw hne hr
    have hroom' : text + m.length + 1 + (w' ++ r).length + 2 ≤ READ_BUFFER_SIZE := by
      simp only [List.length_append] at hroom ⊢
      omega
    split_ifs at hparse with hget hpost
    · have hpost : ¬ EqualFold m (ascii "POST") := fun h => absurd (hget.symm.trans h) (by decide)
      refine grammarOk_of_target hparse (fun method target => ?_) hrest hw' hr hroom' rfl
        (hcgi₁.trans hcgi) hhost
      simp only [hreq, hget, hpost, and_true, and_false, or_false]
    · refine grammarOk_of_target hparse (fun method target => ?_) hrest hw' hr hroom' rfl rfl
        hhost
      simp only [hreq, hget, hpost, and_true, and_false, false_or]
    · refine grammarOk_of_rejected hparse (fun method target h => ?_)
      rw [hreq] at h
      simp only [hget, hpost, and_false, or_self, false_and] at h

/-- `parse_request_line` follows the grammar exactly when the line does not ask for a host
without a path. -/
theorem grammarOk_iff {c : HttpConn} {text : Nat} {line : Bytes} (hline : LineAt c text line)
    (hcgi : c.cgi = 0) : GrammarOk c text line ↔ ¬ HostOnly line := by
  constructor
  · rintro ⟨code, c', hok, -⟩ hhost
    rw [parseRequestLine_hostOnly hline hhost] at hok
    cases hok
  · exact grammarOk_of_not_hostOnly hline hcgi

/-- The line and the two bytes behind it, received into an empty buffer. -/
theorem lineAt_recv {line : Bytes} (hnul : NUL ∉ line)
    (hfits : line.length + 2 ≤ READ_BUFFER_SIZE) :
    LineAt (blank.init.recv (line ++ [NUL, NUL])) 0 line := by
  have hget : ∀ k, k ≤ line.length →
      (blank.init.recv (line ++ [NUL, NUL])).readBuf.get (0 + k) = line.getD k NUL := by
    intro k hk
    show ((CharBuf.zero READ_BUFFER_SIZE).write 0 (line ++ [NUL, NUL])).get (0 + k) = _
    have hrun : 0 + k < 0 + (line ++ [NUL, NUL]).length := by
      simp only [List.length_append, List.length_cons]
      omega
    rw [get_write, if_pos ⟨by omega, hrun, by omega⟩, Nat.sub_zero, Nat.zero_add]
    exact getD_append_replicate line 2 k
  exact ⟨⟨hnul, by omega, hget⟩, by omega⟩

theorem grammarOk_getPage :
    GrammarOk (blank.init.recv (ascii "GET /x HTTP/1.1" ++ [NUL, NUL])) 0
      (ascii "GET /x HTTP/1.1") := by
  refine (grammarOk_iff (lineAt_recv (by decide) (by decide)) rfl).mpr ?_
  rintro ⟨m, target, hrequests, hno⟩
  have hsplit : Requests (ascii "GET" ++ [32] ++ (ascii "/x" ++ [32] ++ ascii "HTTP/1.1")) m target :=
    hrequests
  rw [requests_split (by decide) (by decide) (by decide) (by decide),
    TargetOf.of_split (by decide) (by decide) (by decide) (by decide) (by decide)] at hsplit
  rw [hsplit.2.1] at hno
  exact absurd hno.1 (by decide)

/-- A proxy's request for a host: the test for `https://` reads a null pointer. -/
theorem not_grammarOk_host :
    ¬ GrammarOk (blank.init.recv (ascii "GET http://localhost HTTP/1.1" ++ [NUL, NUL])) 0
      (ascii "GET http://localhost HTTP/1.1") := by
  rintro ⟨code, c', hparse, -⟩
  have hfault : (parseRequestLine
      (blank.init.recv (ascii "GET http://localhost HTTP/1.1" ++ [NUL, NUL])) 0).isOk = false := by
    decide
  rw [hparse] at hfault
  cases hfault

end EasyWebServer.Post
