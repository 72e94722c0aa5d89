import EasyWebServer.Common.ParseLine
import EasyWebServer.Common.ProcessRead
import EasyWebServer.Post.Conn

/-!
# The request parser of the POST server

`parseLine`, `parseRequestLine`, `parseHeaders`, `parseContent` and the loop of
`process_read`, in the order of `http_conn.cpp`.  A `char *` argument is the
index into `m_read_buf`, and every string function reads the buffer through
`HttpConn.text`.

`parse_line` and the loop of `process_read` are those of `Common`, applied to the members and
the functions of this class: `parser` lists them.

* `LineScan` lists the exits of `parse_line` on a connection.
* `TargetParsed` and `LineParsed` say what `parse_request_line` leaves.
* The branches of the loop body are the last section.
-/

namespace EasyWebServer.Post

open CString CInt HttpConn Common

/-! ## parse_line -/

/-- The members that `parse_line` works on. -/
def HttpConn.lineBuf (c : HttpConn) : LineBuf READ_BUFFER_SIZE :=
  ⟨c.readBuf, c.readIdx, c.checkedIdx⟩

/-- The connection that `parse_line` leaves. -/
def HttpConn.withLine (c : HttpConn) (b : LineBuf READ_BUFFER_SIZE) : HttpConn :=
  { c with readBuf := b.readBuf, checkedIdx := b.checkedIdx }

/-- `parse_line`. -/
def parseLine (c : HttpConn) : LineStatus × HttpConn :=
  let (status, b) := c.lineBuf.parseLine
  (status, c.withLine b)

/-! ## parse_request_line -/

/-- The two blocks that skip `http://` and `https://`: when `m_url` starts with
the scheme, it moves to the first `/` behind it, or to null.  `strncasecmp` on
a null `m_url` is a fault. -/
def skipScheme (c : HttpConn) (scheme : Bytes) :
    Option Nat → Except Fault (Option Nat)
  | none => .error .nullPointer
  | some url =>
      if strncasecmp (c.text url) scheme then
        let url := url + scheme.length
        .ok ((strchr (c.text url) slash).map (fun k => url + k))
      else .ok (some url)

/-- `strcat(m_url, "judge.html")`. -/
def appendJudge (c : HttpConn) (url : Nat) : HttpConn :=
  { c with
    readBuf := c.readBuf.write (url + strlen (c.text url))
      (ascii "judge.html" ++ [NUL]) }

/-- The end of `parse_request_line`: the path must start with `/`, and a bare
`/` becomes `/judge.html`. -/
def finishPath (c : HttpConn) : HttpCode × HttpConn :=
  match c.url with
  | none => (.badRequest, c)
  | some url =>
      if c.readBuf.get url ≠ slash then (.badRequest, c)
      else
        let c := if strlen (c.text url) = 1 then appendJudge c url else c
        (.noRequest, { c with checkState := .header })

/-- The path part of `parse_request_line`, from the scheme tests on. -/
def parsePath (c : HttpConn) (url : Nat) : Except Fault (HttpCode × HttpConn) :=
  match skipScheme c (ascii "http://") (some url) with
  | .error f => .error f
  | .ok url =>
      match skipScheme c (ascii "https://") url with
      | .error f => .error f
      | .ok url => .ok (finishPath { c with url := url })

/-- The part of `parse_request_line` behind the method: it cuts the URL from
the version and checks the version. -/
def parseVersion (c : HttpConn) (url : Nat) :
    Except Fault (HttpCode × HttpConn) :=
  let url := url + strspn (c.text url) blanks
  match strpbrk (c.text url) blanks with
  | none => .ok (.badRequest, { c with url := some url, version := none })
  | some k =>
      let c := c.store (url + k) NUL
      let version := url + k + 1 + strspn (c.text (url + k + 1)) blanks
      let c := { c with url := some url, version := some version }
      if strcasecmp (c.text version) (ascii "HTTP/1.1") then parsePath c url
      else .ok (.badRequest, c)

/-- `parse_request_line`. -/
def parseRequestLine (c : HttpConn) (text : Nat) :
    Except Fault (HttpCode × HttpConn) :=
  match strpbrk (c.text text) blanks with
  | none => .ok (.badRequest, { c with url := none })
  | some k =>
      let url := text + k + 1
      let c := { c.store (text + k) NUL with url := some url }
      if strcasecmp (c.text text) (ascii "GET") then
        parseVersion { c with method := .get } url
      else if strcasecmp (c.text text) (ascii "POST") then
        parseVersion { c with method := .post, cgi := 1 } url
      else .ok (.badRequest, c)

/-! ## parse_headers -/

/-- `text += n; text += strspn(text, " \t")`. -/
def skipName (c : HttpConn) (text n : Nat) : Nat :=
  text + n + strspn (c.text (text + n)) blanks

/-- `parse_headers`.  A header it does not know is only logged. -/
def parseHeaders (c : HttpConn) (text : Nat) : HttpCode × HttpConn :=
  if c.readBuf.get text = NUL then
    if c.contentLength ≠ 0 then (.noRequest, { c with checkState := .content })
    else (.getRequest, c)
  else if strncasecmp (c.text text) (ascii "Connection:") then
    let text := skipName c text 11
    if strcasecmp (c.text text) (ascii "keep-alive") then
      (.noRequest, { c with linger := true })
    else (.noRequest, c)
  else if strncasecmp (c.text text) (ascii "Content-length:") then
    let text := skipName c text 15
    (.noRequest, { c with contentLength := atoi (c.text text) })
  else if strncasecmp (c.text text) (ascii "Host:") then
    let text := skipName c text 5
    (.noRequest, { c with host := some text })
  else (.noRequest, c)

/-! ## parse_content -/

/-- `parse_content`.  The sum is an `int` sum, and the terminator is stored at
`text + m_content_length`, which a client can move out of the buffer. -/
def parseContent (c : HttpConn) (text : Nat) :
    Except Fault (HttpCode × HttpConn) :=
  if wrap32 (c.contentLength + c.checkedIdx) ≤ c.readIdx then
    let i : Int := text + c.contentLength
    if 0 ≤ i ∧ i < READ_BUFFER_SIZE then
      .ok (.getRequest, { c.store i.toNat NUL with string := some text })
    else .error .outOfBounds
  else .ok (.noRequest, c)

/-! ## The exits of parse_line -/

/-- No byte of `[i, j)` is a CR or an LF. -/
def Plain (c : HttpConn) (i j : Nat) : Prop := LineBuf.Plain c.readBuf i j

/-- The exits of `parse_line`, when the first CR or LF is at index `i`, or `i`
is `m_read_idx` and there is none. -/
inductive LineScan (c : HttpConn) (i : Nat) : LineStatus × HttpConn → Prop where
  | exhausted (hi : i = c.readIdx) :
      LineScan c i (.lineOpen, { c with checkedIdx := i })
  | lastCr (hi : i + 1 = c.readIdx) (hcr : c.readBuf.get i = CR) :
      LineScan c i (.lineOpen, { c with checkedIdx := i })
  | crlf (hi : i + 1 < c.readIdx) (hcr : c.readBuf.get i = CR)
      (hlf : c.readBuf.get (i + 1) = LF) :
      LineScan c i (.lineOk,
        { (c.store i NUL).store (i + 1) NUL with checkedIdx := i + 2 })
  | strayCr (hi : i + 1 < c.readIdx) (hcr : c.readBuf.get i = CR)
      (hlf : c.readBuf.get (i + 1) ≠ LF) :
      LineScan c i (.lineBad, { c with checkedIdx := i })
  | lfAfterCr (hi : i < c.readIdx) (hlf : c.readBuf.get i = LF)
      (hcr : 1 < i ∧ c.readBuf.get (i - 1) = CR) :
      LineScan c i (.lineOk,
        { (c.store (i - 1) NUL).store i NUL with checkedIdx := i + 1 })
  | strayLf (hi : i < c.readIdx) (hlf : c.readBuf.get i = LF)
      (hcr : ¬(1 < i ∧ c.readBuf.get (i - 1) = CR)) :
      LineScan c i (.lineBad, { c with checkedIdx := i })

/-- What `parse_line` does, on every buffer. -/
theorem parseLine_scan {c : HttpConn} (h : c.checkedIdx ≤ c.readIdx) :
    ∃ i, c.checkedIdx ≤ i ∧ i ≤ c.readIdx ∧ Plain c c.checkedIdx i ∧
      LineScan c i (parseLine c) := by
  obtain ⟨i, h1, h2, hplain, hscan⟩ := LineBuf.parseLine_scan (b := c.lineBuf) h
  refine ⟨i, h1, h2, hplain, ?_⟩
  unfold parseLine
  generalize c.lineBuf.parseLine = r at hscan
  cases hscan with
  | exhausted hi => exact .exhausted hi
  | lastCr hi hcr => exact .lastCr hi hcr
  | crlf hi hcr hlf => exact .crlf hi hcr hlf
  | strayCr hi hcr hlf => exact .strayCr hi hcr hlf
  | lfAfterCr hi hlf hcr => exact .lfAfterCr hi hlf hcr
  | strayLf hi hlf hcr => exact .strayLf hi hlf hcr

/-- Behind the received bytes, `parse_line` finds nothing. -/
theorem parseLine_behind {c : HttpConn} (h : c.readIdx ≤ c.checkedIdx) :
    parseLine c = (.lineOpen, c) := by
  rw [parseLine, LineBuf.parseLine_behind (b := c.lineBuf) h]
  rfl

/-- `parse_line` may start behind bytes that are neither CR nor LF. -/
theorem parseLine_skip {c : HttpConn} {i : Nat} (h1 : c.checkedIdx ≤ i)
    (h2 : i ≤ c.readIdx) (hplain : Plain c c.checkedIdx i) :
    parseLine c = parseLine { c with checkedIdx := i } := by
  rw [parseLine, LineBuf.parseLine_skip (b := c.lineBuf) h1 h2 hplain]
  rfl

/-- The CR LF behind such bytes is consumed. -/
theorem parseLine_plain {c : HttpConn} {i : Nat} (h1 : c.checkedIdx ≤ i)
    (hi : i + 1 < c.readIdx) (hplain : Plain c c.checkedIdx i)
    (hcr : c.readBuf.get i = CR) (hlf : c.readBuf.get (i + 1) = LF) :
    parseLine c = (.lineOk,
      { (c.store i NUL).store (i + 1) NUL with checkedIdx := i + 2 }) := by
  rw [parseLine, LineBuf.parseLine_crlf (b := c.lineBuf) h1 hi hplain hcr hlf]
  rfl

/-- A complete line moves `m_checked_idx` forward, inside the received
bytes. -/
theorem parseLine_ok_advance {c c' : HttpConn}
    (h : parseLine c = (.lineOk, c')) :
    c.checkedIdx < c'.checkedIdx ∧ c'.checkedIdx ≤ c'.readIdx ∧
      c'.readIdx = c.readIdx := by
  obtain ⟨b, rfl, h1, h2⟩ := LineBuf.parseLine_ok_of h
  exact ⟨h1, h2, rfl⟩

/-! ## What the parsers change, and the indices they keep -/

/-- Two connections with the same scanner indices. -/
def SameIndices (c c' : HttpConn) : Prop :=
  c'.readIdx = c.readIdx ∧ c'.checkedIdx = c.checkedIdx ∧
    c'.startLine = c.startLine

/-- What `parse_request_line` leaves behind the method: it may have stored bytes and
set the two pointers, and an accepted line moves to `CHECK_STATE_HEADER`. -/
inductive TargetParsed (c : HttpConn) : HttpCode → HttpConn → Prop where
  | refused (b : CharBuf READ_BUFFER_SIZE) (url version : Option Nat) :
      TargetParsed c .badRequest { c with readBuf := b, url := url, version := version }
  | accepted (b : CharBuf READ_BUFFER_SIZE) (url version : Option Nat) :
      TargetParsed c .noRequest
        { c with readBuf := b, url := url, version := version, checkState := .header }

theorem finishPath_parsed (c : HttpConn) :
    TargetParsed c (finishPath c).1 (finishPath c).2 := by
  unfold finishPath
  split
  · exact .refused c.readBuf c.url c.version
  · split
    · exact .refused c.readBuf c.url c.version
    · simp only
      split
      · exact .accepted _ c.url c.version
      · exact .accepted c.readBuf c.url c.version

/-- Bytes and pointers that were stored before do not matter. -/
theorem TargetParsed.before {c c' : HttpConn} {code : HttpCode}
    {b : CharBuf READ_BUFFER_SIZE} {url version : Option Nat}
    (h : TargetParsed { c with readBuf := b, url := url, version := version } code c') :
    TargetParsed c code c' := by
  cases h with
  | refused b url version => exact .refused b url version
  | accepted b url version => exact .accepted b url version

theorem parsePath_parsed {c c' : HttpConn} {url : Nat} {code : HttpCode}
    (h : parsePath c url = .ok (code, c')) : TargetParsed c code c' := by
  unfold parsePath at h
  split at h
  · cases h
  · split at h
    · cases h
    · rename_i u _
      have hf := finishPath_parsed { c with url := u }
      rw [Except.ok.inj h] at hf
      exact hf.before

theorem parseVersion_parsed {c c' : HttpConn} {url : Nat} {code : HttpCode}
    (h : parseVersion c url = .ok (code, c')) : TargetParsed c code c' := by
  unfold parseVersion at h
  simp only at h
  split at h
  · cases h
    exact .refused c.readBuf _ none
  · split at h
    · have hp := parsePath_parsed h
      exact TargetParsed.before (c := c) hp
    · cases h
      exact .refused _ _ _

/-- What `parse_request_line` leaves: a method it does not know is refused, and
`cgi` is set for a POST only. -/
inductive LineParsed (c : HttpConn) : HttpCode → HttpConn → Prop where
  | unknown (b : CharBuf READ_BUFFER_SIZE) (url : Option Nat) :
      LineParsed c .badRequest { c with readBuf := b, url := url }
  | get {code : HttpCode} {c' : HttpConn} :
      TargetParsed { c with method := .get } code c' → LineParsed c code c'
  | post {code : HttpCode} {c' : HttpConn} :
      TargetParsed { c with method := .post, cgi := 1 } code c' → LineParsed c code c'

theorem parseRequestLine_parsed {c c' : HttpConn} {text : Nat}
    {code : HttpCode} (h : parseRequestLine c text = .ok (code, c')) :
    LineParsed c code c' := by
  unfold parseRequestLine at h
  simp only at h
  split at h
  · cases h
    exact .unknown c.readBuf none
  · split at h
    · have hv := parseVersion_parsed h
      exact .get (TargetParsed.before hv)
    · split at h
      · have hv := parseVersion_parsed h
        exact .post (TargetParsed.before hv)
      · cases h
        exact .unknown _ _

theorem parseRequestLine_indices {c c' : HttpConn} {text : Nat}
    {code : HttpCode} (h : parseRequestLine c text = .ok (code, c')) :
    SameIndices c c' := by
  cases parseRequestLine_parsed h with
  | unknown b url => exact ⟨rfl, rfl, rfl⟩
  | get ht => cases ht <;> exact ⟨rfl, rfl, rfl⟩
  | post ht => cases ht <;> exact ⟨rfl, rfl, rfl⟩

/-- `parse_headers` writes no byte and moves no index. -/
theorem parseHeaders_frame (c : HttpConn) (text : Nat) :
    SameIndices c (parseHeaders c text).2 ∧
      (parseHeaders c text).2.readBuf = c.readBuf := by
  unfold parseHeaders
  simp only
  split_ifs <;> exact ⟨⟨rfl, rfl, rfl⟩, rfl⟩

theorem parseContent_indices {c c' : HttpConn} {text : Nat} {code : HttpCode}
    (h : parseContent c text = .ok (code, c')) : SameIndices c c' := by
  unfold parseContent at h
  simp only at h
  split_ifs at h <;> cases h <;> exact ⟨rfl, rfl, rfl⟩

theorem parseHeaders_checkState (c : HttpConn) (text : Nat) :
    (parseHeaders c text).2.checkState = c.checkState ∨
      (parseHeaders c text).2.checkState = .content := by
  unfold parseHeaders
  simp only
  split_ifs
  · exact Or.inr rfl
  all_goals exact Or.inl rfl

theorem parseContent_checkState {c c' : HttpConn} {text : Nat} {code : HttpCode}
    (h : parseContent c text = .ok (code, c')) : c'.checkState = c.checkState := by
  unfold parseContent at h
  simp only at h
  split_ifs at h <;> cases h <;> rfl

/-! ## process_read -/

/-- The members and the functions that `process_read` uses. -/
abbrev parser : Parser HttpConn where
  readIdx := HttpConn.readIdx
  checkedIdx := HttpConn.checkedIdx
  startLine := getLine
  checkState := HttpConn.checkState
  nextLine c := { c with startLine := c.checkedIdx }
  parseLine := parseLine
  parseRequestLine := parseRequestLine
  parseHeaders := parseHeaders
  parseContent := parseContent
  nextLine_members _ := ⟨rfl, rfl, rfl, rfl⟩
  parseLine_ok := parseLine_ok_advance
  requestLine_indices := parseRequestLine_indices
  headers_indices c text := (parseHeaders_frame c text).1
  content_indices := parseContent_indices
  headers_checkState := parseHeaders_checkState
  content_checkState := parseContent_checkState

abbrev ReadState := Common.ReadState HttpConn

abbrev ReadExit := Common.ReadExit HttpConn

/-- The body of the loop of `process_read`. -/
def dispatchLine (s : ReadState) : ReadState ⊕ Except Fault ReadExit := parser.dispatchLine s

/-- The loop condition of `process_read`, and the body. -/
def processReadBody (s : ReadState) : ReadState ⊕ Except Fault ReadExit :=
  parser.processReadBody s

/-- The loop of `process_read` from a given `line_status` on. -/
def readFrom (s : ReadState) : Except Fault ReadExit := parser.readFrom s

/-- `process_read` up to the call of `do_request`. -/
def processReadLoop (c : HttpConn) : Except Fault ReadExit := readFrom ⟨.lineOk, c⟩

/-! ## The branches of the loop body -/

theorem dispatchLine_requestLine {s : ReadState} (h : s.conn.checkState = .requestLine) :
    dispatchLine s = afterRequestLine s.lineStatus
      (parseRequestLine { s.conn with startLine := s.conn.checkedIdx } s.conn.getLine) :=
  Parser.dispatchLine_requestLine (p := parser) h

theorem dispatchLine_header {s : ReadState} (h : s.conn.checkState = .header) :
    dispatchLine s = afterHeaders s.lineStatus
      (parseHeaders { s.conn with startLine := s.conn.checkedIdx } s.conn.getLine) :=
  Parser.dispatchLine_header (p := parser) h

theorem dispatchLine_content {s : ReadState} (h : s.conn.checkState = .content) :
    dispatchLine s = afterContent
      (parseContent { s.conn with startLine := s.conn.checkedIdx } s.conn.getLine) :=
  Parser.dispatchLine_content (p := parser) h

/-- The loop condition, and the body. -/
theorem processReadBody_eq (s : ReadState) : processReadBody s =
    if s.conn.checkState = .content ∧ s.lineStatus = .lineOk then dispatchLine s
    else
      match parseLine s.conn with
      | (.lineOk, c) => dispatchLine ⟨.lineOk, c⟩
      | (_, c) => .inr (.ok (.returned .noRequest c)) := by
  refine if_congr Iff.rfl rfl ?_
  show parser.afterLine (parseLine s.conn) = _
  generalize parseLine s.conn = r
  obtain ⟨st, c⟩ := r
  cases st <;> rfl

/-- An iteration that goes on keeps `m_read_idx` and `m_checked_idx`, and a
content iteration leaves `line_status` at `LINE_OPEN`. -/
theorem dispatchLine_inl {s s' : ReadState} (h : dispatchLine s = .inl s') :
    s'.conn.readIdx = s.conn.readIdx ∧
      s'.conn.checkedIdx = s.conn.checkedIdx ∧
      s'.conn.startLine = s.conn.checkedIdx ∧
      (s.conn.checkState = .content → s'.lineStatus = .lineOpen) :=
  Parser.dispatchLine_inl (p := parser) h

/-- The loop of `process_read` terminates within its bound, and its result is
the one the unbounded loop gives. -/
theorem readFrom_returns (s : ReadState) :
    Loop.Returns processReadBody s (readFrom s) :=
  parser.readFrom_returns s

theorem readFrom_eq {s : ReadState} {r : Except Fault ReadExit}
    (h : Loop.Returns processReadBody s r) : readFrom s = r :=
  Parser.readFrom_eq (p := parser) h

/-- One iteration that goes on may be taken off the front of the loop. -/
theorem readFrom_next {s s' : ReadState} (h : processReadBody s = .inl s') :
    readFrom s = readFrom s' :=
  Parser.readFrom_next (p := parser) h

theorem readFrom_done {s : ReadState} {r : Except Fault ReadExit}
    (h : processReadBody s = .inr r) : readFrom s = r :=
  Parser.readFrom_done (p := parser) h

/-- The loop of `process_read` returns `NO_REQUEST` or `BAD_REQUEST`. -/
theorem processReadLoop_code {c c' : HttpConn} {code : HttpCode}
    (h : processReadLoop c = .ok (.returned code c')) :
    code = .noRequest ∨ code = .badRequest :=
  Parser.processReadLoop_code (p := parser) h

/-- Every function of the parser keeps the property. -/
abbrev LoopInv (inv : HttpConn → Prop) : Prop := Common.LoopInv parser inv

end EasyWebServer.Post
