import EasyWebServer.Common.ParseLine
import EasyWebServer.Common.ProcessRead
import EasyWebServer.Get.Conn

/-!
# The request parser of the GET server

`parseLine`, `parseRequestLine`, `parseHeaders`, `parseContent` and the loop of
`process_read`, in the order of `http_conn.cpp`.

`parse_line` and the loop are those of `Common`, as in the POST server.  The other functions
follow the ones of the POST server: this parser accepts the method `GET` only, knows the scheme
`http://` only, and tests `m_url` before it is used, so `parseRequestLine` has no fault.
`parse_content` keeps no pointer to the body.
-/

namespace EasyWebServer.Get

open CString CInt HttpConn Common

/-! ## parse_line -/

/-- The members that `parse_line` works on. -/
def HttpConn.lineBuf (c : HttpConn) : LineBuf READ_BUFFER_SIZE :=
  ⟨c.readBuf, c.readIdx, c.checkedIdx⟩

/-- The connection that `parse_line` leaves. -/
def HttpConn.withLine (c : HttpConn) (b : LineBuf READ_BUFFER_SIZE) : HttpConn :=
  { c with readBuf := b.readBuf, checkedIdx := b.checkedIdx }

/-- `parse_line`. -/
def parseLine (c : HttpConn) : LineStatus × HttpConn :=
  let (status, b) := c.lineBuf.parseLine
  (status, c.withLine b)

/-! ## parse_request_line -/

/-- The block that skips `http://`: when `m_url` starts with it, it moves to the first
`/` behind it, or to null. -/
def skipHttp (c : HttpConn) (url : Nat) : Option Nat :=
  if strncasecmp (c.text url) (ascii "http://") then
    let url := url + 7
    (strchr (c.text url) slash).map (fun k => url + k)
  else some url

/-- The end of `parse_request_line`: the path must start with `/`. -/
def finishPath (c : HttpConn) : HttpCode × HttpConn :=
  match c.url with
  | none => (.badRequest, c)
  | some url =>
      if c.readBuf.get url ≠ slash then (.badRequest, c)
      else (.noRequest, { c with checkState := .header })

/-- The part of `parse_request_line` behind the method: it cuts the URL from the
version and checks the version. -/
def parseVersion (c : HttpConn) (url : Nat) : HttpCode × HttpConn :=
  let url := url + strspn (c.text url) blanks
  match strpbrk (c.text url) blanks with
  | none => (.badRequest, { c with url := some url, version := none })
  | some k =>
      let c := c.store (url + k) NUL
      let version := url + k + 1 + strspn (c.text (url + k + 1)) blanks
      let c := { c with url := some url, version := some version }
      if strcasecmp (c.text version) (ascii "HTTP/1.1") then
        finishPath { c with url := skipHttp c url }
      else (.badRequest, c)

/-- `parse_request_line`. -/
def parseRequestLine (c : HttpConn) (text : Nat) : HttpCode × HttpConn :=
  match strpbrk (c.text text) blanks with
  | none => (.badRequest, { c with url := none })
  | some k =>
      let url := text + k + 1
      let c := { c.store (text + k) NUL with url := some url }
      if strcasecmp (c.text text) (ascii "GET") then
        parseVersion { c with method := .get } url
      else (.badRequest, c)

/-! ## parse_headers -/

/-- `text += n; text += strspn(text, " \t")`. -/
def skipName (c : HttpConn) (text n : Nat) : Nat :=
  text + n + strspn (c.text (text + n)) blanks

/-- `parse_headers`.  The value of `atol` is converted to the `int` member.  A header
that it does not know is only printed. -/
def parseHeaders (c : HttpConn) (text : Nat) : HttpCode × HttpConn :=
  if c.readBuf.get text = NUL then
    if c.method = .head then (.getRequest, c)
    else if c.contentLength ≠ 0 then (.noRequest, { c with checkState := .content })
    else (.getRequest, c)
  else if strncasecmp (c.text text) (ascii "Connection:") then
    let text := skipName c text 11
    if strcasecmp (c.text text) (ascii "keep-alive") then
      (.noRequest, { c with linger := true })
    else (.noRequest, c)
  else if strncasecmp (c.text text) (ascii "Content-Length:") then
    let text := skipName c text 15
    (.noRequest, { c with contentLength := wrap32 (atol (c.text text)) })
  else if strncasecmp (c.text text) (ascii "Host:") then
    let text := skipName c text 5
    (.noRequest, { c with host := some text })
  else (.noRequest, c)

/-! ## parse_content -/

/-- `parse_content`.  It only tests that the body has arrived. -/
def parseContent (c : HttpConn) (text : Nat) : Except Fault (HttpCode × HttpConn) :=
  if wrap32 (c.contentLength + c.checkedIdx) ≤ c.readIdx then
    let i : Int := text + c.contentLength
    if 0 ≤ i ∧ i < READ_BUFFER_SIZE then .ok (.getRequest, c.store i.toNat NUL)
    else .error .outOfBounds
  else .ok (.noRequest, c)

/-! ## The members that the parser keeps -/

/-- Two connections with the same scanner indices and the same file name. -/
def SameIndices (c c' : HttpConn) : Prop :=
  c'.readIdx = c.readIdx ∧ c'.checkedIdx = c.checkedIdx ∧ c'.startLine = c.startLine ∧
    c'.realFile = c.realFile

theorem SameIndices.trans {a b c : HttpConn} (h : SameIndices a b) (h' : SameIndices b c) :
    SameIndices a c :=
  ⟨h'.1.trans h.1, h'.2.1.trans h.2.1, h'.2.2.1.trans h.2.2.1, h'.2.2.2.trans h.2.2.2⟩

theorem finishPath_indices (c : HttpConn) : SameIndices c (finishPath c).2 := by
  unfold finishPath
  split
  · exact ⟨rfl, rfl, rfl, rfl⟩
  · split_ifs <;> exact ⟨rfl, rfl, rfl, rfl⟩

theorem parseVersion_indices (c : HttpConn) (url : Nat) :
    SameIndices c (parseVersion c url).2 := by
  unfold parseVersion
  simp only
  split
  · exact ⟨rfl, rfl, rfl, rfl⟩
  · split_ifs
    · refine SameIndices.trans ?_ (finishPath_indices _)
      exact ⟨rfl, rfl, rfl, rfl⟩
    · exact ⟨rfl, rfl, rfl, rfl⟩

theorem parseRequestLine_indices (c : HttpConn) (text : Nat) :
    SameIndices c (parseRequestLine c text).2 := by
  unfold parseRequestLine
  simp only
  split
  · exact ⟨rfl, rfl, rfl, rfl⟩
  · split_ifs
    · refine SameIndices.trans ?_ (parseVersion_indices _ _)
      exact ⟨rfl, rfl, rfl, rfl⟩
    · exact ⟨rfl, rfl, rfl, rfl⟩

/-- `parse_headers` writes no byte and moves no index. -/
theorem parseHeaders_frame (c : HttpConn) (text : Nat) :
    SameIndices c (parseHeaders c text).2 ∧ (parseHeaders c text).2.readBuf = c.readBuf := by
  unfold parseHeaders
  simp only
  split_ifs <;> exact ⟨⟨rfl, rfl, rfl, rfl⟩, rfl⟩

theorem parseContent_indices {c c' : HttpConn} {text : Nat} {code : HttpCode}
    (h : parseContent c text = .ok (code, c')) : SameIndices c c' := by
  unfold parseContent at h
  simp only at h
  split_ifs at h <;> cases h <;> exact ⟨rfl, rfl, rfl, rfl⟩

theorem parseHeaders_checkState (c : HttpConn) (text : Nat) :
    (parseHeaders c text).2.checkState = c.checkState ∨
      (parseHeaders c text).2.checkState = .content := by
  unfold parseHeaders
  simp only
  split_ifs
  · exact Or.inl rfl
  · exact Or.inr rfl
  all_goals exact Or.inl rfl

theorem parseContent_checkState {c c' : HttpConn} {text : Nat} {code : HttpCode}
    (h : parseContent c text = .ok (code, c')) : c'.checkState = c.checkState := by
  unfold parseContent at h
  simp only at h
  split_ifs at h <;> cases h <;> rfl

/-- A complete line moves `m_checked_idx` forward, inside the received bytes. -/
theorem parseLine_ok_advance {c c' : HttpConn} (h : parseLine c = (.lineOk, c')) :
    c.checkedIdx < c'.checkedIdx ∧ c'.checkedIdx ≤ c'.readIdx ∧ c'.readIdx = c.readIdx := by
  obtain ⟨b, rfl, h1, h2⟩ := LineBuf.parseLine_ok_of h
  exact ⟨h1, h2, rfl⟩

/-! ## process_read -/

/-- The members and the functions that `process_read` uses. -/
abbrev parser : Parser HttpConn where
  readIdx := HttpConn.readIdx
  checkedIdx := HttpConn.checkedIdx
  startLine := getLine
  checkState := HttpConn.checkState
  nextLine c := { c with startLine := c.checkedIdx }
  parseLine := parseLine
  parseRequestLine c text := .ok (parseRequestLine c text)
  parseHeaders := parseHeaders
  parseContent := parseContent
  nextLine_members _ := ⟨rfl, rfl, rfl, rfl⟩
  parseLine_ok := parseLine_ok_advance
  requestLine_indices {c c' text code} hp := by
    have hidx := parseRequestLine_indices c text
    rw [Except.ok.inj hp] at hidx
    exact ⟨hidx.1, hidx.2.1, hidx.2.2.1⟩
  headers_indices c text :=
    have hidx := (parseHeaders_frame c text).1
    ⟨hidx.1, hidx.2.1, hidx.2.2.1⟩
  content_indices hp :=
    have hidx := parseContent_indices hp
    ⟨hidx.1, hidx.2.1, hidx.2.2.1⟩
  headers_checkState := parseHeaders_checkState
  content_checkState := parseContent_checkState

abbrev ReadState := Common.ReadState HttpConn

abbrev ReadExit := Common.ReadExit HttpConn

/-- The body of the loop of `process_read`. -/
def dispatchLine (s : ReadState) : ReadState ⊕ Except Fault ReadExit := parser.dispatchLine s

/-- The loop condition of `process_read`, and the body. -/
def processReadBody (s : ReadState) : ReadState ⊕ Except Fault ReadExit :=
  parser.processReadBody s

/-- The loop of `process_read` from a given `line_status` on. -/
def readFrom (s : ReadState) : Except Fault ReadExit := parser.readFrom s

/-- `process_read` up to the call of `do_request`. -/
def processReadLoop (c : HttpConn) : Except Fault ReadExit := readFrom ⟨.lineOk, c⟩

/-! ## The branches of the loop body -/

theorem dispatchLine_requestLine {s : ReadState} (h : s.conn.checkState = .requestLine) :
    dispatchLine s = afterRequestLine s.lineStatus
      (.ok (parseRequestLine { s.conn with startLine := s.conn.checkedIdx } s.conn.getLine)) :=
  Parser.dispatchLine_requestLine (p := parser) h

theorem dispatchLine_header {s : ReadState} (h : s.conn.checkState = .header) :
    dispatchLine s = afterHeaders s.lineStatus
      (parseHeaders { s.conn with startLine := s.conn.checkedIdx } s.conn.getLine) :=
  Parser.dispatchLine_header (p := parser) h

theorem dispatchLine_content {s : ReadState} (h : s.conn.checkState = .content) :
    dispatchLine s = afterContent
      (parseContent { s.conn with startLine := s.conn.checkedIdx } s.conn.getLine) :=
  Parser.dispatchLine_content (p := parser) h

/-- The loop condition, and the body. -/
theorem processReadBody_eq (s : ReadState) : processReadBody s =
    if s.conn.checkState = .content ∧ s.lineStatus = .lineOk then dispatchLine s
    else
      match parseLine s.conn with
      | (.lineOk, c) => dispatchLine ⟨.lineOk, c⟩
      | (_, c) => .inr (.ok (.returned .noRequest c)) := by
  refine if_congr Iff.rfl rfl ?_
  show parser.afterLine (parseLine s.conn) = _
  generalize parseLine s.conn = r
  obtain ⟨st, c⟩ := r
  cases st <;> rfl

/-- The loop of `process_read` terminates within its bound, and its result is the one
the unbounded loop gives. -/
theorem readFrom_returns (s : ReadState) : Loop.Returns processReadBody s (readFrom s) :=
  parser.readFrom_returns s

end EasyWebServer.Get
