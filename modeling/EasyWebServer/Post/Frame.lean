import EasyWebServer.Post.Parser

/-!
# What the parser leaves alone

The parser of the POST server works on the read buffer and on the members of the
request.  `Rest` is the other part of the connection object: the socket, the
write buffer, the file, the vectors, and `m_string`, which `parse_content` sets
and no function of the parser reads.

Each `_withRest` theorem says that one function of the parser does not look at
this part: replacing it before the call or behind the call is the same.
`processReadLoop_withRest` says it of the loop of `process_read`, and
`returned_rest` and `request_rest` say what the loop does to this part.
-/

namespace EasyWebServer.Post

open CString CInt HttpConn Common

/-- The members that the parser does not read. -/
structure Rest where
  sockfd : Option Nat
  writeBuf : CharBuf WRITE_BUFFER_SIZE
  writeIdx : Nat
  realFile : CharBuf FILENAME_LEN
  fileAddress : FileAddress
  fileStat : FileStat
  iv0 : Iovec
  iv1 : Iovec
  ivCount : Nat
  string : Option Nat
  bytesToSend : Int
  bytesHaveSend : Int

namespace HttpConn

/-- The rest of a connection. -/
def rest (c : HttpConn) : Rest :=
  ⟨c.sockfd, c.writeBuf, c.writeIdx, c.realFile, c.fileAddress, c.fileStat, c.iv0, c.iv1,
    c.ivCount, c.string, c.bytesToSend, c.bytesHaveSend⟩

/-- A connection with another rest. -/
def withRest (c : HttpConn) (r : Rest) : HttpConn :=
  { c with
    sockfd := r.sockfd
    writeBuf := r.writeBuf
    writeIdx := r.writeIdx
    realFile := r.realFile
    fileAddress := r.fileAddress
    fileStat := r.fileStat
    iv0 := r.iv0
    iv1 := r.iv1
    ivCount := r.ivCount
    string := r.string
    bytesToSend := r.bytesToSend
    bytesHaveSend := r.bytesHaveSend }

@[simp] theorem rest_withRest (c : HttpConn) (r : Rest) : (c.withRest r).rest = r := rfl

@[simp] theorem withRest_rest (c : HttpConn) : c.withRest c.rest = c := rfl

end HttpConn

/-- Replace the rest in an answer of the parser. -/
def pairRest {α : Type} (r : Rest) (p : α × HttpConn) : α × HttpConn := (p.1, p.2.withRest r)

/-- Replace the rest in an answer that may be a fault. -/
def mapRest (r : Rest) (p : Except Fault (HttpCode × HttpConn)) :
    Except Fault (HttpCode × HttpConn) := p.map (pairRest r)

variable (r : Rest)

/-! ## The functions of the parser -/

theorem parseLine_withRest (c : HttpConn) :
    parseLine (c.withRest r) = pairRest r (parseLine c) := rfl

theorem skipScheme_withRest (c : HttpConn) (scheme : Bytes) (url : Option Nat) :
    skipScheme (c.withRest r) scheme url = skipScheme c scheme url := by
  cases url <;> rfl

theorem finishPath_withRest (c : HttpConn) :
    finishPath (c.withRest r) = pairRest r (finishPath c) := by
  have hurl : (c.withRest r).url = c.url := rfl
  unfold finishPath
  rw [hurl]
  split
  · rfl
  · rename_i url _
    have hjudge : (if strlen ((c.withRest r).text url) = 1 then
          appendJudge (c.withRest r) url else c.withRest r) =
        (if strlen (c.text url) = 1 then appendJudge c url else c).withRest r := by
      rw [apply_ite (fun c => HttpConn.withRest c r)]
      rfl
    simp only [apply_ite (pairRest r), hjudge]
    rfl

theorem parsePath_withRest (c : HttpConn) (url : Nat) :
    parsePath (c.withRest r) url = mapRest r (parsePath c url) := by
  unfold parsePath
  rw [skipScheme_withRest]
  generalize skipScheme c (ascii "http://") (some url) = p
  rcases p with f | u
  · rfl
  · simp only [skipScheme_withRest]
    generalize skipScheme c (ascii "https://") u = p
    rcases p with f | u
    · rfl
    · exact congrArg Except.ok (finishPath_withRest r { c with url := u })

theorem parseVersion_withRest (c : HttpConn) (url : Nat) :
    parseVersion (c.withRest r) url = mapRest r (parseVersion c url) := by
  have htext : (c.withRest r).text = c.text := rfl
  unfold parseVersion
  simp only [htext]
  split
  · rfl
  · simp only [apply_ite (mapRest r), ← parsePath_withRest]
    rfl

theorem parseRequestLine_withRest (c : HttpConn) (text : Nat) :
    parseRequestLine (c.withRest r) text = mapRest r (parseRequestLine c text) := by
  have htext : (c.withRest r).text = c.text := rfl
  unfold parseRequestLine
  simp only [htext]
  split
  · rfl
  · simp only [apply_ite (mapRest r), ← parseVersion_withRest]
    rfl

theorem parseHeaders_withRest (c : HttpConn) (text : Nat) :
    parseHeaders (c.withRest r) text = pairRest r (parseHeaders c text) := by
  unfold parseHeaders
  simp only [apply_ite (pairRest r)]
  rfl

/-- Replace the rest in an answer of `parse_content`, which has set `m_string` when
the body is complete. -/
def contentRest (r : Rest) (p : Except Fault (HttpCode × HttpConn)) :
    Except Fault (HttpCode × HttpConn) :=
  p.map (fun p =>
    (p.1, p.2.withRest (if p.1 = .getRequest then { r with string := p.2.string } else r)))

theorem parseContent_withRest (c : HttpConn) (text : Nat) :
    parseContent (c.withRest r) text = contentRest r (parseContent c text) := by
  unfold parseContent
  simp only [apply_ite (contentRest r)]
  rfl

/-- The blank line behind the headers changes nothing when there is no body. -/
theorem parseHeaders_getRequest {c c' : HttpConn} {text : Nat}
    (h : parseHeaders c text = (.getRequest, c')) : c' = c := by
  unfold parseHeaders at h
  simp only at h
  split_ifs at h <;> cases h
  rfl

/-! ## The loop of process_read -/

/-- Another rest for the connection of a loop state. -/
def ReadState.withRest (s : ReadState) (r : Rest) : ReadState :=
  ⟨s.lineStatus, s.conn.withRest r⟩

/-- Another rest for the connection that the loop of `process_read` ends with.  In `CHECK_STATE_CONTENT` the request has set
`m_string`. -/
def ReadExit.withRest (r : Rest) : ReadExit → ReadExit
  | .returned code c => .returned code (c.withRest r)
  | .request c =>
      .request (c.withRest
        (if c.checkState = .content then { r with string := c.string } else r))

/-- Another rest in what one iteration does. -/
def stepRest (r : Rest) : ReadState ⊕ Except Fault ReadExit → ReadState ⊕ Except Fault ReadExit
  | .inl s => .inl (s.withRest r)
  | .inr e => .inr (e.map (ReadExit.withRest r))

theorem dispatchLine_withRest (s : ReadState) :
    dispatchLine (s.withRest r) = stepRest r (dispatchLine s) := by
  rcases hstate : s.conn.checkState with _ | _ | _
  · rw [dispatchLine_requestLine hstate, dispatchLine_requestLine (s := s.withRest r) hstate]
    have hanswer := parseRequestLine_withRest r
      { s.conn with startLine := s.conn.checkedIdx } s.conn.getLine
    generalize parseRequestLine { s.conn with startLine := _ } _ = p at hanswer
    refine (congrArg (afterRequestLine s.lineStatus) hanswer).trans ?_
    rcases p with f | ⟨code, c⟩
    · rfl
    · cases code <;> rfl
  · rw [dispatchLine_header hstate, dispatchLine_header (s := s.withRest r) hstate]
    have hanswer := parseHeaders_withRest r
      { s.conn with startLine := s.conn.checkedIdx } s.conn.getLine
    rcases hp : parseHeaders { s.conn with startLine := s.conn.checkedIdx } s.conn.getLine
      with ⟨code, c⟩
    rw [hp] at hanswer
    refine (congrArg (afterHeaders s.lineStatus) hanswer).trans ?_
    cases code with
    | getRequest =>
        have hkept : c.checkState = .header := by
          rw [parseHeaders_getRequest hp]
          exact hstate
        simp [afterHeaders, stepRest, ReadExit.withRest, pairRest, hkept, Except.map]
    | _ => rfl
  · rw [dispatchLine_content hstate, dispatchLine_content (s := s.withRest r) hstate]
    have hanswer := parseContent_withRest r
      { s.conn with startLine := s.conn.checkedIdx } s.conn.getLine
    rcases hp : parseContent { s.conn with startLine := s.conn.checkedIdx } s.conn.getLine
      with f | ⟨code, c⟩
    · rw [hp] at hanswer
      exact congrArg afterContent hanswer
    · rw [hp] at hanswer
      refine (congrArg afterContent hanswer).trans ?_
      have hkept : c.checkState = .content := (parseContent_checkState hp).trans hstate
      cases code with
      | getRequest =>
          simp [afterContent, contentRest, stepRest, ReadExit.withRest, hkept, Except.map]
      | _ => rfl

theorem processReadBody_withRest (s : ReadState) :
    processReadBody (s.withRest r) = stepRest r (processReadBody s) := by
  have hline := parseLine_withRest r s.conn
  rw [processReadBody_eq, processReadBody_eq]
  by_cases hcontent : s.conn.checkState = .content ∧ s.lineStatus = .lineOk
  · have hcontent' : (s.withRest r).conn.checkState = .content ∧
        (s.withRest r).lineStatus = .lineOk := hcontent
    rw [if_pos hcontent, if_pos hcontent']
    exact dispatchLine_withRest r s
  · have hcontent' : ¬((s.withRest r).conn.checkState = .content ∧
        (s.withRest r).lineStatus = .lineOk) := hcontent
    rw [if_neg hcontent, if_neg hcontent', show parseLine (s.withRest r).conn = _ from hline]
    generalize parseLine s.conn = p
    obtain ⟨st, c⟩ := p
    cases st
    · exact dispatchLine_withRest r ⟨.lineOk, c⟩
    · rfl
    · rfl

/-- The loop of `process_read` does not look at the rest. -/
theorem readFrom_withRest (s : ReadState) :
    readFrom (s.withRest r) = (readFrom s).map (ReadExit.withRest r) := by
  have hloop : ∀ {s : ReadState} {e : Except Fault ReadExit},
      Loop.Returns processReadBody s e →
      Loop.Returns processReadBody (s.withRest r) (e.map (ReadExit.withRest r)) := by
    intro s e h
    induction h with
    | done hb => exact .done (by rw [processReadBody_withRest, hb]; rfl)
    | next hb _ ih => exact .next (by rw [processReadBody_withRest, hb]; rfl) ih
  exact readFrom_eq (hloop (readFrom_returns s))

theorem processReadLoop_withRest (c : HttpConn) :
    processReadLoop (c.withRest r) = (processReadLoop c).map (ReadExit.withRest r) :=
  readFrom_withRest r ⟨.lineOk, c⟩

theorem processReadLoop_withRest_self {c : HttpConn} {e : ReadExit}
    (h : processReadLoop c = .ok e) : e = e.withRest c.rest := by
  have hsame := processReadLoop_withRest c.rest c
  rw [withRest_rest, h] at hsame
  exact Except.ok.inj hsame

/-- A call that returns keeps the rest. -/
theorem returned_rest {c d : HttpConn} {code : HttpCode}
    (h : processReadLoop c = .ok (.returned code d)) : d.rest = c.rest := by
  have hd : d = d.withRest c.rest := (Common.ReadExit.returned.inj (processReadLoop_withRest_self h)).2
  rw [hd, rest_withRest]

/-- A call that reaches `do_request` has changed no part of the rest but
`m_string`, and that only when it has read a body. -/
theorem request_rest {c d : HttpConn} (h : processReadLoop c = .ok (.request d)) :
    d.rest = { c.rest with string := d.string } ∧
      (d.checkState ≠ .content → d.string = c.string) := by
  have hd := Common.ReadExit.request.inj (processReadLoop_withRest_self h)
  split_ifs at hd with hstate
  · have hrest : d.rest = (d.withRest { c.rest with string := d.string }).rest :=
      congrArg HttpConn.rest hd
    exact ⟨hrest, fun hne => absurd hstate hne⟩
  · have hrest : d.rest = (d.withRest c.rest).rest := congrArg HttpConn.rest hd
    rw [rest_withRest] at hrest
    have hstring : d.string = c.string := congrArg Rest.string hrest
    exact ⟨by rw [hrest, hstring]; rfl, fun _ => hstring⟩

/-! ## read_once -/

theorem readLoop_withRest (os : List RecvOutcome) : ∀ c : HttpConn,
    readLoop (c.withRest r) os = (readLoop c os).map (pairRest r) := by
  induction os with
  | nil => exact fun c => rfl
  | cons o os ih =>
      intro c
      rcases o with _ | _ | _ | d
      · rfl
      · rfl
      · rfl
      · exact ih (c.recv d)

theorem readOnce_withRest (c : HttpConn) (os : List RecvOutcome) :
    readOnce (c.withRest r) os = (readOnce c os).map (pairRest r) := by
  unfold readOnce
  rw [apply_ite (Option.map (pairRest r)), ← readLoop_withRest]
  rfl

/-- `read_once` keeps the rest. -/
theorem readOnce_rest {c c' : HttpConn} {os : List RecvOutcome} {ok : Bool}
    (h : readOnce c os = some (ok, c')) : c'.rest = c.rest := by
  have hsame := readOnce_withRest c.rest c os
  rw [withRest_rest, h] at hsame
  have hc : c' = c'.withRest c.rest := (Prod.mk.inj (Option.some.inj hsame)).2
  rw [hc, rest_withRest]

end EasyWebServer.Post
