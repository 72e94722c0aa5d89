import EasyWebServer.Lib.RequestMessage
import EasyWebServer.Post.LineEdit
import EasyWebServer.Post.LineErrors

/-!
# What do_request is called with

`Stream` says which bytes the parser accepts.  Here is what it has read when it calls `do_request`:
`HeadRead` compares the members of the connection, most of which point into `m_read_buf`, with a
method, a path and the `Headers` of the header lines.

* Every line keeps what the lines before it have set: `parse_line` and the parsers store nothing in
  front of their line, and `Placed` is a string there (`Placed.mono`).
* `AtHead` is the parser at the start of a header line.  A request line leads there
  (`AtLine.requestLine`), a header line leads from there to there (`AtHead.header`), and the blank
  line to `do_request` or to the body (`AtHead.blank`).
* `RequestText` is the text of a request.  `request_iff` says that `do_request` is called for such
  texts and no others, and with what they say.
-/

namespace EasyWebServer.Post

open CString CInt HttpConn CharBuf Http CrlfScan Common

/-! ## The members -/

/-- The pointer is at a string that ends before `m_checked_idx`. -/
def Placed (c : HttpConn) (pointer : Option Nat) (s : Bytes) : Prop :=
  ∃ i, pointer = some i ∧ StringAt c.readBuf i s ∧ i + s.length < c.checkedIdx

/-- A pointer that may be null. -/
def PlacedOr (c : HttpConn) (pointer : Option Nat) : Option Bytes → Prop
  | none => pointer = none
  | some s => Placed c pointer s

/-- The members say what the head of the request says. -/
structure HeadRead (c : HttpConn) (m : Method) (path : Bytes) (h : Headers) : Prop where
  method : c.method = m
  cgi : c.cgi = if m = .post then 1 else 0
  url : Placed c c.url (servedPath path)
  linger : c.linger = h.keepAlive
  contentLength : c.contentLength = h.contentLength
  host : PlacedOr c c.host h.host

/-- Bytes before `m_checked_idx` that stay keep the string. -/
theorem Placed.mono {c c' : HttpConn} {pointer : Option Nat} {s : Bytes} (h : Placed c pointer s)
    (hbytes : AgreeBefore c.checkedIdx c c') (hle : c.checkedIdx ≤ c'.checkedIdx) :
    Placed c' pointer s := by
  obtain ⟨i, hi, hstring, hlt⟩ := h
  refine ⟨i, hi, ⟨hstring.no_nul, hstring.fits, fun k hk => ?_⟩, by omega⟩
  rw [hbytes (i + k) (by omega)]
  exact hstring.get_eq k hk

theorem PlacedOr.mono {c c' : HttpConn} {pointer : Option Nat} {s : Option Bytes}
    (h : PlacedOr c pointer s) (hbytes : AgreeBefore c.checkedIdx c c')
    (hle : c.checkedIdx ≤ c'.checkedIdx) : PlacedOr c' pointer s := by
  cases s with
  | none => exact h
  | some s => exact Placed.mono h hbytes hle

/-! ## A line that ends with CR LF -/

/-- The loop takes the line. -/
theorem AtLine.processReadBody {c : HttpConn} {q : Awaits} {l rest : Bytes}
    (h : AtLine c q (l ++ crlf ++ rest)) (hl : OneLine l) :
    processReadBody ⟨.lineOk, c⟩ = dispatchLine ⟨.lineOk, lineConsumed c l.length⟩ := by
  rw [processReadBody_eq, if_neg (fun hc => h.awaits.state hc.1),
    parseLine_crlf h.scanned.scanStart hl h.pending]

/-- `parse_line` stores behind the line only. -/
theorem agreeBefore_lineConsumed (c : HttpConn) (n : Nat) :
    AgreeBefore (c.checkedIdx + n) c (lineConsumed c n) := by
  intro j hj
  exact (get_set_ne _ _ (by omega)).trans (get_set_ne _ _ (by omega))

/-! ## The request line -/

/-- A line that is accepted has a path. -/
theorem Accepts.not_hostOnly {line path : Bytes} {m : Method} (h : Accepts line m path) :
    ¬ HostOnly line := by
  rintro ⟨m', target', hrequests', hno⟩
  obtain ⟨target, hrequests, hpath, -⟩ := h
  rcases RequestLine.word_or_split line with hword | ⟨method, w, r, rfl, hm, hw, hne, hr⟩
  · exact hrequests.not_word hword
  · rw [requests_split hm hw hne hr] at hrequests hrequests'
    obtain rfl := hrequests.2.unique hrequests'.2
    rw [urlPath_eq, if_pos hno.1, RequestLine.pathBehind, if_neg hno.2] at hpath
    cases hpath

/-- Before the request line, nothing of a head is set. -/
structure HeadStart (c : HttpConn) : Prop where
  linger : c.linger = false
  host : c.host = none

theorem parseRequestLine_head {c c' : HttpConn} {text : Nat} {code : HttpCode}
    (h : parseRequestLine c text = .ok (code, c')) : c'.linger = c.linger ∧ c'.host = c.host := by
  cases parseRequestLine_parsed h with
  | unknown b url => exact ⟨rfl, rfl⟩
  | get ht => cases ht <;> exact ⟨rfl, rfl⟩
  | post ht => cases ht <;> exact ⟨rfl, rfl⟩

/-- The parser at the start of a header line. -/
structure AtHead (c : HttpConn) (m : Method) (path : Bytes) (h : Headers) (s : Bytes) : Prop where
  line : AtLine c (.header h.contentLength) s
  read : HeadRead c m path h

/-- The connection with which the loop reads the line that `parse_line` has delivered. -/
def lineTaken (c : HttpConn) (n : Nat) : HttpConn :=
  { lineConsumed c n with startLine := c.checkedIdx + n + 2 }

/-- A request line that is accepted. -/
theorem AtLine.requestLine {c : HttpConn} {l rest : Bytes}
    (h : AtLine c .requestLine (l ++ crlf ++ rest)) (hl : OneLine l) (hstart : HeadStart c)
    {m : Method} {path : Bytes} (hpath : Accepts (cstr l) m path) :
    ∃ c', Post.processReadBody ⟨.lineOk, c⟩ = .inl ⟨.lineOk, c'⟩ ∧ c'.readIdx = c.readIdx ∧
      AtHead c' m path .start rest := by
  have hhost := hpath.not_hostOnly
  have hread := lineRead_crlf h hl rfl
  have hanswer := hread.dispatch_requestLine
  rw [nextLine, if_neg hhost, if_pos ⟨m, path, hpath⟩] at hanswer
  obtain ⟨c', hdispatch, hidx, hat⟩ := hanswer
  refine ⟨c', (h.processReadBody hl).trans hdispatch, hidx, hat, ?_⟩
  obtain ⟨hstate, -, hcgi⟩ := hread.awaits
  obtain ⟨-, hchecked, -⟩ := dispatchLine_inl hdispatch
  -- the call of `parse_request_line` in the iteration
  have hcall := dispatchLine_requestLine (s := ⟨.lineOk, lineConsumed c l.length⟩) hstate
  have hgetLine : (lineConsumed c l.length).getLine = c.checkedIdx := hread.start
  have hline : LineAt (lineTaken c l.length) c.checkedIdx (cstr l) :=
    ⟨hread.at_line.string, hread.at_line.fits⟩
  obtain ⟨code, d, hparse, hno, -, haccepted⟩ := grammarOk_of_not_hostOnly hline hcgi hhost
  obtain rfl := hno.mpr ⟨m, path, hpath⟩
  rw [hgetLine, show parseRequestLine { lineConsumed c l.length with
    startLine := (lineConsumed c l.length).checkedIdx } c.checkedIdx = .ok (.noRequest, d) from
      hparse, hdispatch] at hcall
  cases hcall
  obtain ⟨hlinger, hhosts⟩ := parseRequestLine_head hparse
  obtain ⟨-, hmethod, hcgi', url, hurl, htext⟩ := haccepted m path hpath
  -- the URL ends in the line
  have hterm : Terminated (lineTaken c l.length) (c.checkedIdx + l.length) :=
    ⟨hread.terminated.nul, hread.terminated.nul_succ, hread.terminated.lt, hread.terminated.le⟩
  have hedits := parseRequestLine_edits hterm (Nat.le_add_right _ _) hparse
  have hbehind := agreeBehind_parseRequestLine hterm (Nat.le_add_right _ _) hparse
  have hend : c'.readBuf.get (c.checkedIdx + l.length + 1) = NUL :=
    (hbehind _ (Nat.lt_succ_self _)).trans hread.terminated.nul_succ
  have hlt := hread.terminated.lt
  have hle := hread.terminated.le
  have hidxs : (lineConsumed c l.length).readIdx = c.readIdx := rfl
  have hinside := CharBuf.add_strlen_le c'.readBuf (i := url)
    (Nat.le_succ_of_le (hedits.url url hurl).2) (by omega) hend
  have hlen : strlen (c'.readBuf.view url) = (servedPath path).length := congrArg List.length htext
  have hcheck : c'.checkedIdx = c.checkedIdx + l.length + 2 := hchecked
  refine ⟨hmethod, hcgi', ⟨url, hurl, .of_cstr htext (by omega), by omega⟩, ?_, ?_, ?_⟩
  · exact hlinger.trans hstart.linger
  · exact hat.awaits.2.1
  · exact hhosts.trans hstart.host

/-! ## The header lines -/

/-- What a header line that is not blank does. -/
theorem parseHeaders_read {c : HttpConn} {text : Nat} {s : Bytes} (hs : StringAt c.readBuf text s)
    (hne : s ≠ []) (hlt : text + s.length < c.checkedIdx) {m : Method} {path : Bytes} {h : Headers}
    (hread : HeadRead c m path h) :
    ∃ c', parseHeaders c text = (.noRequest, c') ∧ HeadRead c' m path (h.line s) := by
  have hnul : c.readBuf.get text ≠ NUL := by
    obtain ⟨b, rest, rfl⟩ := List.exists_cons_of_ne_nil hne
    have hget : c.readBuf.get text = b := hs.get_head
    rw [hget]
    exact fun heq => hs.no_nul (by rw [heq]; exact List.mem_cons_self)
  have hself : cstr s = s := cstr_eq_self hs.no_nul
  have hname : ∀ name, strncasecmp (c.text text) name = strncasecmp s name := by
    intro name
    rw [strncasecmp, HttpConn.text, hs.cstr, strncasecmp, hself]
  have hvalue : ∀ {name : Bytes} {n : Nat}, strncasecmp s name = true → name.length = n →
      StringAt c.readBuf (skipName c text n) (skipBlanks (s.drop n)) := by
    intro name n hstarts hn
    rw [← hn]
    exact stringAt_skipName hs ((RequestLine.strncasecmp_iff hself).mp hstarts)
  rw [parseHeaders, if_neg hnul, hname, hname, hname, Headers.line]
  obtain ⟨hmethod, hcgi, hurl, hlinger, hlength, hhost⟩ := hread
  by_cases h₁ : strncasecmp s (ascii "Connection:") = true
  · have hstring := hvalue h₁ (show _ = 11 by decide)
    have hsame : strcasecmp (c.text (skipName c text 11)) (ascii "keep-alive") =
        strcasecmp (skipBlanks (s.drop 11)) (ascii "keep-alive") := by
      rw [strcasecmp, HttpConn.text, hstring.cstr, strcasecmp, cstr_eq_self hstring.no_nul]
    rw [if_pos h₁, if_pos h₁]
    dsimp only
    rw [hsame]
    split
    · exact ⟨_, rfl, hmethod, hcgi, hurl, rfl, hlength, hhost⟩
    · exact ⟨_, rfl, hmethod, hcgi, hurl, hlinger, hlength, hhost⟩
  · rw [if_neg h₁, if_neg h₁]
    by_cases h₂ : strncasecmp s (ascii "Content-length:") = true
    · have hstring := hvalue h₂ (show _ = 15 by decide)
      rw [if_pos h₂, if_pos h₂]
      exact ⟨_, rfl, hmethod, hcgi, hurl, hlinger,
        atoi_congr (hstring.cstr.trans (cstr_eq_self hstring.no_nul).symm), hhost⟩
    · rw [if_neg h₂, if_neg h₂]
      by_cases h₃ : strncasecmp s (ascii "Host:") = true
      · have hstring := hvalue h₃ (show _ = 5 by decide)
        rw [if_pos h₃, if_pos h₃]
        refine ⟨_, rfl, hmethod, hcgi, hurl, hlinger, hlength, _, rfl, hstring, ?_⟩
        -- the value ends where the line does
        have hnul := hs.get_eq s.length (Nat.le_refl _)
        rw [List.getD_eq_default _ _ (Nat.le_refl _)] at hnul
        have hle : skipName c text 5 ≤ text + s.length := by
          have hstart := (RequestLine.strncasecmp_iff hself).mp h₃
          have hbehind := hs.behindScheme hstart
          have hspan := strspn_le (c.text (text + 5)) blanks
          rw [HttpConn.text, show text + 5 = text + (ascii "Host:").length by rw [show
            (ascii "Host:").length = 5 by decide], hbehind.strlen, List.length_drop] at hspan
          have hlen := hstart.length_le
          rw [show (ascii "Host:").length = 5 by decide] at hspan hlen
          rw [skipName]
          rw [HttpConn.text]
          omega
        have hend := CharBuf.add_strlen_le c.readBuf hle hs.fits hnul
        rw [hstring.strlen] at hend
        show skipName c text 5 + (skipBlanks (s.drop 5)).length < c.checkedIdx
        omega
      · rw [if_neg h₃, if_neg h₃]
        exact ⟨_, rfl, hmethod, hcgi, hurl, hlinger, hlength, hhost⟩

/-- What the lines so far have set stays when `parse_line` delivers another one. -/
theorem HeadRead.lineTaken {c : HttpConn} {m : Method} {path : Bytes} {h : Headers}
    (hread : HeadRead c m path h) (n : Nat) : HeadRead (lineTaken c n) m path h := by
  have hbytes : AgreeBefore c.checkedIdx c (Post.lineTaken c n) :=
    fun j hj => agreeBefore_lineConsumed c n j (by omega)
  have hle : c.checkedIdx ≤ (Post.lineTaken c n).checkedIdx :=
    Nat.le_trans (Nat.le_add_right _ n) (Nat.le_add_right _ 2)
  exact ⟨hread.method, hread.cgi, hread.url.mono hbytes hle, hread.linger, hread.contentLength,
    hread.host.mono hbytes hle⟩

section

variable {c : HttpConn} {m : Method} {path : Bytes} {hd : Headers} {l rest : Bytes}

/-- A header line that is not blank. -/
theorem AtHead.header (h : AtHead c m path hd (l ++ crlf ++ rest)) (hl : OneLine l)
    (hne : cstr l ≠ []) :
    ∃ c', processReadBody ⟨.lineOk, c⟩ = .inl ⟨.lineOk, c'⟩ ∧ c'.readIdx = c.readIdx ∧
      AtHead c' m path (hd.line (cstr l)) rest := by
  have hread := lineRead_crlf h.line hl rfl
  have hanswer := hread.dispatch_header
  rw [nextLine, if_neg hne] at hanswer
  obtain ⟨c', hdispatch, hidx, hat⟩ := hanswer
  obtain ⟨hstate, -⟩ := hread.awaits
  have hcall := dispatchLine_header (s := ⟨.lineOk, lineConsumed c l.length⟩) hstate
  have hgetLine : (lineConsumed c l.length).getLine = c.checkedIdx := hread.start
  have hlen : (cstr l).length ≤ l.length := (List.takeWhile_prefix _).length_le
  obtain ⟨d, hparse, hd'⟩ := parseHeaders_read (c := lineTaken c l.length) hread.at_line.string hne
    (show c.checkedIdx + (cstr l).length < c.checkedIdx + l.length + 2 by omega)
    (h.read.lineTaken l.length)
  rw [hgetLine, show parseHeaders { lineConsumed c l.length with
    startLine := (lineConsumed c l.length).checkedIdx } c.checkedIdx = (.noRequest, d) from
      hparse, hdispatch] at hcall
  cases hcall
  refine ⟨c', (h.line.processReadBody hl).trans hdispatch, hidx, ?_, hd'⟩
  -- the two ways to say the content length
  rw [← hd'.contentLength, hat.awaits.2.1]
  exact hat

/-- The blank line, when no body follows. -/
theorem AtHead.blank (h : AtHead c m path hd (l ++ crlf ++ rest)) (hl : OneLine l)
    (hblank : cstr l = []) (hzero : hd.contentLength = 0) :
    processReadBody ⟨.lineOk, c⟩ = .inr (.ok (.request (lineTaken c l.length))) := by
  have hread := lineRead_crlf h.line hl rfl
  obtain ⟨hstate, hlength, -⟩ := hread.awaits
  have hstring := hread.at_line.string
  rw [hblank] at hstring
  rw [h.line.processReadBody hl, dispatchLine_header hstate]
  rw [show (lineConsumed c l.length).getLine = c.checkedIdx from hread.start]
  have hparse := parseHeaders_blank (c := lineTaken c l.length) hstring
  rw [if_neg (show ¬ (lineTaken c l.length).contentLength ≠ 0 from
    not_not.mpr (hlength.trans hzero))] at hparse
  exact congrArg (afterHeaders .lineOk) hparse

/-- The blank line in front of a body. -/
theorem AtHead.body (h : AtHead c m path hd (l ++ crlf ++ rest)) (hl : OneLine l)
    (hblank : cstr l = []) (hne : hd.contentLength ≠ 0) :
    processReadBody ⟨.lineOk, c⟩ =
        .inl ⟨.lineOk, { lineTaken c l.length with checkState := .content }⟩ ∧
      AtBody { lineTaken c l.length with checkState := .content } hd.contentLength rest.length ∧
      pending (lineTaken c l.length) = rest := by
  have hread := lineRead_crlf h.line hl rfl
  obtain ⟨hstate, hlength, hlo, -⟩ := hread.awaits
  have hstring := hread.at_line.string
  rw [hblank] at hstring
  have hparse := parseHeaders_blank (c := lineTaken c l.length) hstring
  rw [if_pos (show (lineTaken c l.length).contentLength ≠ 0 from fun h => hne (hlength.symm.trans h))]
    at hparse
  constructor
  · rw [h.line.processReadBody hl, dispatchLine_header hstate]
    rw [show (lineConsumed c l.length).getLine = c.checkedIdx from hread.start]
    exact congrArg (afterHeaders .lineOk) hparse
  · have hle := hread.terminated.le
    have hlt := hread.terminated.lt
    refine ⟨⟨rfl, rfl, hlength, hlo, ?_, hle⟩, hread.pending⟩
    show (lineConsumed c l.length).readIdx = (lineConsumed c l.length).checkedIdx + rest.length
    have hlen := slice_length (lineConsumed c l.length).readBuf
      (i := (lineConsumed c l.length).checkedIdx)
      (n := (lineConsumed c l.length).readIdx - (lineConsumed c l.length).checkedIdx) (by
        rw [hread.checked]
        omega)
    rw [← hread.pending, Post.pending, hlen, hread.checked]
    omega

end

/-! ## The body -/

/-- `m_string` points at the body, which ends with a NUL. -/
def BodyRead (c : HttpConn) (body : Bytes) : Prop :=
  ∃ i, c.string = some i ∧ i + body.length < READ_BUFFER_SIZE ∧
    c.readBuf.slice i body.length = body ∧ c.readBuf.get (i + body.length) = NUL

/-- `parse_content` ends the body and keeps the head. -/
theorem AtBody.requestRead {c : HttpConn} {n k : Nat} (h : AtBody c n k) (hn : n ≤ k)
    (hroom : c.checkedIdx + n < READ_BUFFER_SIZE) {m : Method} {path : Bytes} {hd : Headers}
    (hread : HeadRead c m path hd) :
    ∃ d, readFrom ⟨.lineOk, c⟩ = .ok (.request d) ∧ HeadRead d m path hd ∧
      (d.checkedIdx = c.checkedIdx ∧ d.url = c.url) ∧
      BodyRead d (c.readBuf.slice c.checkedIdx n) := by
  have hbody := h.processReadBody
  rw [h.parseContent (by omega), if_pos ⟨by omega, by omega⟩] at hbody
  rw [show ((c.checkedIdx : Int) + n).toNat = c.checkedIdx + n by omega] at hbody
  refine ⟨_, readFrom_done hbody, ?_, ⟨rfl, rfl⟩, c.checkedIdx, rfl, ?_, ?_, ?_⟩
  · have hbytes : AgreeBefore c.checkedIdx c { c.store (c.checkedIdx + n) NUL with
        string := some c.checkedIdx } := fun j hj => get_set_ne _ _ (by omega)
    exact ⟨hread.method, hread.cgi, hread.url.mono hbytes (Nat.le_refl _), hread.linger,
      hread.contentLength, hread.host.mono hbytes (Nat.le_refl _)⟩
  · rw [slice_length _ (by omega)]
    exact hroom
  · rw [slice_length _ (by omega)]
    exact slice_congr (by omega) (fun j _ hj => get_set_ne _ _ (by omega))
  · rw [slice_length _ (by omega)]
    exact get_set_self _ _ hroom

/-- `parse_content` never ends a body of which something is to come. -/
def ShortBody (n : Int) (readIdx : Nat) (s : ReadState) : Prop :=
  s.conn.checkState = .content ∧ s.conn.contentLength = n ∧ s.conn.readIdx = readIdx ∧
    s.conn.checkedIdx ≤ readIdx ∧ (readIdx : Int) < n + s.conn.checkedIdx

theorem ShortBody.dispatchLine {n : Int} {readIdx : Nat} {s : ReadState}
    (h : ShortBody n readIdx s) (hn : n ≤ INT_MAX) (hread : readIdx ≤ READ_BUFFER_SIZE) :
    (∃ s', dispatchLine s = .inl s' ∧ ShortBody n readIdx s') ∨
      dispatchLine s = .inr (.error .outOfBounds) := by
  obtain ⟨hstate, hlength, hidx, hchecked, hshort⟩ := h
  have hmax : INT_MAX = 2147483647 := rfl
  have hcap : READ_BUFFER_SIZE = 2048 := rfl
  rw [dispatchLine_content hstate, parseContent]
  split
  · -- the sum has overflowed, so the store is far behind the buffer
    rename_i hsum
    right
    have hwrap : ¬ n + (s.conn.checkedIdx : Int) ≤ INT_MAX := by
      intro hle
      rw [show ({ s.conn with startLine := s.conn.checkedIdx } : HttpConn).contentLength = n from
        hlength, wrap32_of_range (by omega) hle] at hsum
      rw [show ({ s.conn with startLine := s.conn.checkedIdx } : HttpConn).readIdx = readIdx from
        hidx] at hsum
      exact absurd hsum (by omega)
    dsimp only
    rw [if_neg (by
      rw [hlength]
      omega)]
    rfl
  · exact .inl ⟨_, rfl, hstate, hlength, hidx, hchecked, hshort⟩

theorem ShortBody.parseLine {n : Int} {readIdx : Nat} {s : ReadState} {c : HttpConn}
    (h : ShortBody n readIdx s) (hline : parseLine s.conn = (.lineOk, c)) :
    ShortBody n readIdx ⟨.lineOk, c⟩ := by
  obtain ⟨hstate, hlength, hidx, hchecked, hshort⟩ := h
  obtain ⟨hlt, hle, hread⟩ := parseLine_ok_advance hline
  obtain rfl : (Post.parseLine s.conn).2 = c := congrArg Prod.snd hline
  exact ⟨hstate, hlength, hidx, by dsimp only; omega, by dsimp only; omega⟩

/-- An iteration goes on, or ends the call without a request. -/
theorem ShortBody.processReadBody {n : Int} {readIdx : Nat} {s : ReadState}
    (h : ShortBody n readIdx s) (hn : n ≤ INT_MAX) (hread : readIdx ≤ READ_BUFFER_SIZE) :
    (∃ s', processReadBody s = .inl s' ∧ ShortBody n readIdx s') ∨
      ∃ r, Post.processReadBody s = .inr r ∧ ∀ d, r ≠ .ok (.request d) := by
  have hcall : ∀ {s : ReadState}, ShortBody n readIdx s →
      (∃ s', Post.dispatchLine s = .inl s' ∧ ShortBody n readIdx s') ∨
        ∃ r, Post.dispatchLine s = .inr r ∧ ∀ d, r ≠ .ok (.request d) := by
    intro s h
    rcases h.dispatchLine hn hread with hnext | herror
    · exact .inl hnext
    · exact .inr ⟨_, herror, fun d hd => by cases hd⟩
  rw [processReadBody_eq]
  split
  · exact hcall h
  · split
    · rename_i c hline
      exact hcall (h.parseLine hline)
    · exact .inr ⟨_, rfl, fun d hd => by cases hd⟩

/-- Such a call does not reach `do_request`. -/
theorem ShortBody.not_request {n : Int} {readIdx : Nat} {s : ReadState}
    (h : ShortBody n readIdx s) (hn : n ≤ INT_MAX) (hread : readIdx ≤ READ_BUFFER_SIZE)
    (d : HttpConn) : readFrom s ≠ .ok (.request d) := by
  refine (readFrom_returns s).invariant (ShortBody n readIdx) (fun r => r ≠ .ok (.request d)) h
    ?_ ?_
  · intro s s' h hbody
    rcases h.processReadBody hn hread with ⟨s'', hnext, h''⟩ | ⟨r, hdone, -⟩
    · rw [hnext] at hbody
      cases hbody
      exact h''
    · rw [hdone] at hbody
      cases hbody
  · intro s r h hbody
    rcases h.processReadBody hn hread with ⟨s'', hnext, -⟩ | ⟨r', hdone, hr⟩
    · rw [hnext] at hbody
      cases hbody
    · rw [hdone] at hbody
      cases hbody
      exact hr d

/-! ## The text of a request -/

/-- The stream is a request line, header lines, a blank line, and `rest`.  A line counts up to its
first NUL. -/
def RequestText (t : Bytes) (m : Method) (path : Bytes) (hd : Headers) (rest : Bytes) : Prop :=
  ∃ l ls b, t = CrlfScan.text (l :: ls) ++ (b ++ crlf ++ rest) ∧
    (∀ x ∈ l :: ls, OneLine x) ∧ OneLine b ∧ Accepts (cstr l) m path ∧
    (∀ x ∈ ls, cstr x ≠ []) ∧ cstr b = [] ∧ (ls.map cstr).foldl Headers.line .start = hd

/-- The body is there, and its terminator fits behind it. -/
def BodyFits (t : Bytes) (hd : Headers) (rest : Bytes) : Prop :=
  0 ≤ hd.contentLength ∧ hd.contentLength ≤ rest.length ∧
    (hd.contentLength ≠ 0 → (t.length : Int) - rest.length + hd.contentLength < READ_BUFFER_SIZE)

/-- The connection says what the text says.  Without a body, `m_string` is not set. -/
structure RequestRead (c : HttpConn) (t : Bytes) (m : Method) (path : Bytes) (hd : Headers)
    (rest : Bytes) : Prop where
  head : HeadRead c m path hd
  /-- `m_checked_idx` is behind the blank line, and the URL ends before that. -/
  checked : c.checkedIdx + rest.length = t.length
  url_end : ∀ url ∈ c.url, url + (servedPath path).length + 2 < c.checkedIdx
  body : hd.contentLength ≠ 0 → BodyRead c (rest.take hd.contentLength.toNat)

/-- The header lines, one after the other. -/
theorem AtHead.lines {ls : List Bytes} (hls : ∀ l ∈ ls, OneLine l) (hne : ∀ l ∈ ls, cstr l ≠ []) :
    ∀ {c : HttpConn} {m : Method} {path : Bytes} {hd : Headers} {s : Bytes},
      AtHead c m path hd (CrlfScan.text ls ++ s) →
      ∃ c', readFrom ⟨.lineOk, c⟩ = readFrom ⟨.lineOk, c'⟩ ∧ c'.readIdx = c.readIdx ∧
        AtHead c' m path ((ls.map cstr).foldl Headers.line hd) s := by
  induction ls with
  | nil => exact fun h => ⟨_, rfl, rfl, h⟩
  | cons l ls ih =>
      intro c m path hd s h
      rw [CrlfScan.text, List.flatMap_cons, List.append_assoc] at h
      obtain ⟨c₁, hbody, hidx, h₁⟩ := h.header (hls l List.mem_cons_self) (hne l List.mem_cons_self)
      obtain ⟨c', hread, hidx', h'⟩ := ih (fun x hx => hls x (List.mem_cons_of_mem l hx))
        (fun x hx => hne x (List.mem_cons_of_mem l hx)) h₁
      exact ⟨c', (readFrom_next hbody).trans hread, hidx'.trans hidx, h'⟩

/-- One call on the text of a request reads it up to the blank line. -/
theorem RequestText.atHead {t : Bytes} {m : Method} {path : Bytes} {hd : Headers} {rest : Bytes}
    (h : RequestText t m path hd rest) (c : HttpConn) (ht : t.length ≤ READ_BUFFER_SIZE) :
    ∃ c' b, processReadLoop (c.init.recv t) = readFrom ⟨.lineOk, c'⟩ ∧ c'.readIdx = t.length ∧
      OneLine b ∧ cstr b = [] ∧ AtHead c' m path hd (b ++ crlf ++ rest) := by
  obtain ⟨l, ls, b, rfl, hlines, hb, hpath, hne, hblank, rfl⟩ := h
  have hat := atLine_recv c ht
  have htext : CrlfScan.text (l :: ls) ++ (b ++ crlf ++ rest) =
      l ++ crlf ++ (CrlfScan.text ls ++ (b ++ crlf ++ rest)) := by
    rw [CrlfScan.text, List.flatMap_cons, List.append_assoc]
    rfl
  have hat' : AtLine (c.init.recv (CrlfScan.text (l :: ls) ++ (b ++ crlf ++ rest))) .requestLine
      (l ++ crlf ++ (CrlfScan.text ls ++ (b ++ crlf ++ rest))) := by
    rw [← htext]
    exact hat
  obtain ⟨c₁, hbody, hidx, h₁⟩ := hat'.requestLine (hlines l List.mem_cons_self) ⟨rfl, rfl⟩ hpath
  obtain ⟨c', hread, hidx', h'⟩ :=
    h₁.lines (fun x hx => hlines x (List.mem_cons_of_mem l hx)) hne
  refine ⟨c', b, (readFrom_next hbody).trans hread, hidx'.trans (hidx.trans ?_), hb, hblank, h'⟩
  exact Nat.zero_add _

/-- A request whose body is there is read. -/
theorem RequestText.request {t : Bytes} {m : Method} {path : Bytes} {hd : Headers} {rest : Bytes}
    (h : RequestText t m path hd rest) (c : HttpConn) (ht : t.length ≤ READ_BUFFER_SIZE)
    (hfits : BodyFits t hd rest) :
    ∃ d, processReadLoop (c.init.recv t) = .ok (.request d) ∧ RequestRead d t m path hd rest := by
  obtain ⟨c', b, hloop, hidx, hb, hblank, hat⟩ := h.atHead c ht
  obtain ⟨hlow, hlen, hroom⟩ := hfits
  rw [hloop]
  have htaken := hat.read.lineTaken b.length
  have hbefore : (lineTaken c' b.length).checkedIdx + rest.length = t.length := by
    have hlen := pending_length hat.line.scanned.scanStart
    rw [hat.line.pending, List.length_append, List.length_append,
      show crlf.length = 2 from rfl] at hlen
    show c'.checkedIdx + b.length + 2 + rest.length = t.length
    omega
  have hurl : ∀ url ∈ (lineTaken c' b.length).url,
      url + (servedPath path).length + 2 < (lineTaken c' b.length).checkedIdx := by
    intro url hu
    obtain ⟨i, hi, -, hlt⟩ := hat.read.url
    cases hi.symm.trans hu
    show url + (servedPath path).length + 2 < c'.checkedIdx + b.length + 2
    omega
  by_cases hzero : hd.contentLength = 0
  · exact ⟨_, readFrom_done (hat.blank hb hblank hzero), htaken, hbefore, hurl,
      fun hne => absurd hzero hne⟩
  · obtain ⟨hbody, hat', hpending⟩ := hat.body hb hblank hzero
    obtain ⟨n, hn⟩ := Int.eq_ofNat_of_zero_le hlow
    have hread : (lineTaken c' b.length).readIdx =
      (lineTaken c' b.length).checkedIdx + rest.length := hat'.read
    have hcap : (lineTaken c' b.length).readIdx ≤ READ_BUFFER_SIZE := hat'.read_le
    rw [hn] at hat' hlen hroom hzero
    have hfits : (lineTaken c' b.length).checkedIdx + n < READ_BUFFER_SIZE := by
      have hroom := hroom hzero
      omega
    have hmembers : HeadRead { lineTaken c' b.length with checkState := .content } m path hd :=
      ⟨htaken.method, htaken.cgi, htaken.url, htaken.linger, htaken.contentLength, htaken.host⟩
    obtain ⟨d, hdone, hhead, hkept, hstring⟩ := hat'.requestRead (by omega) hfits hmembers
    refine ⟨d, (readFrom_next hbody).trans hdone, hhead, ?_, ?_, fun _ => ?_⟩
    · rw [hkept.1]
      exact hbefore
    · rw [hkept.1, hkept.2]
      exact hurl
    · have hsplit : (lineTaken c' b.length).readIdx - (lineTaken c' b.length).checkedIdx =
          n + (rest.length - n) := by omega
      rw [hn, Int.toNat_natCast, ← hpending, pending, hsplit, slice_append,
        List.take_left' (slice_length _ (by omega))]
      exact hstring

/-- What is known of the text behind a call that reaches `do_request`. -/
theorem requestText_of_request {c d : HttpConn} {t : Bytes} (ht : t.length ≤ READ_BUFFER_SIZE)
    (h : processReadLoop (c.init.recv t) = .ok (.request d)) :
    ∃ m path hd rest, RequestText t m path hd rest := by
  have hanswer := processReadLoop_scan c ht
  have hdescribes := describes_scan nextLine .requestLine t
  rw [← parseScan] at hdescribes
  rw [h] at hanswer
  rcases hz : parseScan t with ⟨q, l⟩ | ⟨q, l⟩ | _ | ⟨_ | _ | n, k⟩
  · rw [hz] at hanswer
    obtain ⟨_, hwait, -⟩ := hanswer
    cases hwait
  · rw [hz] at hanswer
    obtain ⟨_, hwait, -⟩ := hanswer
    cases hwait
  · rw [hz] at hanswer
    obtain ⟨_, hwait, -⟩ := hanswer
    cases hwait
  · rw [hz] at hanswer
    obtain ⟨_, hbad⟩ := hanswer
    cases hbad
  · rw [hz] at hanswer
    cases hanswer
  · rw [hz] at hdescribes
    obtain ⟨q, b, rest, hb, hnext, -, ls, rfl, hls, hafter⟩ := hdescribes
    cases q with
    | requestLine =>
        rcases nextLine_requestLine b with heq | heq | heq
        · rw [heq] at hnext
          cases hnext
        · rw [heq] at hnext
          cases hnext
        · rw [heq] at hnext
          cases hnext
    | header n' =>
        cases ls with
        | nil => cases hafter
        | cons l ls =>
            rw [after] at hafter
            split at hafter
            · rename_i q hq
              have hblank : cstr b = [] := by
                by_contra hne
                rw [nextLine_header hne] at hnext
                cases hnext
              have hne := after_not_blank (nextLine_ne_requestLine hq) hafter
              rw [nextLine] at hq
              split at hq
              · cases hq
              · split at hq
                · rename_i haccepts
                  obtain ⟨m, path, hpath⟩ := haccepts
                  exact ⟨m, path, _, rest, l, ls, b, rfl, hls, hb, hpath, hne, hblank, rfl⟩
                · cases hq
            · cases hafter

/-- A call that reaches `do_request` has found the body, of the length that the text says. -/
theorem RequestText.requested {t : Bytes} {m : Method} {path : Bytes} {hd : Headers} {rest : Bytes}
    (h : RequestText t m path hd rest) {c d : HttpConn} (ht : t.length ≤ READ_BUFFER_SIZE)
    (hd' : processReadLoop (c.init.recv t) = .ok (.request d)) :
    d.contentLength = hd.contentLength ∧ (hd.contentLength ≠ 0 →
      hd.contentLength ≤ rest.length ∧
        (t.length : Int) - rest.length + hd.contentLength < READ_BUFFER_SIZE) := by
  obtain ⟨c', b, hloop, hidx, hb, hblank, hat⟩ := h.atHead c ht
  rw [hloop] at hd'
  by_cases hzero : hd.contentLength = 0
  · rw [readFrom_done (hat.blank hb hblank hzero)] at hd'
    cases hd'
    exact ⟨hat.read.contentLength, fun hne => absurd hzero hne⟩
  · obtain ⟨hbody, hat', -⟩ := hat.body hb hblank hzero
    rw [readFrom_next hbody] at hd'
    have hread := hat'.read
    have hidx' : t.length = (lineTaken c' b.length).checkedIdx + rest.length := hidx.symm.trans hread
    have hle : hd.contentLength ≤ rest.length := by
      by_contra hgt
      have hshort : ShortBody hd.contentLength t.length
          ⟨.lineOk, { lineTaken c' b.length with checkState := .content }⟩ := by
        refine ⟨rfl, hat'.length, hidx, ?_, ?_⟩
        · show (lineTaken c' b.length).checkedIdx ≤ t.length
          omega
        · show (t.length : Int) < hd.contentLength + (lineTaken c' b.length).checkedIdx
          omega
      exact hshort.not_request hat.line.awaits.2.2.2 ht d hd'
    have hdone := hat'.processReadBody
    rw [hat'.parseContent hle] at hdone
    split at hdone
    · rename_i hin
      rw [readFrom_done hdone] at hd'
      cases hd'
      refine ⟨hat'.length, fun _ => ⟨hle, ?_⟩⟩
      have hroom : ((lineTaken c' b.length).checkedIdx : Int) + hd.contentLength <
        READ_BUFFER_SIZE := hin.2
      omega
    · -- a terminator outside the buffer is a fault
      rw [readFrom_done hdone] at hd'
      cases hd'

/-- For every stream that fits into the buffer: `process_read` calls `do_request` with a content
length that is not negative exactly when the stream is the text of a request with its body, and
then the members of the connection say what the text says. -/
theorem request_iff (c : HttpConn) {t : Bytes} (ht : t.length ≤ READ_BUFFER_SIZE) :
    ((∃ d, processReadLoop (c.init.recv t) = .ok (.request d) ∧ 0 ≤ d.contentLength) ↔
      ∃ m path hd rest, RequestText t m path hd rest ∧ BodyFits t hd rest) ∧
    ∀ m path hd rest d, RequestText t m path hd rest → BodyFits t hd rest →
      processReadLoop (c.init.recv t) = .ok (.request d) → RequestRead d t m path hd rest := by
  refine ⟨⟨?_, ?_⟩, ?_⟩
  · rintro ⟨d, hrequest, hlow⟩
    obtain ⟨m, path, hd, rest, htext⟩ := requestText_of_request ht hrequest
    obtain ⟨hlength, hbody⟩ := htext.requested ht hrequest
    rw [hlength] at hlow
    refine ⟨m, path, hd, rest, htext, hlow, ?_, fun hne => (hbody hne).2⟩
    by_cases hzero : hd.contentLength = 0
    · omega
    · exact (hbody hzero).1
  · rintro ⟨m, path, hd, rest, htext, hfits⟩
    obtain ⟨d, hrequest, hread⟩ := htext.request c ht hfits
    exact ⟨d, hrequest, by rw [hread.head.contentLength]; exact hfits.1⟩
  · intro m path hd rest d htext hfits hrequest
    obtain ⟨d', hrequest', hread⟩ := htext.request c ht hfits
    rw [hrequest] at hrequest'
    cases hrequest'
    exact hread

/-- A request for the start page, with a byte of the next one behind it. -/
theorem request_iff_start :
    ∃ d, processReadLoop (blank.init.recv (ascii "GET / HTTP/1.1\r\n\r\nG")) =
      .ok (.request d) ∧ 0 ≤ d.contentLength := by
  refine (request_iff blank (by decide)).1.mpr ⟨.get, [slash], .start, ascii "G", ?_, ?_⟩
  · refine ⟨ascii "GET / HTTP/1.1", [], [], by decide, by decide, by decide, ?_,
      List.forall_mem_nil _, rfl, rfl⟩
    exact ⟨[slash], .inl ⟨rfl, ascii "GET", [32], ascii "/ HTTP/1.1", by decide, rfl, by decide,
      by decide, [32], ascii "HTTP/1.1", by decide, by decide, by decide, by decide, by decide, rfl⟩,
      by decide, rfl⟩
  · exact ⟨le_refl _, by decide, fun h => absurd rfl h⟩

end EasyWebServer.Post
