import EasyWebServer.Lib.CrlfScan
import EasyWebServer.Post.Body
import EasyWebServer.Post.LineScanner
import EasyWebServer.Post.ContentLength
import EasyWebServer.Post.RequestLine

/-!
# The parser without a buffer

The parser of a request is a scanner for lines in the sense of `CrlfScan`: `nextLine` says what
the main state machine does with a complete line.  A stream of any length has a scan,
so it can be asked what the parser would make of a stream if the buffer were large
enough.

`processReadLoop_scan` connects the scan to the code: for bytes that fit, one call of
`process_read` on a new connection ends as the scan says (`Answers`).  In particular a scan behind
a stray CR or LF is `NO_REQUEST`.  `feed_scan` is the same for the bytes in chunks.
-/

namespace EasyWebServer.Post

open CString CInt HttpConn CharBuf Http CrlfScan Common

/-! ## The abstract parser -/

/-- The line that the main state machine waits for.  A header line is read under the content
length so far. -/
inductive Awaits where
  | requestLine
  | header (contentLength : Int)

/-- What ends the lines. -/
inductive HeadEnd where
  /-- A request line that is rejected. -/
  | rejected
  /-- A request line whose URL leads to a null pointer. -/
  | crashed
  /-- The blank line. -/
  | body (contentLength : Int)

/-- The content length behind a header line. -/
def lengthAfter (n : Int) (line : Bytes) : Int :=
  if strncasecmp line (ascii "Connection:") then n
  else if strncasecmp line (ascii "Content-length:") then
    atoi ((line.drop 15).dropWhile (fun b => blanks.contains b))
  else n

open Classical in
/-- What the main state machine does with a complete line.  A line counts up to its first NUL,
so a header line that starts with one is blank. -/
noncomputable def nextLine : Awaits → Bytes → Awaits ⊕ HeadEnd
  | .requestLine, l =>
      if HostOnly (cstr l) then .inr .crashed
      else if ∃ m path, Accepts (cstr l) m path then .inl (.header 0)
      else .inr .rejected
  | .header n, l =>
      if cstr l = [] then .inr (.body n) else .inl (.header (lengthAfter n (cstr l)))

/-- The scan of a stream. -/
noncomputable def parseScan (t : Bytes) : Scan Awaits HeadEnd :=
  scan nextLine (.line .requestLine []) t

theorem parseScan_append (s t : Bytes) :
    parseScan (s ++ t) = scan nextLine (parseScan s) t := CrlfScan.scan_append _ _ _ _

/-! ## The parser at the start of a line -/

/-- The main state machine waits for the line. -/
def Awaits.Holds (c : HttpConn) : Awaits → Prop
  | .requestLine => c.checkState = .requestLine ∧ c.contentLength = 0 ∧ c.cgi = 0
  | .header n => c.checkState = .header ∧ c.contentLength = n ∧
      -2147483648 ≤ n ∧ n ≤ INT_MAX

theorem Awaits.Holds.state {c : HttpConn} {q : Awaits} (h : q.Holds c) :
    c.checkState ≠ .content := by
  cases q with
  | requestLine =>
      rw [h.1]
      decide
  | header n =>
      rw [h.1]
      decide

/-- The parser at the start of a line, with the bytes `s` to read. -/
structure AtLine (c : HttpConn) (q : Awaits) (s : Bytes) : Prop where
  scanned : Scanned c
  start : c.startLine = c.checkedIdx
  pending : pending c = s
  awaits : q.Holds c

theorem atLine_recv (c : HttpConn) {t : Bytes} (ht : t.length ≤ READ_BUFFER_SIZE) :
    AtLine (c.init.recv t) .requestLine t where
  scanned := (scanned_init c).recv (by
    show 0 + t.length ≤ READ_BUFFER_SIZE
    omega)
  start := rfl
  pending := by
    show ((CharBuf.zero READ_BUFFER_SIZE).write 0 t).slice 0 (0 + t.length - 0) = t
    rw [Nat.sub_zero, Nat.zero_add]
    exact slice_write _ t (by omega)
  awaits := ⟨rfl, rfl, rfl⟩

/-- A line that `parse_line` delivers: `l` is its text, and `rest` the bytes behind its CR LF. -/
structure LineRead (c c' : HttpConn) (q : Awaits) (l rest : Bytes) : Prop where
  line : OneLine l
  terminated : Terminated c' (c.checkedIdx + l.length)
  checked : c'.checkedIdx = c.checkedIdx + l.length + 2
  read : c'.readIdx = c.readIdx
  start : c'.startLine = c.checkedIdx
  at_line : LineAt c' c.checkedIdx (cstr l)
  pending : pending c' = rest
  awaits : q.Holds c'

/-- A line that ends with CR LF is delivered. -/
theorem lineRead_crlf {c : HttpConn} {q : Awaits} {s : Bytes} (h : AtLine c q s) {l rest : Bytes}
    (hl : OneLine l) (hs : s = l ++ crlf ++ rest) :
    LineRead c (lineConsumed c l.length) q l rest := by
  have hread := h.scanned.read_le
  have hpending := h.pending.trans hs
  obtain ⟨-, hrest, hline⟩ := lineConsumed_spec h.scanned.scanStart hpending
  have hroom := pending_length h.scanned.scanStart
  rw [hpending, List.length_append, List.length_append, show crlf.length = 2 from rfl] at hroom
  have hterm := terminated_of_crlf (c := c) (i := c.checkedIdx + l.length) (by omega) hread
  have hle : (cstr l).length ≤ l.length := (List.takeWhile_prefix _).length_le
  refine ⟨hl, hterm, rfl, rfl, h.start, ⟨StringAt.of_cstr ?_ ?_, ?_⟩, hrest, ?_⟩
  · -- the line is followed by the NUL that replaced its CR
    rw [view_eq_slice_append _ _ l.length, view_cons _ (by omega), hline]
    have hnul : (lineConsumed c l.length).readBuf.get (c.checkedIdx + l.length) = NUL := hterm.nul
    rw [hnul, cstr_append_nul]
  · omega
  · omega
  · have hawaits := h.awaits
    cases q <;> exact hawaits

/-- What `parse_line` does at the start of a line: it finds no complete line, or delivers
one. -/
theorem AtLine.parseLine {c : HttpConn} {q : Awaits} {s : Bytes} (h : AtLine c q s) :
    (∃ st c', parseLine c = (st, c') ∧ st ≠ .lineOk ∧ c'.checkState = c.checkState ∧
        ∃ l, OneLine l ∧ (s = l ∨ s = l ++ [CR] ∨
          ∃ rest, CrlfScan.StartsStray rest ∧ s = l ++ rest)) ∨
      ∃ l rest c', s = l ++ crlf ++ rest ∧ Post.parseLine c = (.lineOk, c') ∧
        LineRead c c' q l rest := by
  have hfound := parseLine_read h.scanned.scanStart
  have hpending := h.pending
  generalize hp : Post.parseLine c = r at hfound
  cases hfound with
  | exhausted l hl hs =>
      rw [hpending] at hs
      exact .inl ⟨_, _, rfl, by decide, rfl, l, hl, .inl hs⟩
  | lastCr l hl hs =>
      rw [hpending] at hs
      exact .inl ⟨_, _, rfl, by decide, rfl, l, hl, .inr (.inl hs)⟩
  | stray l rest hl hstray hs =>
      rw [hpending] at hs
      exact .inl ⟨_, _, rfl, by decide, rfl, l, hl, .inr (.inr ⟨rest, hstray, hs⟩)⟩
  | crlf l rest hl hs =>
      rw [hpending] at hs
      exact .inr ⟨l, rest, _, hs, rfl, lineRead_crlf h hl hs⟩

/-! ## What the lines lead to -/

theorem parseHeaders_blank {c : HttpConn} {text : Nat} (h : StringAt c.readBuf text []) :
    parseHeaders c text =
      if c.contentLength ≠ 0 then (.noRequest, { c with checkState := .content })
      else (.getRequest, c) := by
  have hnul : c.readBuf.get text = NUL := h.get_head
  rw [parseHeaders, if_pos hnul]

/-- The value of a header: `text += n; text += strspn(text, " \t")`. -/
theorem stringAt_skipName {c : HttpConn} {text : Nat} {s name : Bytes}
    (h : StringAt c.readBuf text s) (hname : RequestLine.StartsFold s name) :
    StringAt c.readBuf (skipName c text name.length)
      ((s.drop name.length).dropWhile (fun b => blanks.contains b)) := by
  have hbehind := h.behindScheme hname
  have hspan : strspn (c.text (text + name.length)) blanks =
      ((s.drop name.length).takeWhile (fun b => blanks.contains b)).length := by
    rw [strspn, HttpConn.text, hbehind.cstr]
  rw [skipName, hspan]
  rw [← List.takeWhile_append_dropWhile (p := fun b => blanks.contains b)
    (l := s.drop name.length)] at hbehind
  exact hbehind.right

/-- A header line that is not blank. -/
theorem parseHeaders_line {c : HttpConn} {text : Nat} {s : Bytes}
    (h : StringAt c.readBuf text s) (hs : s ≠ []) :
    ∃ c', parseHeaders c text = (.noRequest, c') ∧ c'.checkState = c.checkState ∧
      c'.contentLength = lengthAfter c.contentLength s := by
  have hnul : c.readBuf.get text ≠ NUL := by
    obtain ⟨b, rest, rfl⟩ := List.exists_cons_of_ne_nil hs
    have hget : c.readBuf.get text = b := h.get_head
    rw [hget]
    exact fun heq => h.no_nul (by rw [heq]; exact List.mem_cons_self)
  have hname : ∀ name, strncasecmp (c.text text) name = strncasecmp s name := by
    intro name
    rw [strncasecmp, HttpConn.text, h.cstr, strncasecmp, cstr_eq_self h.no_nul]
  rw [parseHeaders, if_neg hnul, hname, hname, hname, lengthAfter]
  by_cases hconnection : strncasecmp s (ascii "Connection:") = true
  · rw [if_pos hconnection, if_pos hconnection]
    dsimp only
    split
    · exact ⟨_, rfl, rfl, rfl⟩
    · exact ⟨_, rfl, rfl, rfl⟩
  · rw [if_neg hconnection, if_neg hconnection]
    by_cases hlength : strncasecmp s (ascii "Content-length:") = true
    · rw [if_pos hlength, if_pos hlength]
      have hstarts := (RequestLine.strncasecmp_iff (cstr_eq_self h.no_nul)).mp hlength
      have hvalue := stringAt_skipName h hstarts
      rw [show (ascii "Content-length:").length = 15 from by decide] at hvalue
      exact ⟨_, rfl, rfl, atoi_congr (hvalue.cstr.trans (cstr_eq_self hvalue.no_nul).symm)⟩
    · rw [if_neg hlength, if_neg hlength]
      split
      · exact ⟨_, rfl, rfl, rfl⟩
      · exact ⟨_, rfl, rfl, rfl⟩

theorem lengthAfter_range {n : Int} (hlo : -2147483648 ≤ n) (hhi : n ≤ INT_MAX) (line : Bytes) :
    -2147483648 ≤ lengthAfter n line ∧ lengthAfter n line ≤ INT_MAX := by
  rw [lengthAfter]
  split
  · exact ⟨hlo, hhi⟩
  · split
    · exact wrap32_range _
    · exact ⟨hlo, hhi⟩

/-- The parser at the start of a body of which `k` bytes have arrived. -/
structure AtBody (c : HttpConn) (n : Int) (k : Nat) : Prop where
  state : c.checkState = .content
  start : c.startLine = c.checkedIdx
  length : c.contentLength = n
  low : -2147483648 ≤ n
  read : c.readIdx = c.checkedIdx + k
  read_le : c.readIdx ≤ READ_BUFFER_SIZE

/-- The loop body has done what a complete line leads to. -/
def LineAnswered (readIdx : Nat) (rest : Bytes) (x : ReadState ⊕ Except Fault ReadExit) :
    Awaits ⊕ HeadEnd → Prop
  | .inl q => ∃ c, x = .inl ⟨.lineOk, c⟩ ∧ c.readIdx = readIdx ∧ AtLine c q rest
  | .inr .rejected => ∃ c, x = .inr (.ok (.returned .badRequest c))
  | .inr .crashed => x = .inr (.error .nullPointer)
  | .inr (.body n) =>
      n = 0 ∧ (∃ c, x = .inr (.ok (.request c))) ∨
        n ≠ 0 ∧ ∃ c, x = .inl ⟨.lineOk, c⟩ ∧ c.readIdx = readIdx ∧ AtBody c n rest.length

/-- Behind a line that the loop goes on from, the parser is at the start of the next one. -/
theorem LineRead.atLine {c c' c'' : HttpConn} {q q' : Awaits} {l rest : Bytes}
    (h : LineRead c c' q l rest) (hdispatch : dispatchLine ⟨.lineOk, c'⟩ = .inl ⟨.lineOk, c''⟩)
    (hagree : AgreeBehind (c.checkedIdx + l.length) c' c'') (hq' : q'.Holds c'') :
    c''.readIdx = c.readIdx ∧ AtLine c'' q' rest := by
  have hstart : c'.startLine ≤ c.checkedIdx + l.length := by
    rw [h.start]
    omega
  obtain ⟨-, hscanned, -⟩ :=
    dispatchLine_scanned h.terminated hstart h.checked h.awaits.state hdispatch
  obtain ⟨hread, hchecked, hline, -⟩ := dispatchLine_inl hdispatch
  dsimp only at hread hchecked hline
  have hle := h.terminated.le
  have hlt := h.terminated.lt
  have hend := h.checked
  refine ⟨hread.trans h.read, hscanned, hline.trans hchecked.symm, ?_, hq'⟩
  rw [← h.pending]
  show c''.readBuf.slice c''.checkedIdx (c''.readIdx - c''.checkedIdx) = _
  rw [hread, hchecked]
  exact slice_congr (by omega) (fun k hk _ => hagree k (by omega))

theorem LineRead.dispatch_requestLine {c c' : HttpConn} {l rest : Bytes}
    (h : LineRead c c' .requestLine l rest) :
    LineAnswered c.readIdx rest (dispatchLine ⟨.lineOk, c'⟩) (nextLine .requestLine l) := by
  obtain ⟨hstate, hlength, hcgi⟩ := h.awaits
  have hdispatch := dispatchLine_requestLine (s := ⟨.lineOk, c'⟩) hstate
  have hat : LineAt { c' with startLine := c'.checkedIdx } c.checkedIdx (cstr l) :=
    ⟨h.at_line.string, h.at_line.fits⟩
  have hterm : Terminated { c' with startLine := c'.checkedIdx } (c.checkedIdx + l.length) :=
    ⟨h.terminated.nul, h.terminated.nul_succ, h.terminated.lt, h.terminated.le⟩
  rw [show ({ lineStatus := .lineOk, conn := c' } : ReadState).conn.getLine = c.checkedIdx from
    h.start] at hdispatch
  rw [nextLine]
  by_cases hhost : HostOnly (cstr l)
  · rw [if_pos hhost]
    rw [parseRequestLine_hostOnly hat hhost] at hdispatch
    exact hdispatch
  · rw [if_neg hhost]
    obtain ⟨code, c'', hparse, hno, hbad, haccepted⟩ := grammarOk_of_not_hostOnly hat hcgi hhost
    rw [hparse] at hdispatch
    by_cases haccepts : ∃ m path, Accepts (cstr l) m path
    · rw [if_pos haccepts]
      obtain rfl := hno.mpr haccepts
      obtain ⟨m, path, hpath⟩ := haccepts
      have hagree := agreeBehind_parseRequestLine hterm (by omega) hparse
      have hzero : c''.contentLength = 0 := (parseRequestLine_contentLength hparse).trans hlength
      refine ⟨c'', hdispatch, h.atLine hdispatch hagree ?_⟩
      exact ⟨(haccepted m path hpath).state, hzero, by decide, by decide⟩
    · rw [if_neg haccepts]
      obtain rfl := hbad.mpr haccepts
      exact ⟨c'', hdispatch⟩

theorem LineRead.dispatch_header {c c' : HttpConn} {n : Int} {l rest : Bytes}
    (h : LineRead c c' (.header n) l rest) :
    LineAnswered c.readIdx rest (dispatchLine ⟨.lineOk, c'⟩) (nextLine (.header n) l) := by
  obtain ⟨hstate, hlength, hlo, hhi⟩ := h.awaits
  have hdispatch := dispatchLine_header (s := ⟨.lineOk, c'⟩) hstate
  have hstring : StringAt { c' with startLine := c'.checkedIdx }.readBuf c.checkedIdx (cstr l) :=
    h.at_line.string
  have hle := h.terminated.le
  have hlt := h.terminated.lt
  have hend := h.checked
  rw [show ({ lineStatus := .lineOk, conn := c' } : ReadState).conn.getLine = c.checkedIdx from
    h.start] at hdispatch
  rw [nextLine]
  by_cases hblank : cstr l = []
  · rw [if_pos hblank]
    rw [hblank] at hstring
    rw [parseHeaders_blank hstring] at hdispatch
    by_cases hzero : n = 0
    · rw [if_neg (by rw [hlength]; exact not_not.mpr hzero)] at hdispatch
      exact .inl ⟨hzero, _, hdispatch⟩
    · rw [if_pos (by rw [hlength]; exact hzero)] at hdispatch
      refine .inr ⟨hzero, _, hdispatch, h.read, rfl, rfl, hlength, hlo, ?_, hle⟩
      show c'.readIdx = c'.checkedIdx + rest.length
      have hlen := slice_length c'.readBuf (i := c'.checkedIdx) (n := c'.readIdx - c'.checkedIdx)
        (by omega)
      rw [← h.pending, Post.pending, hlen]
      omega
  · rw [if_neg hblank]
    obtain ⟨c'', hparse, hkeep, hafter⟩ := parseHeaders_line hstring hblank
    obtain ⟨-, hbuf⟩ := parseHeaders_frame { c' with startLine := c'.checkedIdx } c.checkedIdx
    rw [hparse] at hdispatch hbuf
    have hagree : AgreeBehind (c.checkedIdx + l.length) c' c'' := by
      intro j _
      rw [hbuf]
    rw [show ({ c' with startLine := c'.checkedIdx } : HttpConn).contentLength = n from hlength]
      at hafter
    refine ⟨c'', hdispatch, h.atLine hdispatch hagree ?_⟩
    exact ⟨hkeep.trans hstate, hafter, lengthAfter_range hlo hhi _⟩

theorem LineRead.dispatch {c c' : HttpConn} {q : Awaits} {l rest : Bytes}
    (h : LineRead c c' q l rest) :
    LineAnswered c.readIdx rest (dispatchLine ⟨.lineOk, c'⟩) (nextLine q l) := by
  cases q with
  | requestLine => exact h.dispatch_requestLine
  | header n => exact h.dispatch_header

/-! ## The body -/

theorem AtBody.processReadBody {c : HttpConn} {n : Int} {k : Nat} (h : AtBody c n k) :
    processReadBody ⟨.lineOk, c⟩ = afterContent (parseContent c c.checkedIdx) := by
  have hsame : { c with startLine := c.checkedIdx } = c :=
    congrArg (fun i => { c with startLine := i }) h.start.symm
  have hdispatch := dispatchLine_content (s := ⟨.lineOk, c⟩) h.state
  rw [processReadBody_eq, if_pos ⟨h.state, rfl⟩, hdispatch, getLine, h.start]
  exact congrArg (fun d => afterContent (parseContent d c.checkedIdx)) hsame

/-- `parse_content` for a body that has been received: the sum does not overflow. -/
theorem AtBody.parseContent {c : HttpConn} {n : Int} {k : Nat} (h : AtBody c n k) (hn : n ≤ k) :
    parseContent c c.checkedIdx =
      if 0 ≤ (c.checkedIdx : Int) + n ∧ (c.checkedIdx : Int) + n < READ_BUFFER_SIZE then
        .ok (.getRequest, { c.store ((c.checkedIdx : Int) + n).toNat NUL with
          string := some c.checkedIdx })
      else .error .outOfBounds := by
  have hlow := h.low
  have hread := h.read
  have hread_le := h.read_le
  have hcap : READ_BUFFER_SIZE = 2048 := rfl
  have hmax : INT_MAX = 2147483647 := rfl
  have hsum : wrap32 (c.contentLength + c.checkedIdx) = n + c.checkedIdx := by
    rw [h.length]
    apply wrap32_of_range <;> omega
  rw [Post.parseContent, hsum, if_pos (by omega), h.length]

/-- A call that waits for more of the body has a positive content length. -/
theorem AtBody.length_pos {c c' : HttpConn} {n : Int} {k : Nat} (h : AtBody c n k)
    (hwait : readFrom ⟨.lineOk, c⟩ = .ok (.returned .noRequest c')) : 0 < n := by
  by_contra hneg
  have hbody := h.processReadBody
  rw [h.parseContent (by omega)] at hbody
  split at hbody
  · rw [readFrom_done hbody] at hwait
    cases hwait
  · rw [readFrom_done hbody] at hwait
    cases hwait

/-- A complete body ends the request. -/
theorem AtBody.complete {c : HttpConn} {n : Int} {k : Nat} (h : AtBody c n k) (hn : n ≤ k)
    (hlow : 0 ≤ (c.checkedIdx : Int) + n) (hroom : (c.checkedIdx : Int) + n < READ_BUFFER_SIZE) :
    ∃ c', readFrom ⟨.lineOk, c⟩ = .ok (.request c') := by
  have hbody := h.processReadBody
  rw [h.parseContent hn, if_pos ⟨hlow, hroom⟩] at hbody
  exact ⟨_, readFrom_done hbody⟩

/-! ## The scan and the code -/

/-- One call of `process_read` on a new connection, with `received` bytes in the buffer, ends as
the scan says: in front of the blank line it waits, rejects the request or crashes.  Behind the
blank line it waits only for a body that is to come, and ends the request when the body is
there. -/
def Answers (received : Nat) (r : Except Fault ReadExit) : Scan Awaits HeadEnd → Prop
  | .line _ _ | .cr _ _ | .stray =>
      ∃ c, r = .ok (.returned .noRequest c) ∧ c.checkState ≠ .content
  | .left .rejected _ => ∃ c, r = .ok (.returned .badRequest c)
  | .left .crashed _ => r = .error .nullPointer
  | .left (.body n) k =>
      (∀ c, r = .ok (.returned .noRequest c) → 0 < n) ∧
        (n ≤ k → 0 ≤ (received : Int) - k + n → (received : Int) - k + n < READ_BUFFER_SIZE →
          ∃ c, r = .ok (.request c))

theorem AtLine.answers {c : HttpConn} {q : Awaits} {s : Bytes} (h : AtLine c q s) :
    Answers c.readIdx (readFrom ⟨.lineOk, c⟩) (scan nextLine (.line q []) s) := by
  -- induction on the bytes that are left: each complete line takes some of them
  induction hlen : s.length using Nat.strongRecOn generalizing c q s with
  | ind len ih =>
      have hline : ¬ (c.checkState = .content ∧ LineStatus.lineOk = .lineOk) :=
        fun hc => h.awaits.state hc.1
      rcases h.parseLine with ⟨st, c', hparse, hst, hkeep, l, hl, hs⟩ |
        ⟨l, rest, c', rfl, hparse, hread⟩
      · have hwait : readFrom ⟨.lineOk, c⟩ = .ok (.returned .noRequest c') := by
          apply readFrom_done
          rw [processReadBody_eq, if_neg hline, hparse]
          cases st with
          | lineOk => exact absurd rfl hst
          | lineBad => rfl
          | lineOpen => rfl
        have hstate : c'.checkState ≠ .content := by
          rw [hkeep]
          exact h.awaits.state
        rcases hs with rfl | rfl | ⟨rest, hstray, rfl⟩
        · rw [scan_oneLine _ _ _ hl]
          exact ⟨c', hwait, hstate⟩
        · rw [scan_append, scan_oneLine _ _ _ hl]
          exact ⟨c', hwait, hstate⟩
        · rw [scan_append, scan_oneLine _ _ _ hl, scan_startsStray _ _ _ hstray]
          exact ⟨c', hwait, hstate⟩
      · have hstep : processReadBody ⟨.lineOk, c⟩ = dispatchLine ⟨.lineOk, c'⟩ := by
          rw [processReadBody_eq, if_neg hline, hparse]
        have hanswer := hread.dispatch
        rw [scan_line _ _ hread.line, endLine]
        rcases hq : nextLine q l with q' | _ | _ | n
        · rw [hq] at hanswer
          obtain ⟨d, hdispatch, hidx, hd⟩ := hanswer
          rw [readFrom_next (hstep.trans hdispatch), ← hidx]
          have hshort : rest.length < len := by
            rw [← hlen, List.length_append, List.length_append, crlf]
            simp only [List.length_cons, List.length_nil]
            omega
          exact ih rest.length hshort hd rfl
        · rw [hq] at hanswer
          obtain ⟨d, hdispatch⟩ := hanswer
          dsimp only
          rw [readFrom_done (hstep.trans hdispatch), scan_left]
          exact ⟨d, rfl⟩
        · rw [hq] at hanswer
          dsimp only
          rw [readFrom_done (hstep.trans hanswer), scan_left]
          rfl
        · rw [hq] at hanswer
          dsimp only
          rw [scan_left, Nat.zero_add]
          rcases hanswer with ⟨rfl, d, hdispatch⟩ | ⟨-, d, hdispatch, hcall, hd⟩
          · rw [readFrom_done (hstep.trans hdispatch)]
            exact ⟨fun _ hc' => (by cases hc'), fun _ _ _ => ⟨d, rfl⟩⟩
          · rw [readFrom_next (hstep.trans hdispatch), ← hcall]
            have hidx := hd.read
            refine ⟨fun c' hc' => hd.length_pos hc', fun hn hlow hroom => ?_⟩
            exact hd.complete hn (by omega) (by omega)

/-- One call on the whole stream. -/
theorem processReadLoop_scan (c : HttpConn) {t : Bytes} (ht : t.length ≤ READ_BUFFER_SIZE) :
    Answers t.length (processReadLoop (c.init.recv t)) (parseScan t) := by
  have hanswer := (atLine_recv c ht).answers
  rw [show (c.init.recv t).readIdx = t.length from Nat.zero_add _] at hanswer
  exact hanswer

/-! ## The bytes in chunks -/

/-- Behind a result other than `NO_REQUEST` the run is over. -/
theorem feed_append_done {w : World} {ds : List Bytes} : ∀ {c : HttpConn},
    (∀ c' w', feed w c ds ≠ .ok (.noRequest, c', w')) → ∀ es, feed w c (ds ++ es) = feed w c ds := by
  induction ds with
  | nil =>
      intro c h es
      exact absurd rfl (h c w)
  | cons d ds ih =>
      intro c h es
      rw [List.cons_append]
      unfold feed at h ⊢
      split
      · rename_i c₁ w₁ hcall
        rw [hcall] at h
        exact ih h es
      · rfl

/-- A run ends as the scan says. -/
def FeedAnswers (r : ReadResult) : Scan Awaits HeadEnd → Prop
  | .line _ _ | .cr _ _ | .stray => waiting r = true
  | .left .rejected _ => ∃ c w, r = .ok (.badRequest, c, w)
  | .left .crashed _ => r = .error .nullPointer
  | .left (.body n) _ => ∀ c w, r = .ok (.noRequest, c, w) → 0 < n

theorem feed_singleton (w : World) (c : HttpConn) (t : Bytes) :
    feed w c [t] = processRead w (c.recv t) := by
  rw [feed]
  split
  · rename_i c' w' h
    obtain ⟨-, rfl⟩ := processRead_noRequest h
    exact h.symm
  · rfl

theorem feed_singleton_scan (w : World) (c : HttpConn) {t : Bytes}
    (ht : t.length ≤ READ_BUFFER_SIZE) : FeedAnswers (feed w c.init [t]) (parseScan t) := by
  have hanswer := processReadLoop_scan c ht
  rw [feed_singleton, processRead]
  have hwait : (∃ c', processReadLoop (c.init.recv t) = .ok (.returned .noRequest c') ∧
      c'.checkState ≠ .content) →
        waiting (finishRead w (processReadLoop (c.init.recv t))) = true := by
    rintro ⟨c', hloop, hstate⟩
    rw [hloop, waiting_iff]
    exact ⟨c', w, rfl, hstate⟩
  rcases hz : parseScan t with ⟨q, l⟩ | ⟨q, l⟩ | _ | ⟨_ | _ | n, k⟩
  · rw [hz] at hanswer
    exact hwait hanswer
  · rw [hz] at hanswer
    exact hwait hanswer
  · rw [hz] at hanswer
    exact hwait hanswer
  · rw [hz] at hanswer
    obtain ⟨c', hloop⟩ := hanswer
    rw [hloop]
    exact ⟨c', w, rfl⟩
  · rw [hz] at hanswer
    rw [show processReadLoop (c.init.recv t) = .error .nullPointer from hanswer]
    rfl
  · rw [hz] at hanswer
    intro c' w' hfeed
    exact hanswer.1 c' (processRead_noRequest hfeed).1

/-- The result of a run depends on the bytes: in front of the blank line it is that of one
call, and behind it the run waits only for a body that is to come. -/
theorem feed_scan (w : World) (c : HttpConn) (ds : List Bytes)
    (hfits : ds.flatten.length ≤ READ_BUFFER_SIZE) :
    FeedAnswers (feed w c.init ds) (parseScan ds.flatten) := by
  -- induction on the number of chunks: what a shorter run has decided stays decided
  induction hlen : ds.length using Nat.strongRecOn generalizing ds with
  | ind len ih =>
      by_cases hall : ∀ n, n < ds.length → waiting (feed w c.init (ds.take n)) = true
      · cases ds with
        | nil => exact rfl
        | cons d rest =>
            rw [feed_resume w rest c.init d (scanned_init c) (by simp [init])
              (by rwa [show c.init.readIdx = 0 from rfl, Nat.zero_add]) hall]
            exact feed_singleton_scan w c hfits
      · push Not at hall
        obtain ⟨n, hn, hdone⟩ := hall
        have hsplit : ds.flatten = (ds.take n).flatten ++ (ds.drop n).flatten := by
          rw [← List.flatten_append, List.take_append_drop]
        have hshort : (ds.take n).flatten.length ≤ READ_BUFFER_SIZE := by
          rw [hsplit, List.length_append] at hfits
          omega
        have hprefix := ih n (by omega) (ds.take n) hshort (List.length_take_of_le (by omega))
        have hfeed : feed w c.init ds = feed w c.init (ds.take n ++ ds.drop n) := by
          rw [List.take_append_drop]
        rw [hsplit, parseScan_append, hfeed]
        rcases hz : parseScan (ds.take n).flatten with ⟨q, l⟩ | ⟨q, l⟩ | _ | ⟨_ | _ | m, k⟩
        · rw [hz] at hprefix
          exact absurd hprefix hdone
        · rw [hz] at hprefix
          exact absurd hprefix hdone
        · rw [hz] at hprefix
          exact absurd hprefix hdone
        · rw [hz] at hprefix
          obtain ⟨c', w', hbad⟩ := hprefix
          rw [scan_left, feed_append_done (fun _ _ h => by rw [hbad] at h; cases h)]
          exact ⟨c', w', hbad⟩
        · rw [hz] at hprefix
          have hcrash : feed w c.init (ds.take n) = .error .nullPointer := hprefix
          rw [scan_left, feed_append_done (fun _ _ h => by rw [hcrash] at h; cases h)]
          exact hcrash
        · rw [hz] at hprefix
          rw [scan_left]
          intro c' w' hresult
          by_cases hwait : ∃ c₁ w₁, feed w c.init (ds.take n) = .ok (.noRequest, c₁, w₁)
          · obtain ⟨c₁, w₁, h₁⟩ := hwait
            exact hprefix c₁ w₁ h₁
          · push Not at hwait
            rw [feed_append_done hwait] at hresult
            exact absurd hresult (hwait c' w')

end EasyWebServer.Post
