import EasyWebServer.Get.Request
import EasyWebServer.Get.RequestLine
import EasyWebServer.Post.ContentLength
import EasyWebServer.Post.Isolation
import EasyWebServer.Post.RequestText

/-!
# The two parsers

The parser of the POST server was made from the one of the GET server.  It takes another method
and another scheme, stores `judge.html` behind a bare `/`, and keeps the body; behind the request
line the two do the same.

* `SameScan` compares two scanners from an index `b` on.
* `Same` compares the connections behind a request line that both accept, and `b` is the end of
  that line.  `parse_line`, `parse_headers` and `parse_content` keep it up to the call of
  `do_request` (`Asked`).
* `Unread.requestLine` is the request line: the GET server rejects it, or both accept it.

`requestOf_agree` puts the calls together: what the GET server calls `do_request` for, the POST
server does too.
-/

namespace EasyWebServer.Get

open CString CInt HttpConn CharBuf Common
open Post (servedPath)

/-! ## The scanners -/

/-- The scanners are at the same place, and see the same bytes from `b` on.  Neither finds a CR
in front of `b`. -/
structure SameScan (b : Nat) (g : HttpConn) (p : Post.HttpConn) : Prop where
  readIdx : p.readIdx = g.readIdx
  checkedIdx : p.checkedIdx = g.checkedIdx
  bytes : ∀ j, b ≤ j → p.readBuf.get j = g.readBuf.get j
  le : b ≤ g.checkedIdx
  front : b = 0 ∨ g.readBuf.get (b - 1) ≠ CR ∧ p.readBuf.get (b - 1) ≠ CR

namespace SameScan

variable {b : Nat} {g : HttpConn} {p : Post.HttpConn}

/-- The two calls of `parse_line`. -/
theorem parseLine (h : SameScan b g p) :
    LineBuf.BothScan b g.lineBuf p.lineBuf g.lineBuf.parseLine p.lineBuf.parseLine :=
  LineBuf.SameFrom.parseLine ⟨h.readIdx, h.checkedIdx, h.bytes, h.le, h.front⟩

/-- They give the same answer. -/
theorem status (h : SameScan b g p) : (Post.parseLine p).1 = (Get.parseLine g).1 :=
  h.parseLine.status

/-- The bytes of one `recv`. -/
theorem recv (h : SameScan b g p) (hfront : b ≤ g.readIdx) (d : Bytes) :
    SameScan b (g.recv d) (p.recv d) := by
  have hle := h.le
  refine ⟨by rw [HttpConn.recv, Post.HttpConn.recv, h.readIdx], h.checkedIdx, ?_, hle, ?_⟩
  · intro j hj
    show (p.readBuf.write p.readIdx d).get j = (g.readBuf.write g.readIdx d).get j
    rw [get_write, get_write, h.readIdx, h.bytes j hj]
    rfl
  · rcases h.front with hzero | ⟨hg, hp⟩
    · exact .inl hzero
    · by_cases hb : b = 0
      · exact .inl hb
      · refine .inr ⟨?_, ?_⟩
        · show (g.readBuf.write g.readIdx d).get (b - 1) ≠ CR
          rwa [get_write_lt _ _ (by omega)]
        · show (p.readBuf.write p.readIdx d).get (b - 1) ≠ CR
          rwa [get_write_lt _ _ (by rw [h.readIdx]; omega)]

end SameScan

/-! ## Behind the request line -/

/-- The pointer is at a string that ends before `b`. -/
def PlacedBefore {cap : Nat} (b : Nat) (buf : CharBuf cap) (pointer : Option Nat) (s : Bytes) :
    Prop :=
  ∃ i, pointer = some i ∧ StringAt buf i s ∧ i + s.length < b

theorem PlacedBefore.mono {cap b : Nat} {buf buf' : CharBuf cap} {pointer : Option Nat} {s : Bytes}
    (h : PlacedBefore b buf pointer s) (hbefore : ∀ j, j < b → buf'.get j = buf.get j) :
    PlacedBefore b buf' pointer s := by
  obtain ⟨i, hi, hstring, hlt⟩ := h
  refine ⟨i, hi, ⟨hstring.no_nul, hstring.fits, fun k hk => ?_⟩, hlt⟩
  rw [hbefore (i + k) (by omega)]
  exact hstring.get_eq k hk

/-- A pointer into a line that ends at the NUL at `e`. -/
theorem PlacedBefore.of_line {cap b e : Nat} {buf : CharBuf cap} {pointer : Option Nat} {s : Bytes}
    (h : ∃ i, pointer = some i ∧ cstr (buf.view i) = s) (hline : ∀ i ∈ pointer, i ≤ e)
    (he : e < cap) (hnul : buf.get e = NUL) (hb : e < b) : PlacedBefore b buf pointer s := by
  obtain ⟨i, hi, hcstr⟩ := h
  have hend := CharBuf.add_strlen_le buf (hline i hi) he hnul
  rw [strlen, hcstr] at hend
  exact ⟨i, hi, .of_cstr hcstr (by omega), by omega⟩

theorem PlacedBefore.cstr {cap b : Nat} {buf : CharBuf cap} {pointer : Option Nat} {s : Bytes}
    (h : PlacedBefore b buf pointer s) : ∃ i, pointer = some i ∧ cstr (buf.view i) = s := by
  obtain ⟨i, hi, hstring, -⟩ := h
  exact ⟨i, hi, hstring.cstr⟩

/-- Both call `do_request` for the path, with the same header lines and the same body.  A
negative `m_content_length` has moved the NUL of `parse_content` in front of the body, so the
path may be cut. -/
structure Asked (path : Bytes) (g : HttpConn) (p : Post.HttpConn) : Prop where
  method : g.method = .get ∧ p.method = .get
  linger : p.linger = g.linger
  contentLength : p.contentLength = g.contentLength
  readIdx : p.readIdx = g.readIdx
  checkedIdx : p.checkedIdx = g.checkedIdx
  startLine : p.startLine = g.startLine
  host : p.host = g.host
  hostText : ∀ i ∈ g.host, p.text i = g.text i
  body : p.text p.checkedIdx = g.text g.checkedIdx
  url : 0 ≤ g.contentLength → (∃ i, g.url = some i ∧ cstr (g.text i) = path) ∧
    ∃ i, p.url = some i ∧ cstr (p.text i) = servedPath path

/-- Both have accepted a request line for the path, which ends before `b`, and have read the same
header lines since. -/
structure Same (b : Nat) (path : Bytes) (g : HttpConn) (p : Post.HttpConn) : Prop
    extends SameScan b g p where
  received : b ≤ g.readIdx
  startLine : p.startLine = g.startLine
  start : b ≤ g.startLine
  checkState : p.checkState = g.checkState
  behind : g.checkState ≠ .requestLine
  method : g.method = .get ∧ p.method = .get
  linger : p.linger = g.linger
  contentLength : p.contentLength = g.contentLength
  host : p.host = g.host
  host_behind : ∀ i ∈ g.host, b ≤ i
  getUrl : PlacedBefore b g.readBuf g.url path
  postUrl : PlacedBefore b p.readBuf p.url (servedPath path)

namespace Same

variable {b : Nat} {path : Bytes} {g : HttpConn} {p : Post.HttpConn}

/-- Strings from `b` on are the same. -/
theorem text (h : Same b path g p) {i : Nat} (hi : b ≤ i) : p.text i = g.text i :=
  view_congr (a := p.readBuf) (b := g.readBuf) (fun j hj => h.bytes j (Nat.le_trans hi hj))

/-- The connections behind `parse_line`. -/
theorem scanned (h : Same b path g p) : Same b path (parseLine g).2 (Post.parseLine p).2 := by
  obtain ⟨-, hchecked, hle, hbytes, hbefore⟩ := h.toSameScan.parseLine
  have hfront := h.front
  exact {
    readIdx := h.readIdx
    checkedIdx := hchecked
    bytes := hbytes
    le := Nat.le_trans h.le hle
    front := by
      rcases hfront with hzero | hcr
      · exact .inl hzero
      · by_cases hb : b = 0
        · exact .inl hb
        · obtain ⟨hlast, hlast'⟩ := hbefore (b - 1) (by omega)
          exact .inr ⟨hlast.trans_ne hcr.1, hlast'.trans_ne hcr.2⟩
    received := h.received
    startLine := h.startLine
    start := h.start
    checkState := h.checkState
    behind := h.behind
    method := h.method
    linger := h.linger
    contentLength := h.contentLength
    host := h.host
    host_behind := h.host_behind
    getUrl := h.getUrl.mono fun j hj => (hbefore j hj).1
    postUrl := h.postUrl.mono fun j hj => (hbefore j hj).2 }

/-- The bytes of one `recv`. -/
theorem recv (h : Same b path g p) (d : Bytes) : Same b path (g.recv d) (p.recv d) := by
  have hscan := h.toSameScan.recv h.received d
  have hkept : ∀ j, j < b → (g.readBuf.write g.readIdx d).get j = g.readBuf.get j ∧
      (p.readBuf.write p.readIdx d).get j = p.readBuf.get j := by
    intro j hj
    have hlt := Nat.lt_of_lt_of_le hj h.received
    exact ⟨get_write_lt _ _ hlt, get_write_lt _ _ (by rwa [h.readIdx])⟩
  exact { h with
    readIdx := hscan.readIdx
    bytes := hscan.bytes
    front := hscan.front
    received := Nat.le_add_right_of_le h.received
    getUrl := h.getUrl.mono fun j hj => (hkept j hj).1
    postUrl := h.postUrl.mono fun j hj => (hkept j hj).2 }

/-- `m_start_line` moves to `m_checked_idx` in both. -/
theorem nextLine (h : Same b path g p) :
    Same b path { g with startLine := g.checkedIdx } { p with startLine := p.checkedIdx } :=
  { h with startLine := h.checkedIdx, start := h.le }

/-- The two spellings of the field name. -/
theorem contentLength_fold (mem : Bytes) :
    strncasecmp mem (ascii "Content-length:") = strncasecmp mem (ascii "Content-Length:") := by
  have hlen : (ascii "Content-length:").length = (ascii "Content-Length:").length := by decide
  have hlower : (ascii "Content-length:").map toLower = (ascii "Content-Length:").map toLower := by
    decide
  rw [strncasecmp, strncasecmp, hlen, hlower]

/-- The two calls of `parse_headers`. -/
theorem parseHeaders (h : Same b path g p) {i : Nat} (hi : b ≤ i) :
    ∃ code g' p', code ≠ .badRequest ∧ parseHeaders g i = (code, g') ∧
      Post.parseHeaders p i = (code, p') ∧ Same b path g' p' := by
  have hmethod : ¬ g.method = .head := by
    rw [h.method.1]
    decide
  have hskip : ∀ n, Post.skipName p i n = skipName g i n := by
    intro n
    rw [Post.skipName, skipName, h.text (Nat.le_trans hi (Nat.le_add_right i n))]
  have hbehind : ∀ n, b ≤ skipName g i n := by
    intro n
    rw [skipName]
    omega
  rw [Get.parseHeaders, Post.parseHeaders, h.bytes i hi, h.text hi, contentLength_fold,
    h.contentLength, if_neg hmethod]
  dsimp only
  rw [hskip, hskip, hskip, h.text (hbehind 11), h.text (hbehind 15)]
  split_ifs
  · exact ⟨_, _, _, by decide, rfl, rfl, { h with
      checkState := rfl
      behind := fun hst => by cases hst
      contentLength := rfl }⟩
  · exact ⟨_, _, _, by decide, rfl, rfl, h⟩
  · exact ⟨_, _, _, by decide, rfl, rfl, { h with linger := rfl, contentLength := rfl }⟩
  · exact ⟨_, _, _, by decide, rfl, rfl, h⟩
  · exact ⟨_, _, _, by decide, rfl, rfl, { h with contentLength := rfl }⟩
  · refine ⟨_, _, _, by decide, rfl, rfl, { h with
      host := rfl
      contentLength := rfl
      host_behind := ?_ }⟩
    rintro j hj
    cases hj
    exact hbehind 5
  · exact ⟨_, _, _, by decide, rfl, rfl, h⟩

/-- The blank line leads to `do_request`. -/
theorem asked (h : Same b path g p) : Asked path g p where
  method := h.method
  linger := h.linger
  contentLength := h.contentLength
  readIdx := h.readIdx
  checkedIdx := h.checkedIdx
  startLine := h.startLine
  host := h.host
  hostText := fun i hi => h.text (h.host_behind i hi)
  body := by
    rw [h.checkedIdx]
    exact h.text h.le
  url := fun _ => ⟨h.getUrl.cstr, h.postUrl.cstr⟩

/-- The NUL that `parse_content` stores, at the same place in both. -/
theorem terminate (h : Same b path g p) {i : Nat} (hi : 0 ≤ g.contentLength → b ≤ i)
    (string : Option Nat) :
    Asked path (g.store i NUL) { p.store i NUL with string := string } where
  method := h.method
  linger := h.linger
  contentLength := h.contentLength
  readIdx := h.readIdx
  checkedIdx := h.checkedIdx
  startLine := h.startLine
  host := h.host
  hostText := fun k hk => view_congr fun j hj =>
    get_set_congr (h.bytes j (Nat.le_trans (h.host_behind k hk) hj)) NUL
  body := by
    show (p.readBuf.set i NUL).view p.checkedIdx = (g.readBuf.set i NUL).view g.checkedIdx
    rw [h.checkedIdx]
    exact view_congr fun j hj => get_set_congr (h.bytes j (Nat.le_trans h.le hj)) NUL
  url := by
    intro hlength
    have hi := hi hlength
    exact ⟨(h.getUrl.mono fun j hj => get_set_ne _ _ (by omega)).cstr,
      (h.postUrl.mono fun j hj => get_set_ne _ _ (by omega)).cstr⟩

/-- The two calls of `parse_content`. -/
theorem parseContent (h : Same b path g p) {i : Nat} (hi : b ≤ i) :
    (parseContent g i = .error .outOfBounds ∧ Post.parseContent p i = .error .outOfBounds) ∨
      (parseContent g i = .ok (.noRequest, g) ∧ Post.parseContent p i = .ok (.noRequest, p)) ∨
      ∃ g' p', parseContent g i = .ok (.getRequest, g') ∧
        Post.parseContent p i = .ok (.getRequest, p') ∧ Asked path g' p' := by
  rw [Get.parseContent, Post.parseContent, h.contentLength, h.checkedIdx, h.readIdx]
  dsimp only
  rw [show Post.READ_BUFFER_SIZE = READ_BUFFER_SIZE from rfl]
  split_ifs with hfits hinside
  · refine .inr (.inr ⟨_, _, rfl, rfl, ?_⟩)
    exact h.terminate (fun hlength => by omega) (some i)
  · exact .inl ⟨rfl, rfl⟩
  · exact .inr (.inl ⟨rfl, rfl⟩)

end Same

/-! ## The request line -/

/-- What `parse_request_line` keeps, for a line that ends at the NUL at `e`, and where it leaves
`m_url`. -/
structure LineKept (e : Nat) (c c' : HttpConn) : Prop where
  behind : ∀ j, e < j → c'.readBuf.get j = c.readBuf.get j
  nul : c'.readBuf.get e = NUL
  url : ∀ u ∈ c'.url, u ≤ e
  method : c.method = .get → c'.method = .get
  linger : c'.linger = c.linger
  contentLength : c'.contentLength = c.contentLength
  host : c'.host = c.host

section

variable {c : HttpConn} {e : Nat}

theorem skipHttp_le (he : e < READ_BUFFER_SIZE) (hnul : c.readBuf.get e = NUL) {url : Nat}
    (hu : url ≤ e) : ∀ u ∈ skipHttp c url, u ≤ e := by
  intro u hmem
  have hlen := CharBuf.add_strlen_le c.readBuf hu he hnul
  rw [skipHttp] at hmem
  split_ifs at hmem with hhttp
  · have hname := strncasecmp_length hhttp
    rw [show (ascii "http://").length = 7 by decide, HttpConn.text] at hname
    have hlen' := CharBuf.add_strlen_le c.readBuf (i := url + 7) (by omega) he hnul
    obtain ⟨k, hk, rfl⟩ := Option.map_eq_some_iff.mp hmem
    have hlt := strchr_lt hk
    rw [HttpConn.text] at hlt
    omega
  · cases hmem
    exact hu

/-- The end of the line stores nothing. -/
theorem finishPath_kept (hnul : c.readBuf.get e = NUL) (hu : ∀ u ∈ c.url, u ≤ e) :
    LineKept e c (finishPath c).2 := by
  unfold finishPath
  split
  · exact ⟨fun _ _ => rfl, hnul, hu, id, rfl, rfl, rfl⟩
  · split_ifs <;> exact ⟨fun _ _ => rfl, hnul, hu, id, rfl, rfl, rfl⟩

theorem parseVersion_kept (he : e < READ_BUFFER_SIZE) (hnul : c.readBuf.get e = NUL) {url : Nat}
    (hu : url ≤ e) : LineKept e c (parseVersion c url).2 := by
  have hlen := CharBuf.add_strlen_le c.readBuf hu he hnul
  have hspan := strspn_le (c.text url) blanks
  rw [HttpConn.text] at hspan
  unfold parseVersion
  rw [HttpConn.text]
  dsimp only
  generalize hstart : url + strspn (c.readBuf.view url) blanks = start
  have hle : start ≤ e := by omega
  have hlen' := CharBuf.add_strlen_le c.readBuf hle he hnul
  split
  · refine ⟨fun _ _ => rfl, hnul, fun u hmem => ?_, id, rfl, rfl, rfl⟩
    cases hmem
    exact hle
  · rename_i k hk
    have hlt := strpbrk_lt hk
    rw [HttpConn.text] at hlt
    -- the NUL behind the URL is stored in the line
    have hbehind : ∀ j, e < j → (c.store (start + k) NUL).readBuf.get j = c.readBuf.get j :=
      fun j hj => get_set_ne _ _ (by omega)
    have hnul' : (c.store (start + k) NUL).readBuf.get e = NUL :=
      (get_set_ne _ _ (by omega)).trans hnul
    split_ifs
    · have hskip := skipHttp_le (c := c.store (start + k) NUL) he hnul' hle
      have hkept := finishPath_kept (c := { c.store (start + k) NUL with
        url := skipHttp (c.store (start + k) NUL) start
        version := some (start + k + 1 +
          strspn ((c.store (start + k) NUL).text (start + k + 1)) blanks) }) hnul' hskip
      exact ⟨fun j hj => (hkept.behind j hj).trans (hbehind j hj), hkept.nul, hkept.url,
        hkept.method, hkept.linger, hkept.contentLength, hkept.host⟩
    · refine ⟨hbehind, hnul', fun u hmem => ?_, id, rfl, rfl, rfl⟩
      cases hmem
      exact hle

theorem parseRequestLine_kept (he : e < READ_BUFFER_SIZE) (hnul : c.readBuf.get e = NUL)
    {text : Nat} (ht : text ≤ e) : LineKept e c (parseRequestLine c text).2 := by
  have hlen := CharBuf.add_strlen_le c.readBuf ht he hnul
  unfold parseRequestLine
  dsimp only
  split
  · exact ⟨fun _ _ => rfl, hnul, fun u hmem => (by cases hmem), id, rfl, rfl, rfl⟩
  · rename_i k hk
    have hlt := strpbrk_lt hk
    rw [HttpConn.text] at hlt
    have hbehind : ∀ j, e < j → (c.store (text + k) NUL).readBuf.get j = c.readBuf.get j :=
      fun j hj => get_set_ne _ _ (by omega)
    have hnul' : (c.store (text + k) NUL).readBuf.get e = NUL :=
      (get_set_ne _ _ (by omega)).trans hnul
    split_ifs
    · have hle : text + k + 1 ≤ e := by omega
      have hkept := parseVersion_kept (c := { c.store (text + k) NUL with
        url := some (text + k + 1)
        method := .get }) he hnul' hle
      exact ⟨fun j hj => (hkept.behind j hj).trans (hbehind j hj), hkept.nul, hkept.url,
        fun _ => hkept.method rfl, hkept.linger, hkept.contentLength, hkept.host⟩
    · refine ⟨hbehind, hnul', fun u hmem => ?_, id, rfl, rfl, rfl⟩
      cases hmem
      omega

end

/-- The POST server serves every line that the GET server serves. -/
theorem Accepts.post {line path : Bytes} (h : Accepts line path) : Post.Accepts line .get path := by
  obtain ⟨target, hwell, hpath, hslash⟩ := h
  refine ⟨target, .inl ⟨rfl, hwell⟩, ?_, hslash⟩
  rw [Post.urlPath_eq]
  rw [urlPath_eq] at hpath
  split_ifs at hpath ⊢ with hhttp hhttps
  · exact hpath
  · -- a path does not start with a scheme
    cases hpath
    exact absurd hhttps (Post.not_startsFold_of_slash hslash)
  · exact hpath

/-! ## The loop of process_read -/

/-- Nothing has been read of the request. -/
structure Unread (g : HttpConn) (p : Post.HttpConn) : Prop extends SameScan 0 g p where
  startLine : p.startLine = g.startLine
  checkState : g.checkState = .requestLine ∧ p.checkState = .requestLine
  method : g.method = .get
  linger : p.linger = g.linger
  contentLength : p.contentLength = g.contentLength
  host : g.host = none ∧ p.host = none
  cgi : p.cgi = 0

/-- Both wait for the request line. -/
structure Start (g : HttpConn) (p : Post.HttpConn) : Prop extends Unread g p where
  scanned : Post.Scanned p

/-- Both wait for the rest of the same request. -/
inductive Paired (g : HttpConn) (p : Post.HttpConn) : Prop where
  | start (h : Start g p)
  | behind {b : Nat} {path : Bytes} (h : Same b path g p)

/-- Behind the request line, the two loops of `process_read` leave alike. -/
inductive ExitSame (path : Bytes) : Except Fault ReadExit → Except Fault Post.ReadExit → Prop where
  | fault (f : Fault) : ExitSame path (.error f) (.error f)
  | waits {b : Nat} {g : HttpConn} {p : Post.HttpConn} (h : Same b path g p) :
      ExitSame path (.ok (.returned .noRequest g)) (.ok (.returned .noRequest p))
  | request {g : HttpConn} {p : Post.HttpConn} (h : Asked path g p) :
      ExitSame path (.ok (.request g)) (.ok (.request p))

/-- The two loops of `process_read` leave alike. -/
inductive ExitPaired : Except Fault ReadExit → Except Fault Post.ReadExit → Prop where
  | fault (f : Fault) : ExitPaired (.error f) (.error f)
  | waits {g : HttpConn} {p : Post.HttpConn} (h : Paired g p) :
      ExitPaired (.ok (.returned .noRequest g)) (.ok (.returned .noRequest p))
  | request {path : Bytes} {g : HttpConn} {p : Post.HttpConn} (h : Asked path g p) :
      ExitPaired (.ok (.request g)) (.ok (.request p))

theorem ExitSame.paired {path : Bytes} {r : Except Fault ReadExit}
    {r' : Except Fault Post.ReadExit} (h : ExitSame path r r') : ExitPaired r r' := by
  cases h with
  | fault f => exact .fault f
  | waits h => exact .waits (.behind h)
  | request h => exact .request h

/-- The GET server rejects the request. -/
def Rejected (r : Except Fault ReadExit) : Prop := ∃ c, r = .ok (.returned .badRequest c)

/-- The states of the two loops behind the request line. -/
def StateSame (path : Bytes) (s : ReadState) (t : Post.ReadState) : Prop :=
  t.lineStatus = s.lineStatus ∧ ∃ b, Same b path s.conn t.conn

/-- The states of the two loops. -/
def StatePaired (s : ReadState) (t : Post.ReadState) : Prop :=
  t.lineStatus = s.lineStatus ∧ Paired s.conn t.conn

namespace Same

variable {b : Nat} {path : Bytes} {g : HttpConn} {p : Post.HttpConn}

/-- An iteration with a header line, or with the body. -/
theorem dispatchLine (h : Same b path g p) (st : LineStatus) :
    Loop.Follows (StateSame path) (ExitSame path) (fun _ => False) (dispatchLine ⟨st, g⟩)
      (Post.dispatchLine ⟨st, p⟩) := by
  have hnext := h.nextLine
  have hline : p.getLine = g.getLine := h.startLine
  have hbehind : b ≤ g.getLine := h.start
  cases hstate : g.checkState with
  | requestLine => exact absurd hstate h.behind
  | header =>
    obtain ⟨code, g', p', hne, hget, hpost, hsame⟩ := hnext.parseHeaders hbehind
    rw [dispatchLine_header (s := ⟨st, g⟩) hstate,
      Post.dispatchLine_header (s := ⟨st, p⟩) (h.checkState.trans hstate)]
    dsimp only
    rw [hline, hget, hpost]
    cases code with
    | badRequest => exact absurd rfl hne
    | getRequest => exact .done (.request hsame.asked)
    | _ => exact .next ⟨rfl, b, hsame⟩
  | content =>
    rw [dispatchLine_content (s := ⟨st, g⟩) hstate,
      Post.dispatchLine_content (s := ⟨st, p⟩) (h.checkState.trans hstate)]
    dsimp only
    rw [hline]
    obtain ⟨hget, hpost⟩ | ⟨hget, hpost⟩ | ⟨g', p', hget, hpost, hasked⟩ :=
      hnext.parseContent hbehind
    · rw [hget, hpost]
      exact .done (.fault .outOfBounds)
    · rw [hget, hpost]
      exact .next ⟨rfl, b, hnext⟩
    · rw [hget, hpost]
      exact .done (.request hasked)

/-- An iteration behind the request line. -/
theorem processReadBody (h : Same b path g p) (st : LineStatus) :
    Loop.Follows (StateSame path) (ExitSame path) (fun _ => False) (processReadBody ⟨st, g⟩)
      (Post.processReadBody ⟨st, p⟩) := by
  rw [processReadBody_eq, Post.processReadBody_eq]
  dsimp only
  rw [h.checkState]
  split_ifs with hcontent
  · exact h.dispatchLine st
  · have hsame := h.scanned
    have hstatus := h.toSameScan.status
    generalize Get.parseLine g = r at hsame hstatus
    generalize Post.parseLine p = r' at hsame hstatus
    obtain ⟨st₁, g'⟩ := r
    obtain ⟨st₂, p'⟩ := r'
    obtain rfl : st₁ = st₂ := hstatus.symm
    cases st₁ with
    | lineOk => exact hsame.dispatchLine .lineOk
    | lineBad => exact .done (.waits hsame)
    | lineOpen => exact .done (.waits hsame)

/-- The rest of the two loops. -/
theorem readFrom (h : Same b path g p) (st : LineStatus) :
    ExitSame path (readFrom ⟨st, g⟩) (Post.readFrom ⟨st, p⟩) := by
  have hbody : ∀ s t, StateSame path s t → Loop.Follows (StateSame path) (ExitSame path)
      (fun _ => False) (Get.processReadBody s) (Post.processReadBody t) := by
    rintro ⟨st, g⟩ ⟨st', p⟩ ⟨hst, b, hsame⟩
    obtain rfl : st' = st := hst
    exact hsame.processReadBody st'
  rcases (readFrom_returns ⟨st, g⟩).follows hbody (t := ⟨st, p⟩) ⟨rfl, b, h⟩ with
    hfalse | ⟨r, hreturns, hexit⟩
  · exact hfalse.elim
  · rwa [(Post.readFrom_returns ⟨st, p⟩).det hreturns]

end Same

namespace Unread

variable {g : HttpConn} {p : Post.HttpConn}

/-- The connections behind `parse_line`. -/
theorem parseLine (h : Unread g p) : Unread (parseLine g).2 (Post.parseLine p).2 := by
  have hscan := h.toSameScan.parseLine
  exact {
    readIdx := h.readIdx
    checkedIdx := hscan.checkedIdx
    bytes := hscan.bytes
    le := Nat.zero_le _
    front := .inl rfl
    startLine := h.startLine
    checkState := h.checkState
    method := h.method
    linger := h.linger
    contentLength := h.contentLength
    host := h.host
    cgi := h.cgi }

/-- Behind a request line that both accept, `i` and `i + 1` being the indices of its two NULs. -/
theorem accepted (h : Unread g p) {i text : Nat} {path : Bytes} {g' : HttpConn}
    {p' : Post.HttpConn} (hterm : Post.Terminated p i) (hchecked : p.checkedIdx = i + 2)
    (hstart : text ≤ i)
    (hget : parseRequestLine { g with startLine := g.checkedIdx } text = (.noRequest, g'))
    (hpost : Post.parseRequestLine { p with startLine := p.checkedIdx } text =
      .ok (.noRequest, p'))
    (haccepted : Accepted g' path) (haccepted' : Post.Accepted p' .get path) :
    Same (i + 2) path g' p' := by
  have hlt := hterm.lt
  have hsize : i + 1 < READ_BUFFER_SIZE := Nat.lt_of_lt_of_le hlt hterm.le
  have hbyte := fun j => h.bytes j (Nat.zero_le j)
  have hgetChecked : g.checkedIdx = i + 2 := h.checkedIdx.symm.trans hchecked
  -- what the two calls keep
  have hkept := parseRequestLine_kept (c := { g with startLine := g.checkedIdx }) (by omega)
    ((hbyte i).symm.trans hterm.nul) hstart
  have hidx := parseRequestLine_indices { g with startLine := g.checkedIdx } text
  rw [hget] at hkept hidx
  have htermLine : Post.Terminated { p with startLine := p.checkedIdx } i :=
    ⟨hterm.nul, hterm.nul_succ, hlt, hterm.le⟩
  obtain ⟨hread', hchecked', hstart'⟩ := Post.parseRequestLine_indices hpost
  obtain ⟨hlinger', hhost'⟩ := Post.parseRequestLine_head hpost
  have hbehind' := Post.agreeBehind_parseRequestLine htermLine hstart hpost
  have hedits := Post.parseRequestLine_edits htermLine hstart hpost
  -- the last byte of the line
  have hlast : g'.readBuf.get (i + 1) = NUL :=
    (hkept.behind _ (Nat.lt_succ_self i)).trans ((hbyte _).symm.trans hterm.nul_succ)
  have hlast' : p'.readBuf.get (i + 1) = NUL :=
    (hbehind' _ (Nat.lt_succ_self i)).trans hterm.nul_succ
  have hne : NUL ≠ CR := by decide
  exact {
    readIdx := hread'.trans (h.readIdx.trans hidx.1.symm)
    checkedIdx := hchecked'.trans (h.checkedIdx.trans hidx.2.1.symm)
    bytes := fun j hj => (hbehind' j (by omega)).trans
      ((hbyte j).trans (hkept.behind j (by omega)).symm)
    le := by
      rw [hidx.2.1]
      exact hgetChecked.ge
    front := .inr ⟨hlast.trans_ne hne, hlast'.trans_ne hne⟩
    received := by
      rw [hidx.1]
      exact (Nat.succ_le_of_lt hlt).trans h.readIdx.le
    startLine := hstart'.trans (h.checkedIdx.trans hidx.2.2.1.symm)
    start := by
      rw [hidx.2.2.1]
      exact hgetChecked.ge
    checkState := haccepted'.state.trans haccepted.state.symm
    behind := by
      rw [haccepted.state]
      decide
    method := ⟨hkept.method h.method, haccepted'.method⟩
    linger := hlinger'.trans (h.linger.trans hkept.linger.symm)
    contentLength := (Post.parseRequestLine_contentLength hpost).trans
      (h.contentLength.trans hkept.contentLength.symm)
    host := hhost'.trans (h.host.2.trans (hkept.host.trans h.host.1).symm)
    host_behind := by
      intro j hj
      rw [hkept.host.trans h.host.1] at hj
      cases hj
    getUrl := .of_line haccepted.url hkept.url (by omega) hkept.nul (by omega)
    postUrl := .of_line haccepted'.url (fun u hu => Nat.le_succ_of_le (hedits.url u hu).2) hsize
      hlast' (by omega) }

/-- The iteration with the request line, of which both see the same text: both accept it, or the
GET server rejects it. -/
theorem requestLine (h : Unread g p) {i : Nat} (hterm : Post.Terminated p i)
    (hchecked : p.checkedIdx = i + 2) (hstart : p.startLine ≤ i) (st : LineStatus) :
    (∃ path g' p', Accepts (cstr (p.text p.startLine)) path ∧
        dispatchLine ⟨st, g⟩ = .inl ⟨st, g'⟩ ∧ Post.dispatchLine ⟨st, p⟩ = .inl ⟨st, p'⟩ ∧
        Same (i + 2) path g' p') ∨
      (¬ ∃ path, Accepts (cstr (p.text p.startLine)) path) ∧
        ∃ g', dispatchLine ⟨st, g⟩ = .inr (.ok (.returned .badRequest g')) := by
  have hlt := hterm.lt
  have hle := hterm.le
  have hsize : READ_BUFFER_SIZE = Post.READ_BUFFER_SIZE := rfl
  -- the same line in both
  have hlen : p.startLine + (cstr (p.text p.startLine)).length ≤ i := hterm.add_strlen_le hstart
  have hline : Post.LineAt { p with startLine := p.checkedIdx } p.startLine
      (cstr (p.text p.startLine)) := ⟨.of_cstr rfl (by omega), by omega⟩
  have htext : p.text p.startLine = g.text p.startLine :=
    view_congr (a := p.readBuf) (b := g.readBuf) (fun j _ => h.bytes j (Nat.zero_le j))
  have hgetLine : StringAt g.readBuf p.startLine (cstr (p.text p.startLine)) :=
    .of_cstr (congrArg cstr htext.symm) (by omega)
  have hanswer := parseRequestLine_answer (c := { g with startLine := g.checkedIdx }) hgetLine
  have hdispatch : Get.dispatchLine ⟨st, g⟩ = afterRequestLine st
      (.ok (parseRequestLine { g with startLine := g.checkedIdx } g.startLine)) :=
    dispatchLine_requestLine (s := ⟨st, g⟩) h.checkState.1
  have hdispatch' : Post.dispatchLine ⟨st, p⟩ = afterRequestLine st
      (Post.parseRequestLine { p with startLine := p.checkedIdx } p.startLine) :=
    Post.dispatchLine_requestLine (s := ⟨st, p⟩) h.checkState.2
  rw [← h.startLine] at hdispatch
  generalize hget : parseRequestLine { g with startLine := g.checkedIdx } p.startLine = r
    at hanswer hdispatch
  obtain ⟨code, g'⟩ := r
  rcases hanswer with ⟨path, hpath, hcode, haccepted⟩ | ⟨hnone, hcode⟩
  · obtain rfl : code = .noRequest := hcode
    obtain ⟨code', p', hpost, hno, -, haccepted'⟩ :=
      Post.grammarOk_of_not_hostOnly hline h.cgi hpath.post.not_hostOnly
    obtain rfl := hno.mpr ⟨.get, path, hpath.post⟩
    rw [hpost] at hdispatch'
    exact .inl ⟨path, g', p', hpath, hdispatch, hdispatch', h.accepted hterm hchecked hstart hget
      hpost haccepted (haccepted' .get path hpath.post)⟩
  · obtain rfl : code = .badRequest := hcode
    exact .inr ⟨hnone, g', hdispatch⟩

end Unread

/-- A call of `parse_line` that delivers no line keeps the scanner's invariant. -/
theorem scanned_of_open {p p' : Post.HttpConn} (h : Post.Scanned p) {st : LineStatus}
    (hp : Post.parseLine p = (st, p')) (hne : st ≠ .lineOk) : Post.Scanned p' := by
  obtain ⟨i, h1, h2, hplain, hscan⟩ := Post.parseLine_scan h.checked_le
  rw [hp] at hscan
  cases hscan with
  | exhausted _ | lastCr _ _ | strayCr _ _ _ | strayLf _ _ _ => exact h.skip h1 h2 hplain
  | crlf _ _ _ | lfAfterCr _ _ _ => exact absurd rfl hne

namespace Start

variable {g : HttpConn} {p : Post.HttpConn}

theorem init (g : HttpConn) (p : Post.HttpConn) : Start g.init p.init where
  readIdx := rfl
  checkedIdx := rfl
  bytes := fun _ _ => rfl
  le := Nat.le_refl 0
  front := .inl rfl
  startLine := rfl
  checkState := ⟨rfl, rfl⟩
  method := rfl
  linger := rfl
  contentLength := rfl
  host := ⟨rfl, rfl⟩
  cgi := rfl
  scanned := Post.scanned_init p

/-- The bytes of one `recv`. -/
theorem recv (h : Start g p) {d : Bytes} (hfit : d.length ≤ READ_BUFFER_SIZE - p.readIdx) :
    Start (g.recv d) (p.recv d) := by
  have hread : p.readIdx ≤ READ_BUFFER_SIZE := h.scanned.read_le
  have hroom : p.readIdx + d.length ≤ Post.READ_BUFFER_SIZE := by
    show p.readIdx + d.length ≤ READ_BUFFER_SIZE
    omega
  exact ⟨⟨h.toSameScan.recv (Nat.zero_le _) d, h.startLine, h.checkState, h.method, h.linger,
    h.contentLength, h.host, h.cgi⟩, h.scanned.recv hroom⟩

/-- An iteration with the request line, or with its first bytes. -/
theorem processReadBody (h : Start g p) (st : LineStatus) :
    Loop.Follows StatePaired ExitPaired Rejected (processReadBody ⟨st, g⟩)
      (Post.processReadBody ⟨st, p⟩) := by
  have hget : ¬ (g.checkState = .content ∧ st = .lineOk) := fun hc => by
    rw [h.checkState.1] at hc
    cases hc.1
  have hpost : ¬ (p.checkState = .content ∧ st = .lineOk) := fun hc => by
    rw [h.checkState.2] at hc
    cases hc.1
  rw [processReadBody_eq, Post.processReadBody_eq, if_neg hget, if_neg hpost]
  have hstatus := h.toSameScan.status
  have hunread := h.toUnread.parseLine
  generalize hp : Post.parseLine p = r' at hstatus hunread
  generalize Get.parseLine g = r at hstatus hunread
  obtain ⟨st₁, g'⟩ := r
  obtain ⟨st₂, p'⟩ := r'
  obtain rfl : st₁ = st₂ := hstatus.symm
  cases st₁ with
  | lineOk =>
    obtain ⟨i, hi, hlt, -, -, -, rfl⟩ := h.scanned.parseLine_ok hp
    have hterm := Post.terminated_of_crlf hlt h.scanned.read_le
    obtain ⟨path, g'', p'', -, hget, hpost, hsame⟩ | ⟨-, g'', hget⟩ :=
      hunread.requestLine hterm rfl (Nat.le_trans h.scanned.start_le hi) .lineOk
    · dsimp only at hget hpost ⊢
      rw [hget, hpost]
      exact .next ⟨rfl, .behind hsame⟩
    · dsimp only at hget ⊢
      rw [hget]
      exact .dropped ⟨g'', rfl⟩
  | lineBad =>
    exact .done (.waits (.start ⟨hunread, scanned_of_open h.scanned hp (by decide)⟩))
  | lineOpen =>
    exact .done (.waits (.start ⟨hunread, scanned_of_open h.scanned hp (by decide)⟩))

end Start

namespace Paired

variable {g : HttpConn} {p : Post.HttpConn}

theorem processReadBody (h : Paired g p) (st : LineStatus) :
    Loop.Follows StatePaired ExitPaired Rejected (processReadBody ⟨st, g⟩)
      (Post.processReadBody ⟨st, p⟩) := by
  cases h with
  | start h => exact h.processReadBody st
  | behind h =>
    have hfollows := h.processReadBody st
    generalize Get.processReadBody ⟨st, g⟩ = x at hfollows
    generalize Post.processReadBody ⟨st, p⟩ = y at hfollows
    cases hfollows with
    | next hstate => exact .next ⟨hstate.1, .behind hstate.2.choose_spec⟩
    | done hexit => exact .done hexit.paired
    | dropped hfalse => exact hfalse.elim

/-- The two loops of `process_read`. -/
theorem processReadLoop (h : Paired g p) :
    Rejected (processReadLoop g) ∨
      ExitPaired (processReadLoop g) (Post.processReadLoop p) := by
  have hbody : ∀ s t, StatePaired s t → Loop.Follows StatePaired ExitPaired Rejected
      (Get.processReadBody s) (Post.processReadBody t) := by
    rintro ⟨st, g⟩ ⟨st', p⟩ ⟨hst, hpaired⟩
    obtain rfl : st' = st := hst
    exact hpaired.processReadBody st'
  rcases (readFrom_returns ⟨.lineOk, g⟩).follows hbody
    (t := ⟨.lineOk, p⟩) ⟨rfl, h⟩ with hrejected | ⟨r, hreturns, hexit⟩
  · exact .inl hrejected
  · refine .inr ?_
    rw [Get.processReadLoop, Post.processReadLoop,
      (Post.readFrom_returns ⟨.lineOk, p⟩).det hreturns]
    exact hexit

/-- The bytes of one `recv`. -/
theorem recv (h : Paired g p) {d : Bytes} (hfit : d.length ≤ READ_BUFFER_SIZE - p.readIdx) :
    Paired (g.recv d) (p.recv d) := by
  cases h with
  | start h => exact .start (h.recv hfit)
  | behind h => exact .behind (h.recv d)

/-- The calls of `recv` in `read` and `read_once`. -/
theorem readLoop (os : List RecvOutcome) : ∀ {g : HttpConn} {p : Post.HttpConn},
    Paired g p → Post.RecvFits (READ_BUFFER_SIZE - p.readIdx) os → ∀ {g' : HttpConn},
    readLoop g os = some (true, g') →
    ∃ p', Post.readLoop p os = some (true, p') ∧ Paired g' p' := by
  induction os with
  | nil =>
    intro g p _ _ g' hread
    cases hread
  | cons o os ih =>
    intro g p h hfit g' hread
    rw [Post.RecvFits.eq_def] at hfit
    cases o with
    | data d =>
      obtain ⟨-, hroom, hfit⟩ := hfit
      refine ih (h.recv hroom) ?_ hread
      show Post.RecvFits (READ_BUFFER_SIZE - (p.readIdx + d.length)) os
      rwa [← Nat.sub_sub]
    | again =>
      cases hread
      exact ⟨p, rfl, h⟩
    | error => cases hread
    | closed => cases hread

/-- The two calls that receive. -/
theorem read (h : Paired g p) {os : List RecvOutcome}
    (hfit : Post.RecvFits (READ_BUFFER_SIZE - p.readIdx) os) {g' : HttpConn}
    (hread : read g os = some (true, g')) :
    ∃ p', Post.readOnce p os = some (true, p') ∧ Paired g' p' := by
  have hidx : p.readIdx = g.readIdx := by
    cases h with
    | start h => exact h.readIdx
    | behind h => exact h.readIdx
  rw [Get.read] at hread
  rw [Post.readOnce, hidx, show Post.READ_BUFFER_SIZE = READ_BUFFER_SIZE from rfl]
  split_ifs at hread ⊢
  · cases hread
  · exact h.readLoop os hfit hread

/-- The calls of `read` and `process_read`, from any state in between. -/
theorem requestOf {g g' : HttpConn} {reads : List (List RecvOutcome)}
    (hrequested : Requested g reads g') : ∀ {p : Post.HttpConn}, Paired g p →
      Post.ReadsFit p reads → ∃ p' path, Post.requestOf p reads = some p' ∧ Asked path g' p' ∧
      ∀ n, (requestOf g (reads.take n)).isSome = (Post.requestOf p (reads.take n)).isSome := by
  induction hrequested with
  | here hread hloop =>
    intro p h hfit
    obtain ⟨p₁, hread', h₁⟩ := h.read hfit.1 hread
    rcases h₁.processReadLoop with ⟨c, hrejected⟩ | hexit
    · cases hrejected.symm.trans hloop
    · rw [show Get.processReadLoop _ = _ from hloop] at hexit
      generalize hloop' : Post.processReadLoop p₁ = r' at hexit
      cases hexit with
      | request hasked =>
        refine ⟨_, _, Parser.requestOf_here _ hread' hloop', hasked, fun n => ?_⟩
        rcases n with _ | n
        · rfl
        · rw [List.take_succ_cons, Get.requestOf, Post.requestOf,
            Parser.requestOf_here _ hread hloop, Parser.requestOf_here _ hread' hloop']
          rfl
  | @later _ _ _ _ os _ hread hloop _ ih =>
    intro p h hfit
    obtain ⟨p₁, hread', h₁⟩ := h.read hfit.1 hread
    rcases h₁.processReadLoop with ⟨c, hrejected⟩ | hexit
    · cases hrejected.symm.trans hloop
    · rw [show Get.processReadLoop _ = _ from hloop] at hexit
      generalize hloop' : Post.processReadLoop p₁ = r' at hexit
      cases hexit with
      | @waits _ p₂ hpaired =>
        have hagain : Post.readAgain p os = some p₂ := by
          rw [Post.readAgain, hread']
          dsimp only
          rw [hloop']
        obtain ⟨p', path, hp', hasked, hsame⟩ := ih hpaired (hfit.2 p₂ hagain)
        refine ⟨p', path, (Parser.requestOf_later _ hread' hloop').trans hp', hasked, fun n => ?_⟩
        rcases n with _ | n
        · rfl
        · rw [List.take_succ_cons, Get.requestOf, Post.requestOf,
            Parser.requestOf_later _ hread hloop, Parser.requestOf_later _ hread' hloop']
          exact hsame n

end Paired

/-- Whatever the GET server calls `do_request` for, the POST server calls `do_request` for when
it receives the same bytes, and behind the same read: for the same path, but that `/` is its start
page, with the same header lines and the same body. -/
theorem requestOf_agree (g : HttpConn) (p : Post.HttpConn) (reads : List (List RecvOutcome))
    (hfit : Post.ReadsFit p.init reads) {g' : HttpConn} (h : requestOf g.init reads = some g') :
    ∃ p' path, Post.requestOf p.init reads = some p' ∧ Asked path g' p' ∧
      ∀ n, (requestOf g.init (reads.take n)).isSome =
        (Post.requestOf p.init (reads.take n)).isSome :=
  Paired.requestOf (requested_iff.mp h) (.start (.init g p)) hfit

/-- A request for `/`, in two reads. -/
def startRequest : List (List RecvOutcome) :=
  [[.data (ascii "GET / HTTP/1.1\r\nHo"), .again], [.data (ascii "st: a\r\n\r\n"), .again]]

theorem requestOf_agree_start :
    ∃ g' p' path, Post.requestOf Post.HttpConn.blank.init startRequest = some p' ∧
      Asked path g' p' ∧ ∀ n, (requestOf blank.init (startRequest.take n)).isSome =
        (Post.requestOf Post.HttpConn.blank.init (startRequest.take n)).isSome := by
  obtain ⟨g', h⟩ : ∃ g', requestOf blank.init startRequest = some g' :=
    Option.isSome_iff_exists.mp (by decide +kernel)
  exact ⟨g', requestOf_agree blank Post.HttpConn.blank startRequest (by decide +kernel) h⟩

end EasyWebServer.Get
