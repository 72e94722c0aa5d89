import EasyWebServer.Get.Agreement

/-!
# What do_request of the GET server is called with

`RequestText` is the text of a request for the GET server: it differs from the one of the POST
server in the request line only.  `firstLine` reads that line, which the GET server rejects when
it is not for a path, and behind it the two parsers agree.  So `requestText_iff` follows from what
the POST server does with the text.
-/

namespace EasyWebServer.Get

open CString HttpConn CharBuf Http CrlfScan
open Post (BodyFits)

/-! ## The text of a request -/

/-- The stream is a request line, header lines, a blank line, and `rest`.  A line counts up to its
first NUL. -/
def RequestText (t : Bytes) (path : Bytes) (hd : Headers) (rest : Bytes) : Prop :=
  ∃ l ls b, t = CrlfScan.text (l :: ls) ++ (b ++ crlf ++ rest) ∧
    (∀ x ∈ l :: ls, OneLine x) ∧ OneLine b ∧ Accepts (cstr l) path ∧
    (∀ x ∈ ls, cstr x ≠ []) ∧ cstr b = [] ∧ (ls.map cstr).foldl Headers.line .start = hd

/-- The connection says what the text says, and `m_checked_idx` is behind the blank line. -/
structure RequestRead (c : HttpConn) (t path : Bytes) (hd : Headers) (rest : Bytes) : Prop where
  method : c.method = .get
  url : ∃ i, c.url = some i ∧ cstr (c.text i) = path
  linger : c.linger = hd.keepAlive
  contentLength : c.contentLength = hd.contentLength
  host : c.host.map (fun i => cstr (c.text i)) = hd.host
  checked : c.checkedIdx + rest.length = t.length

variable {t path rest : Bytes} {hd : Headers}

/-- The POST server reads the same in the text. -/
theorem RequestText.post (h : RequestText t path hd rest) :
    Post.RequestText t .get path hd rest := by
  obtain ⟨l, ls, b, ht, hlines, hb, hpath, hne, hblank, hhead⟩ := h
  exact ⟨l, ls, b, ht, hlines, hb, hpath.post, hne, hblank, hhead⟩

theorem text_cons (l : Bytes) (ls : List Bytes) (s : Bytes) :
    CrlfScan.text (l :: ls) ++ s = l ++ crlf ++ (CrlfScan.text ls ++ s) := by
  rw [CrlfScan.text, List.flatMap_cons, List.append_assoc]
  rfl

/-! ## The request line -/

/-- The loop takes a line that `parse_line` delivers. -/
theorem processReadBody_line {c c' : HttpConn} (hstate : c.checkState ≠ .content)
    (hline : parseLine c = (.lineOk, c')) (st : LineStatus) :
    processReadBody ⟨st, c⟩ = dispatchLine ⟨.lineOk, c'⟩ := by
  rw [processReadBody_eq, if_neg (fun hc => hstate hc.1), hline]

/-- The first iteration: both accept the first line, or the GET server rejects it. -/
theorem firstLine (g : HttpConn) (p : Post.HttpConn) {l : Bytes} (hl : OneLine l)
    (ht : (l ++ crlf ++ rest).length ≤ READ_BUFFER_SIZE) :
    (∃ b path g' p', Accepts (cstr l) path ∧
        processReadLoop (g.init.recv (l ++ crlf ++ rest)) = readFrom ⟨.lineOk, g'⟩ ∧
        Post.processReadLoop (p.init.recv (l ++ crlf ++ rest)) = Post.readFrom ⟨.lineOk, p'⟩ ∧
        Same b path g' p') ∨
      (¬ ∃ path, Accepts (cstr l) path) ∧
        ∃ g', processReadLoop (g.init.recv (l ++ crlf ++ rest)) =
          .ok (.returned .badRequest g') := by
  have hat := Post.atLine_recv p ht
  have hread := Post.lineRead_crlf hat hl rfl
  have hpost := Post.parseLine_crlf hat.scanned.scanStart hl hat.pending
  have hbody := hat.processReadBody hl
  have hstart : Start (g.init.recv (l ++ crlf ++ rest)) (p.init.recv (l ++ crlf ++ rest)) :=
    (Start.init g p).recv ht
  have hunread := hstart.toUnread.parseLine
  have hstatus := hstart.toSameScan.status
  have hstate : (g.init.recv (l ++ crlf ++ rest)).checkState ≠ .content := by
    rw [hstart.checkState.1]
    decide
  rw [hpost] at hunread hstatus
  generalize hget : parseLine (g.init.recv (l ++ crlf ++ rest)) = r at hunread hstatus
  obtain ⟨st, g₁⟩ := r
  obtain rfl : LineStatus.lineOk = st := hstatus
  have hloop := processReadBody_line hstate hget .lineOk
  -- the text of the line
  have hline := hread.at_line.string.cstr
  rw [← hread.start] at hline
  obtain ⟨path, g', p', hpath, hdispatch, hdispatch', hsame⟩ | ⟨hnone, g', hdispatch⟩ :=
    hunread.requestLine hread.terminated hread.checked
      (hread.start.le.trans (Nat.le_add_right _ _)) .lineOk
  · rw [Post.HttpConn.text, hline] at hpath
    exact .inl ⟨_, path, g', p', hpath, parser.readFrom_next (hloop.trans hdispatch),
      Post.readFrom_next (hbody.trans hdispatch'), hsame⟩
  · rw [Post.HttpConn.text, hline] at hnone
    exact .inr ⟨hnone, g', parser.readFrom_done (hloop.trans hdispatch)⟩

/-! ## The whole request -/

/-- What the GET server has read of a text that both servers read to the end. -/
theorem Asked.requestRead {c : HttpConn} {d : Post.HttpConn} (h : Asked path c d)
    (hread : Post.RequestRead d t .get path hd rest) (hlow : 0 ≤ hd.contentLength) :
    RequestRead c t path hd rest := by
  obtain ⟨hhead, hchecked, -, -⟩ := hread
  have hlength : c.contentLength = hd.contentLength :=
    h.contentLength.symm.trans hhead.contentLength
  have hpath := (h.url (by rwa [hlength])).1
  refine ⟨h.method.1, hpath, h.linger.symm.trans hhead.linger, hlength, ?_, ?_⟩
  · have hhost := hhead.host
    have htext := h.hostText
    rw [h.host] at hhost
    cases hhd : hd.host with
    | none =>
      rw [hhd] at hhost
      rw [show c.host = none from hhost]
      rfl
    | some s =>
      rw [hhd] at hhost
      obtain ⟨i, hi, hstring, -⟩ := hhost
      rw [hi, Option.map_some, ← htext i hi, Post.HttpConn.text, hstring.cstr]
  · rw [← h.checkedIdx]
    exact hchecked

/-- A request whose body is there is read, since the POST server reads it. -/
theorem RequestText.request (h : RequestText t path hd rest) (c : HttpConn)
    (ht : t.length ≤ READ_BUFFER_SIZE) (hfits : BodyFits t hd rest) :
    ∃ d, processReadLoop (c.init.recv t) = .ok (.request d) ∧ RequestRead d t path hd rest := by
  obtain ⟨d, hpost, hread⟩ := h.post.request Post.HttpConn.blank ht hfits
  obtain ⟨l, ls, b, htext, hlines, -, hpath, -⟩ := h
  rw [text_cons] at htext
  subst htext
  obtain ⟨_, path', g', p', hpath', hloop, hloop', hsame⟩ | ⟨hnone, -⟩ :=
    firstLine c Post.HttpConn.blank (hlines l List.mem_cons_self) ht
  · cases hpath.unique hpath'
    have hexit := hsame.readFrom .lineOk
    rw [← hloop', hpost] at hexit
    rw [hloop]
    generalize readFrom ⟨.lineOk, g'⟩ = r at hexit
    cases hexit with
    | request hasked => exact ⟨_, rfl, hasked.requestRead hread hfits.1⟩
  · exact absurd ⟨path, hpath⟩ hnone

/-- What is known of the text behind a call that reaches `do_request`. -/
theorem requestText_of_request {c d : HttpConn} (ht : t.length ≤ READ_BUFFER_SIZE)
    (h : processReadLoop (c.init.recv t) = .ok (.request d)) (hlow : 0 ≤ d.contentLength) :
    ∃ path hd rest, RequestText t path hd rest ∧ BodyFits t hd rest := by
  have hpaired : Paired (c.init.recv t) (Post.HttpConn.blank.init.recv t) :=
    .start ((Start.init c Post.HttpConn.blank).recv ht)
  obtain ⟨p, path', hpost, hasked⟩ : ∃ p path',
      Post.processReadLoop (Post.HttpConn.blank.init.recv t) = .ok (.request p) ∧
        Asked path' d p := by
    rcases hpaired.processReadLoop with ⟨_, hrejected⟩ | hexit
    · rw [h] at hrejected
      cases hrejected
    · rw [h] at hexit
      generalize Post.processReadLoop (Post.HttpConn.blank.init.recv t) = r at hexit
      cases hexit with
      | request hasked => exact ⟨_, _, rfl, hasked⟩
  obtain ⟨m, path, hd, rest, htext⟩ := Post.requestText_of_request ht hpost
  obtain ⟨hlength, hbody⟩ := htext.requested ht hpost
  obtain ⟨l, ls, b, hsplit, hlines, hb, -, hne, hblank, hhead⟩ := htext
  rw [← hasked.contentLength, hlength] at hlow
  have hfits : BodyFits t hd rest := by
    refine ⟨hlow, ?_, fun hne => (hbody hne).2⟩
    by_cases hzero : hd.contentLength = 0
    · omega
    · exact (hbody hzero).1
  -- the GET server has accepted the first line
  have hfirst := hsplit
  rw [text_cons] at hfirst
  have ht' := ht
  rw [hfirst] at h ht'
  obtain ⟨_, path'', _, _, hpath, -⟩ | ⟨-, g', hbad⟩ :=
    firstLine c Post.HttpConn.blank (hlines l List.mem_cons_self) ht'
  · exact ⟨path'', hd, rest, ⟨l, ls, b, hsplit, hlines, hb, hpath, hne, hblank, hhead⟩, hfits⟩
  · rw [hbad] at h
    cases h

/-- For every stream that fits into the buffer: `process_read` of the GET server calls
`do_request` with a content length that is not negative exactly when the stream is the text of a
request with its body, and then the members of the connection say what the text says. -/
theorem requestText_iff (c : HttpConn) (ht : t.length ≤ READ_BUFFER_SIZE) :
    ((∃ d, processReadLoop (c.init.recv t) = .ok (.request d) ∧ 0 ≤ d.contentLength) ↔
      ∃ path hd rest, RequestText t path hd rest ∧ BodyFits t hd rest) ∧
    ∀ path hd rest d, RequestText t path hd rest → BodyFits t hd rest →
      processReadLoop (c.init.recv t) = .ok (.request d) → RequestRead d t path hd rest := by
  refine ⟨⟨?_, ?_⟩, ?_⟩
  · rintro ⟨d, hrequest, hlow⟩
    exact requestText_of_request ht hrequest hlow
  · rintro ⟨path, hd, rest, htext, hfits⟩
    obtain ⟨d, hrequest, hread⟩ := htext.request c ht hfits
    exact ⟨d, hrequest, by rw [hread.contentLength]; exact hfits.1⟩
  · intro path hd rest d htext hfits hrequest
    obtain ⟨d', hrequest', hread⟩ := htext.request c ht hfits
    rw [hrequest] at hrequest'
    cases hrequest'
    exact hread

/-- A request for `/`, with a byte of the next one behind it. -/
theorem requestText_iff_root :
    ∃ d, processReadLoop (blank.init.recv (ascii "GET / HTTP/1.1\r\n\r\nG")) =
      .ok (.request d) ∧ 0 ≤ d.contentLength := by
  refine (requestText_iff blank (by decide)).1.mpr ⟨[slash], .start, ascii "G", ?_, ?_⟩
  · refine ⟨ascii "GET / HTTP/1.1", [], [], by decide, by decide, by decide, ?_,
      List.forall_mem_nil _, rfl, rfl⟩
    exact ⟨[slash], ⟨ascii "GET", [32], ascii "/ HTTP/1.1", by decide, rfl, by decide,
      by decide, [32], ascii "HTTP/1.1", by decide, by decide, by decide, by decide, by decide,
      rfl⟩, by decide, rfl⟩
  · exact ⟨le_refl _, by decide, fun h => absurd rfl h⟩

end EasyWebServer.Get
