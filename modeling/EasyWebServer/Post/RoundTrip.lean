import EasyWebServer.Post.KeepAlive
import EasyWebServer.Post.RequestText

/-!
# Requests make the round trip

A client sends the text of a message (`Http.Request.encode`), and the network delivers it in pieces.
`requestOf_encode` says that the server reads the message back: however the head is cut, the calls
of `read_once` and `process_read` end in `do_request`, and the members of the connection are the
method, the path, the fields and the body of the message.

The body has to arrive with the end of the head (`Cut`).  Behind the blank line, `process_read` does
not go on from where it was.
-/

namespace EasyWebServer.Post

open CString CInt HttpConn CharBuf Http CrlfScan

/-! ## The messages -/

/-- The method of this name. -/
def Method.Named (m : Method) (name : Bytes) : Prop :=
  m = .get ∧ RequestLine.EqualFold name (ascii "GET") ∨
    m = .post ∧ RequestLine.EqualFold name (ascii "POST")

/-- The message asks for a path, and fits into the buffer. -/
structure Asks (r : Http.Request) (m : Method) (path : Bytes) : Prop where
  method : m.Named r.method
  target : urlPath r.target = some path
  slash : path.head? = some slash
  fits : r.encode.length < READ_BUFFER_SIZE

namespace Asks

variable {r : Http.Request} {m : Method} {path : Bytes}

theorem accepts (h : Asks r m path) : Accepts r.line m path := by
  obtain ⟨mw, w, rest, hline, hfold, hw, hne, htarget⟩ := r.wellFormed
  refine ⟨r.target, ?_, h.target, h.slash⟩
  rcases h.method with ⟨rfl, hname⟩ | ⟨rfl, hname⟩
  · exact .inl ⟨rfl, mw, w, rest, hline, hfold.trans hname, hw, hne, htarget⟩
  · exact .inr ⟨rfl, mw, w, rest, hline, hfold.trans hname, hw, hne, htarget⟩

theorem body_length (h : Asks r m path) : (r.body.length : Int) ≤ INT_MAX := by
  have hfits := h.fits
  have hcap : READ_BUFFER_SIZE = 2048 := rfl
  have hmax : INT_MAX = 2147483647 := rfl
  rw [Http.Request.encode, List.length_append] at hfits
  omega

end Asks

/-- The head of a message is its lines, and a blank one. -/
theorem Request.encode_eq (r : Http.Request) :
    r.encode = CrlfScan.text (r.line :: r.fields.map Field.line) ++ ([] ++ crlf ++ r.body) := by
  rw [Http.Request.encode, Http.Request.head, Http.Request.lines, CrlfScan.text_append,
    CrlfScan.text_singleton, List.append_assoc]

theorem Request.head_length (r : Http.Request) :
    r.encode.length = r.head.length + r.body.length := List.length_append

/-- The text of a message is the text of a request, which says what the message says. -/
theorem Asks.requestText {r : Http.Request} {m : Method} {path : Bytes} (h : Asks r m path) :
    RequestText r.encode m path r.headers r.body := by
  have hline : cstr r.line = r.line := cstr_eq_self r.nul_notMem_line
  have hfields : ∀ f ∈ r.fields, cstr f.line = f.line :=
    fun f hf => cstr_eq_self (r.fields_text f hf).line
  refine ⟨r.line, r.fields.map Field.line, [], Request.encode_eq r, ?_, List.forall_mem_nil _, ?_,
    ?_, rfl, ?_⟩
  · rw [List.forall_mem_cons, List.forall_mem_map]
    exact ⟨r.oneLine_line, fun f _ => f.oneLine_line⟩
  · rw [hline]
    exact h.accepts
  · rw [List.forall_mem_map]
    intro f hf
    rw [hfields f hf]
    exact f.line_ne_nil
  · rw [List.map_map, ← r.headers_eq h.body_length]
    exact congrArg (List.foldl Headers.line .start) (List.map_congr_left hfields)

theorem Asks.bodyFits {r : Http.Request} {m : Method} {path : Bytes} (h : Asks r m path) :
    BodyFits r.encode r.headers r.body := by
  have hfits := h.fits
  have hlen := Request.head_length r
  have hlength : r.headers.contentLength = r.body.length := rfl
  refine ⟨by omega, by omega, fun _ => by omega⟩

/-! ## The calls before the last one -/

/-- `process_read` has read the bytes `t`, in whatever pieces, and waits in the head. -/
def Waits (c : HttpConn) (t : Bytes) (c' : HttpConn) : Prop :=
  processReadLoop (c.init.recv t) = .ok (.returned .noRequest c') ∧ c'.checkState ≠ .content

theorem waits_nil (c : HttpConn) : Waits c [] c.init := by
  refine ⟨processReadLoop_init c, ?_⟩
  show CheckState.requestLine ≠ .content
  decide

/-- More bytes are read as if they had been there. -/
theorem Waits.resume {c c' : HttpConn} {t : Bytes} (h : Waits c t c')
    (ht : t.length ≤ READ_BUFFER_SIZE) (d : Bytes) :
    c'.readIdx = t.length ∧
      processReadLoop (c'.recv d) = processReadLoop (c.init.recv (t ++ d)) := by
  have hfits : c.init.readIdx + t.length ≤ READ_BUFFER_SIZE := by
    show 0 + t.length ≤ READ_BUFFER_SIZE
    omega
  obtain ⟨-, hidx, hloop⟩ := readFrom_resume (readFrom_returns ⟨.lineOk, c.init.recv t⟩) rfl
    ((scanned_init c).recv hfits) (show CheckState.requestLine ≠ .content by decide) h.1 h.2 d
  refine ⟨hidx.trans (Nat.zero_add _), hloop.trans ?_⟩
  rw [HttpConn.recv_recv]
  rfl

/-- Bytes in front of the end of the head. -/
theorem waits_of_head {r : Http.Request} {m : Method} {path : Bytes} (h : Asks r m path)
    (c : HttpConn) {p s : Bytes} (hsplit : p ++ s = r.encode) (hlt : p.length < r.head.length) :
    ∃ c', Waits c p c' := by
  have hfits := h.fits
  have hlen := Request.head_length r
  have hparts := congrArg List.length hsplit
  rw [List.length_append] at hparts
  -- the scan of the whole message
  have hwhole : ∃ n, parseScan r.encode = .left (.body n) r.body.length := by
    obtain ⟨l, ls, b, htext, hlines, hb, hpath, hne, hblank, -⟩ := h.requestText
    obtain ⟨n, hafter⟩ := after_header hne 0
    have hfirst : nextLine .requestLine l = .inl (.header 0) := by
      rw [nextLine, if_neg hpath.not_hostOnly, if_pos ⟨m, path, hpath⟩]
    refine ⟨n, ?_⟩
    rw [parseScan, htext, scan_text nextLine hlines ((after_cons nextLine hfirst ls).trans hafter),
      scan_line nextLine _ hb, endLine, nextLine_blank hblank]
    exact (scan_left nextLine _ 0 _).trans (by rw [Nat.zero_add])
  obtain ⟨n, hwhole⟩ := hwhole
  rw [← hsplit, parseScan_append] at hwhole
  have hanswer := processReadLoop_scan c (t := p) (by omega)
  rcases hz : parseScan p with ⟨q, l⟩ | ⟨q, l⟩ | _ | ⟨x, k⟩
  · rw [hz] at hanswer
    exact hanswer
  · rw [hz] at hanswer
    exact hanswer
  · rw [hz] at hanswer
    exact hanswer
  · -- behind the blank line there is only the body
    rw [hz, scan_left, Scan.left.injEq] at hwhole
    omega

/-! ## The round trip -/

/-- How the network may deliver the message: each list of pieces is what one `read_once` receives,
and only the last one reaches behind the head. -/
structure Cut (r : Http.Request) (arrivals : List (List Bytes)) : Prop where
  bytes : arrivals.flatten.flatten = r.encode
  in_head : ∀ n < arrivals.length, (arrivals.take n).flatten.flatten.length < r.head.length

theorem readOnce_oneRead {c : HttpConn} (hroom : c.readIdx < READ_BUFFER_SIZE)
    (pieces : List Bytes) : readOnce c (oneRead pieces) = some (true, c.recv pieces.flatten) := by
  rw [readOnce, if_neg (by omega), oneRead, readLoop_data]

/-- The calls end as one call on all the bytes. -/
theorem requestOf_arrivals {r : Http.Request} {m : Method} {path : Bytes} (h : Asks r m path)
    {c d : HttpConn} (hd : processReadLoop (c.init.recv r.encode) = .ok (.request d)) :
    ∀ (arrivals : List (List Bytes)) {t : Bytes} {c' : HttpConn}, Waits c t c' →
      t ++ arrivals.flatten.flatten = r.encode →
      (∀ n < arrivals.length,
        t.length + (arrivals.take n).flatten.flatten.length < r.head.length) →
      requestOf c' (arrivals.map oneRead) = some d := by
  have hfits := h.fits
  intro arrivals
  induction arrivals with
  | nil =>
      intro t c' hwaits hbytes _
      rw [List.flatten_nil, List.flatten_nil, List.append_nil] at hbytes
      rw [← hbytes, hwaits.1] at hd
      cases hd
  | cons pieces rest ih =>
      intro t c' hwaits hbytes hhead
      have hlen := congrArg List.length hbytes
      rw [List.length_append] at hlen
      rw [List.flatten_cons, List.flatten_append, ← List.append_assoc] at hbytes
      obtain ⟨hidx, hloop⟩ := hwaits.resume (by omega) pieces.flatten
      have hreadOnce : readOnce c' (oneRead pieces) = some (true, c'.recv pieces.flatten) := by
        refine readOnce_oneRead ?_ pieces
        have hcap : READ_BUFFER_SIZE = 2048 := rfl
        omega
      rw [List.map_cons]
      rcases rest with _ | ⟨next, rest⟩
      · -- the last call
        rw [List.flatten_nil, List.flatten_nil, List.append_nil] at hbytes
        rw [hbytes, hd] at hloop
        exact requested_iff.mpr (.here hreadOnce hloop)
      · have hshort := hhead 1 (Nat.succ_lt_succ (Nat.zero_lt_succ _))
        rw [List.take_succ_cons, List.take_zero, List.flatten_singleton] at hshort
        obtain ⟨c₁, hwaits₁⟩ := waits_of_head h c (p := t ++ pieces.flatten) hbytes (by
          rw [List.length_append]
          exact hshort)
        rw [hwaits₁.1] at hloop
        refine requested_iff.mpr (.later hreadOnce hloop (requested_iff.mp ?_))
        refine ih hwaits₁ hbytes (fun n hn => ?_)
        have hnext := hhead (n + 1) (Nat.succ_lt_succ hn)
        rw [List.take_succ_cons, List.flatten_cons, List.flatten_append, List.length_append] at hnext
        rw [List.length_append]
        omega

/-- The connection with which `do_request` is called is the one that a single call leaves. -/
theorem Asks.read {r : Http.Request} {m : Method} {path : Bytes} (h : Asks r m path)
    (c : HttpConn) :
    ∃ d, processReadLoop (c.init.recv r.encode) = .ok (.request d) ∧
      (∀ arrivals, Cut r arrivals → requestOf c.init (arrivals.map oneRead) = some d) ∧
      RequestRead d r.encode m path r.headers r.body := by
  have hfits := h.fits
  obtain ⟨d, hd, hread⟩ := h.requestText.request c (by omega) h.bodyFits
  refine ⟨d, hd, fun arrivals hcut => ?_, hread⟩
  refine requestOf_arrivals h hd arrivals (waits_nil c) hcut.bytes (fun n hn => ?_)
  rw [List.length_nil, Nat.zero_add]
  exact hcut.in_head n hn

/-- The body of a message that has one. -/
theorem RequestRead.bodyRead {r : Http.Request} {d : HttpConn} {m : Method} {path : Bytes}
    (h : RequestRead d r.encode m path r.headers r.body) (hne : r.body ≠ []) :
    BodyRead d r.body := by
  have hlength : r.headers.contentLength = r.body.length := rfl
  have hbody := h.body (by
    rw [hlength]
    exact Int.natCast_ne_zero.mpr (fun h => hne (List.length_eq_zero_iff.mp h)))
  rwa [hlength, Int.toNat_natCast, List.take_length] at hbody

/-- For every message that asks for a path, and on every connection: however the network cuts the
head, the calls of `read_once` and `process_read` end in `do_request` with the same connection, and
that says what the message says. -/
theorem requestOf_encode (c : HttpConn) {r : Http.Request} {m : Method} {path : Bytes}
    (h : Asks r m path) :
    ∃ d, (∀ arrivals, Cut r arrivals → requestOf c.init (arrivals.map oneRead) = some d) ∧
      HeadRead d m path r.headers ∧ (r.body ≠ [] → BodyRead d r.body) := by
  obtain ⟨d, -, hcuts, hread⟩ := h.read c
  exact ⟨d, hcuts, hread.head, hread.bodyRead⟩

/-! ## A login -/

theorem postToken : Token (ascii "POST") := by decide

theorem loginTarget : Token (ascii "/2CGISQL.cgi") := by decide

theorem hostText : FieldText (ascii "Host") (ascii " a") := by decide

theorem lengthText : FieldText (ascii "Content-Length") (ascii " 15") := by decide

theorem lengthText_framed : contentsOf (ascii "Content-Length")
    [hostText.field, lengthText.field] = [decimalNat (ascii "user=b&password").length] := by decide

/-- The form of the login page. -/
def loginMessage : Http.Request where
  method := ascii "POST"
  target := ascii "/2CGISQL.cgi"
  fields := [hostText.field, lengthText.field]
  body := ascii "user=b&password"
  method_token := postToken
  target_token := loginTarget
  fields_text := List.forall_mem_cons.mpr ⟨hostText.no_nul,
    List.forall_mem_singleton.mpr lengthText.no_nul⟩
  framed := .inl lengthText_framed

theorem requestOf_encode_login :
    ∃ d, (∀ arrivals, Cut loginMessage arrivals →
        requestOf blank.init (arrivals.map oneRead) = some d) ∧
      HeadRead d .post (ascii "/2CGISQL.cgi") loginMessage.headers ∧
      (loginMessage.body ≠ [] → BodyRead d loginMessage.body) :=
  requestOf_encode blank ⟨.inr ⟨rfl, by decide⟩, by decide, by decide, by decide⟩

end EasyWebServer.Post
