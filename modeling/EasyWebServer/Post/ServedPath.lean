import EasyWebServer.Common.ServedPath
import EasyWebServer.Post.Isolation

/-!
# The file behind a request of the POST server

`servedFile` is the path with which a request is answered `FILE_REQUEST`: the string
in `m_real_file`, which `do_request` passes to `stat` and to `open`.  `Inside` says
that a path, resolved lexically, lies below a root directory.

`do_request` copies `m_url` behind the document root as the client has sent it, or
appends one of its own pages.  Two facts of the parser make the result
`doc_root/...`.  `UrlPlaced` is the first: when `do_request` is called, `m_url`
points at the `/` that the request line was accepted with, or at a NUL that a later
store has put there.  The second is that `m_real_file` is still zero.

`inside_servedFile_iff` says exactly when the path stays inside.
-/

namespace EasyWebServer.Post

open CString HttpConn LexicalPath Common

/-! ## The path of a request -/

/-- The answer of the first call of `process_read` that does not return
`NO_REQUEST`, when each list of outcomes is one `read_once`. -/
def answerOf (w : World) (c : HttpConn) (reads : List (List RecvOutcome)) : Option ReadResult :=
  Parser.answerOf readOnce (processRead w) Prod.fst c reads

/-- The path in `m_real_file`, when the request is answered `FILE_REQUEST`. -/
def servedFile (w : World) (c : HttpConn) (reads : List (List RecvOutcome)) : Option Bytes :=
  match answerOf w c reads with
  | some (.ok (.fileRequest, c, _)) => some (cstr c.realFile.bytes)
  | _ => none

/-- `do_request` answers with one of its own pages: the request is a login or a
registration, or a shortcut.  `kind` is the byte behind the last slash of `m_url`. -/
def OwnPage (c : HttpConn) (kind : UInt8) : Prop :=
  (c.cgi = 1 ∧ (kind = 50 ∨ kind = 51)) ∨ kind = 48 ∨ kind = 49 ∨ kind = 53 ∨ kind = 54

instance (c : HttpConn) (kind : UInt8) : Decidable (OwnPage c kind) :=
  inferInstanceAs (Decidable (_ ∨ _))

/-- The connection with which `do_request` is called asks for one of the server's own
pages, or `m_url` is a path that stays below the document root. -/
def StaysInside (c : HttpConn) : Prop :=
  ∃ url ∈ c.url, ∃ p ∈ strrchr (c.text url) slash,
    OwnPage c (c.readBuf.get (url + p + 1)) ∨
      StaysBelow slash dot docRoot (cstr (c.text url)).tail

instance (c : HttpConn) : Decidable (StaysInside c) := by
  unfold StaysInside
  infer_instance

/-- The answer is the one of `do_request`. -/
theorem answerOf_fileRequest {w w' : World} {c c' : HttpConn} (reads : List (List RecvOutcome))
    (h : answerOf w c reads = some (.ok (.fileRequest, c', w'))) :
    ∃ d ∈ requestOf c reads, doRequest w d = .ok (.fileRequest, c', w') := by
  have hcode : ∀ {c : HttpConn} {r : HttpConn × World}, doRequest w c ≠ .ok (.noRequest, r) :=
    fun hdo => absurd (doRequest_code hdo) (by decide)
  obtain ⟨d, hd, hdo⟩ := Parser.requested_of_answerOf (fun _ => rfl) hcode (by decide) reads h
  exact ⟨d, requested_iff.mpr hd, hdo⟩

/-! ## The invariants of a request -/

theorem readOnce_inv {inv : HttpConn → Prop} (hrecv : ∀ c d, inv c → inv (c.recv d))
    {c c' : HttpConn} {os : List RecvOutcome} {ok : Bool} (h : inv c)
    (hr : readOnce c os = some (ok, c')) : inv c' := by
  unfold readOnce at hr
  split at hr
  · cases hr
    exact h
  · exact readLoop_inv hrecv os h hr

/-- The calls for a request keep `m_real_file`. -/
theorem Requested.realFile {c d : HttpConn} {reads : List (List RecvOutcome)}
    (h : Requested c reads d) : d.realFile = c.realFile := by
  induction h with
  | here hread hloop =>
      have hrest := congrArg Rest.realFile (request_rest hloop).1
      exact hrest.trans (congrArg Rest.realFile (readOnce_rest hread))
  | later hread hloop _ ih =>
      have hrest := congrArg Rest.realFile (returned_rest hloop)
      exact ih.trans (hrest.trans (congrArg Rest.realFile (readOnce_rest hread)))

/-- A property that the parser and `recv` keep holds when a request reaches
`do_request`, and `m_real_file` is as it was. -/
theorem LoopInv.requestOf {inv : HttpConn → Prop} (hinv : LoopInv inv)
    (hrecv : ∀ c d, inv c → inv (c.recv d)) {c d : HttpConn} {reads : List (List RecvOutcome)}
    (h : inv c) (hd : requestOf c reads = some d) :
    inv d ∧ d.checkState ≠ .requestLine ∧ d.realFile = c.realFile := by
  have hrequested := requested_iff.mp hd
  obtain ⟨hd, hstate⟩ := Parser.Requested.inv hinv (readOnce_inv hrecv) hrequested h
  exact ⟨hd, hstate, Requested.realFile hrequested⟩

/-! ## Where m_url points -/

/-- `UrlPlaced` of the members of a connection. -/
def HttpConn.UrlPlaced (c : HttpConn) : Prop :=
  Common.UrlPlaced c.checkState c.readIdx c.url c.readBuf

theorem HttpConn.UrlPlaced.parseLine {c : HttpConn} (h : c.UrlPlaced) :
    (parseLine c).2.UrlPlaced :=
  h.nulStores c.lineBuf.parseLine_nulStores

/-- A path that is accepted starts with a received `/`. -/
theorem finishPath_urlPlaced {c : HttpConn} (h : ZeroBehind c.readIdx c.readBuf)
    (hcode : (finishPath c).1 ≠ .badRequest) : (finishPath c).2.UrlPlaced := by
  unfold finishPath at hcode ⊢
  split
  · rename_i hurl
    simp only [hurl] at hcode
    exact absurd rfl hcode
  · rename_i url hurl
    simp only [hurl] at hcode
    split
    · rename_i hslash
      rw [if_pos hslash] at hcode
      exact absurd rfl hcode
    · rename_i hslash
      have hslash : c.readBuf.get url = slash := not_not.mp hslash
      have hlt := h.lt_of_slash hslash
      refine ⟨nofun, fun _ => ?_⟩
      simp only
      split_ifs with hone
      · refine ⟨url, hurl, hlt, Or.inl ?_⟩
        rw [appendJudge, CharBuf.get_write_lt _ _ (by omega)]
        exact hslash
      · exact ⟨url, hurl, hlt, Or.inl hslash⟩

theorem parsePath_urlPlaced {c c' : HttpConn} {url : Nat} {code : HttpCode}
    (h : ZeroBehind c.readIdx c.readBuf) (hp : parsePath c url = .ok (code, c')) (hcode : code ≠ .badRequest) :
    c'.UrlPlaced := by
  unfold parsePath at hp
  split at hp
  · cases hp
  · split at hp
    · cases hp
    · rename_i u _
      have hfinish := finishPath_urlPlaced (c := { c with url := u }) h
      rw [Except.ok.inj hp] at hfinish
      exact hfinish hcode

theorem parseVersion_urlPlaced {c c' : HttpConn} {url : Nat} {code : HttpCode}
    (h : ZeroBehind c.readIdx c.readBuf) (hp : parseVersion c url = .ok (code, c')) (hcode : code ≠ .badRequest) :
    c'.UrlPlaced := by
  unfold parseVersion at hp
  simp only at hp
  split at hp
  · cases hp
    exact absurd rfl hcode
  · split at hp
    · exact parsePath_urlPlaced (by exact h.nulStores (.set _ _)) hp hcode
    · cases hp
      exact absurd rfl hcode

theorem parseRequestLine_urlPlaced {c c' : HttpConn} {text : Nat} {code : HttpCode}
    (h : ZeroBehind c.readIdx c.readBuf) (hp : parseRequestLine c text = .ok (code, c'))
    (hcode : code ≠ .badRequest) : c'.UrlPlaced := by
  unfold parseRequestLine at hp
  simp only at hp
  split at hp
  · cases hp
    exact absurd rfl hcode
  · split at hp
    · exact parseVersion_urlPlaced (by exact h.nulStores (.set _ _)) hp hcode
    · split at hp
      · exact parseVersion_urlPlaced (by exact h.nulStores (.set _ _)) hp hcode
      · cases hp
        exact absurd rfl hcode

theorem parseHeaders_url (c : HttpConn) (text : Nat) :
    (parseHeaders c text).2.url = c.url := by
  unfold parseHeaders
  simp only
  split_ifs <;> rfl

theorem parseHeaders_urlPlaced {c : HttpConn} (h : c.UrlPlaced)
    (hstate : c.checkState = .header) (text : Nat) : (parseHeaders c text).2.UrlPlaced := by
  obtain ⟨hidx, hbuf⟩ := parseHeaders_frame c text
  unfold HttpConn.UrlPlaced
  rw [hidx.1, hbuf, parseHeaders_url]
  exact h.headers hstate (parseHeaders_checkState c text)

theorem parseContent_urlPlaced {c c' : HttpConn} {text : Nat} {code : HttpCode}
    (h : c.UrlPlaced) (hp : parseContent c text = .ok (code, c')) : c'.UrlPlaced := by
  unfold parseContent at hp
  simp only at hp
  split_ifs at hp <;> cases hp
  · exact h.nulStores (.set _ _)
  · exact h

theorem loopInv_urlPlaced : LoopInv HttpConn.UrlPlaced where
  parseLine h := h.parseLine
  setLine h := h
  requestLine h hstate hp hcode := parseRequestLine_urlPlaced (h.before hstate) hp hcode
  headers text h hstate := parseHeaders_urlPlaced h hstate text
  content h _ hp := parseContent_urlPlaced h hp

/-- When the calls for a request reach `do_request`, `m_url` is placed, and
`m_real_file` is as it was. -/
theorem requestOf_urlPlaced {c d : HttpConn} {reads : List (List RecvOutcome)}
    (h : c.UrlPlaced) (hd : requestOf c reads = some d) :
    (d.UrlPlaced ∧ d.checkState ≠ .requestLine) ∧ d.realFile = c.realFile := by
  have hrecv : ∀ (c : HttpConn) (d : Bytes), c.UrlPlaced → (c.recv d).UrlPlaced :=
    fun _ d h => h.recv d
  obtain ⟨hplaced, hstate, hfile⟩ := loopInv_urlPlaced.requestOf hrecv h hd
  exact ⟨⟨hplaced, hstate⟩, hfile⟩

/-! ## The path that do_request builds -/

/-- A path that starts with `/` and stays below the document root. -/
def OwnPath (path : Bytes) : Prop :=
  NUL ∉ path ∧ path = slash :: path.tail ∧ StaysBelow slash dot docRoot path.tail

instance (path : Bytes) : Decidable (OwnPath path) :=
  inferInstanceAs (Decidable (_ ∧ _))

/-- The pages that a login or a registration is answered with. -/
theorem ownPath_page (page : Page) : OwnPath page.text := by
  cases page <;> decide

/-- The path that `do_request` appends to the document root: one of its own pages, or
`m_url`. -/
def Selects (c : HttpConn) (url : Nat) (kind : UInt8) (path : Bytes) : Prop :=
  if OwnPage c kind then OwnPath path else path = cstr (c.text url)

theorem appendRealFile_path {c c' : HttpConn} {path : Bytes}
    (h : appendRealFile c path = .ok c') :
    docRoot.length + path.length ≤ FILENAME_LEN ∧
      c'.realFile = c.realFile.write docRoot.length path := by
  unfold appendRealFile at h
  split_ifs at h with hfits
  cases h
  exact ⟨hfits, rfl⟩

theorem copyUrl_path {c c' : HttpConn} {url : Nat} {page : Bytes} (hnul : NUL ∉ page)
    (h : copyUrl c url page = .ok c') :
    cstr (c'.text url) = page ∧ c'.realFile = c.realFile := by
  unfold copyUrl at h
  split_ifs at h with hfits
  cases h
  exact ⟨CharBuf.cstr_view_write _ hnul hfits, rfl⟩

theorem doAccount_path {w w' : World} {c c' : HttpConn} {url : Nat} {kind : UInt8}
    (h : doAccount w c url kind = .ok (c', w')) :
    ∃ path, OwnPath path ∧ docRoot.length + path.length ≤ FILENAME_LEN ∧
      c'.realFile = c.realFile.write docRoot.length path := by
  unfold doAccount at h
  obtain ⟨_, -, h⟩ := bind_eq_ok h
  obtain ⟨_, -, h⟩ := bind_eq_ok h
  obtain ⟨⟨page, users⟩, -, h⟩ := bind_eq_ok h
  obtain ⟨c₁, hcopy, h⟩ := bind_eq_ok h
  obtain ⟨c₂, happend, h⟩ := bind_eq_ok h
  cases h
  have hpage := ownPath_page page
  obtain ⟨htext, hfile⟩ := copyUrl_path hpage.1 hcopy
  obtain ⟨hfits, hreal⟩ := appendRealFile_path happend
  rw [htext] at hfits hreal
  exact ⟨page.text, hpage, hfits, hreal.trans (by rw [hfile])⟩

/-- The path of a request that is no login and no registration. -/
def requestedPath (c : HttpConn) (url : Nat) (kind : UInt8) : Bytes :=
  if kind = 48 then ascii "/register.html"
  else if kind = 49 then ascii "/login.html"
  else if kind = 53 then ascii "/picture.html"
  else if kind = 54 then ascii "/video.html"
  else cstr (c.text url)

theorem requestedPath_selects {c : HttpConn} {url : Nat} {kind : UInt8}
    (hacc : ¬(c.cgi = 1 ∧ (kind = 50 ∨ kind = 51))) :
    Selects c url kind (requestedPath c url kind) := by
  unfold Selects OwnPage requestedPath
  rcases Classical.em (kind = 48) with rfl | h0
  · simp only [if_true, true_or, or_true]
    decide
  rcases Classical.em (kind = 49) with rfl | h1
  · simp only [h0, if_true, if_false, true_or, or_true]
    decide
  rcases Classical.em (kind = 53) with rfl | h5
  · simp only [h0, h1, if_true, if_false, true_or, or_true]
    decide
  rcases Classical.em (kind = 54) with rfl | h6
  · simp only [h0, h1, h5, if_true, if_false, or_true]
    decide
  · simp only [hacc, h0, h1, h5, h6, if_false, or_self]

theorem selectFile_path {w w' : World} {c c' : HttpConn} {url : Nat} {kind : UInt8}
    (h : selectFile w c url kind = .ok (c', w')) :
    ∃ path, Selects c url kind path ∧ docRoot.length + path.length ≤ FILENAME_LEN ∧
      c'.realFile = c.realFile.write docRoot.length path := by
  unfold selectFile at h
  by_cases hacc : c.cgi = 1 ∧ (kind = 50 ∨ kind = 51)
  · rw [if_pos hacc] at h
    obtain ⟨path, hown, hfits, hreal⟩ := doAccount_path h
    have hselects : Selects c url kind path := by
      unfold Selects
      rw [if_pos (show OwnPage c kind from Or.inl hacc)]
      exact hown
    exact ⟨path, hselects, hfits, hreal⟩
  · rw [if_neg hacc] at h
    obtain ⟨c₁, happend, h⟩ := bind_eq_ok h
    cases h
    obtain ⟨hfits, hreal⟩ := appendRealFile_path happend
    exact ⟨requestedPath c url kind, requestedPath_selects hacc, hfits, hreal⟩

theorem openFile_realFile {w : World} {c c' : HttpConn} {code : HttpCode}
    (h : openFile w c = .ok (code, c')) : c'.realFile = c.realFile := by
  cases openFile_opened h
  rfl

theorem docRoot_nul : NUL ∉ docRoot := by decide

/-- The path that `do_request` passes to `stat` and `open`. -/
theorem doRequest_path {w w' : World} {c c' : HttpConn} {code : HttpCode}
    (hzero : c.realFile = CharBuf.zero FILENAME_LEN)
    (h : doRequest w c = .ok (code, c', w')) :
    ∃ url ∈ c.url, ∃ p ∈ strrchr (c.text url) slash, ∃ path,
      Selects c url (c.readBuf.get (url + p + 1)) path ∧
        cstr c'.realFile.bytes = docRoot ++ path := by
  rcases hu : c.url with _ | url
  · rw [doRequest_none hu] at h
    cases h
  rw [doRequest_some hu] at h
  obtain ⟨p, hp, h⟩ := bind_eq_ok h
  have hp : strrchr (c.text url) slash = some p := deref_eq_ok hp
  unfold openSelected at h
  -- the text of `doc_root` must not be evaluated below
  generalize hroot : c.realFile.write 0 (docRoot ++ [NUL]) = realFile at h
  obtain ⟨⟨c₁, w₁⟩, hselect, h⟩ := bind_eq_ok h
  obtain ⟨⟨code₂, c₂⟩, hopen, h⟩ := bind_eq_ok h
  cases h
  obtain ⟨path, hpath, hfits, hreal⟩ := selectFile_path hselect
  have hnul : NUL ∉ path := by
    unfold Selects at hpath
    split_ifs at hpath
    · exact hpath.1
    · rw [hpath]
      exact nul_notMem_cstr _
  have hstring : cstr (((CharBuf.zero FILENAME_LEN).write 0 (docRoot ++ [NUL])).write
      docRoot.length (path ++ List.replicate 0 NUL)).bytes = docRoot ++ path :=
    CharBuf.cstr_write_write docRoot_nul hnul (by rw [Nat.add_zero]; exact hfits)
  rw [List.replicate_zero, List.append_nil, ← hzero, hroot] at hstring
  refine ⟨url, rfl, p, hp, path, hpath, ?_⟩
  rw [openFile_realFile hopen, hreal]
  exact hstring

/-- The path of `m_url` at the call of `do_request`: a `/` and what follows. -/
theorem HttpConn.UrlPlaced.text_url {c : HttpConn} (h : c.UrlPlaced)
    (hstate : c.checkState ≠ .requestLine) {url : Nat} (hu : c.url = some url)
    (hne : cstr (c.text url) ≠ []) :
    cstr (c.text url) = slash :: (cstr (c.text url)).tail := by
  rcases h.cstr_url hstate hu with hnil | ⟨rest, hcons⟩
  · exact absurd hnil hne
  · rw [HttpConn.text, hcons]
    rfl

/-- A path that starts with `/`, behind the document root. -/
theorem inside_docRoot_iff {path : Bytes} (h : path = slash :: path.tail) :
    Inside docRoot (docRoot ++ path) ↔ StaysBelow slash dot docRoot path.tail := by
  unfold Inside
  rw [h]
  exact below_resolve_iff slash dot docRoot path.tail

theorem doRequest_inside {w w' : World} {c c' : HttpConn} {code : HttpCode}
    (hplaced : c.UrlPlaced) (hstate : c.checkState ≠ .requestLine)
    (hzero : c.realFile = CharBuf.zero FILENAME_LEN)
    (h : doRequest w c = .ok (code, c', w')) :
    Inside docRoot (cstr c'.realFile.bytes) ↔ StaysInside c := by
  obtain ⟨url, hurl, p, hp, path, hselects, hstring⟩ := doRequest_path hzero h
  have hstays : StaysInside c ↔ OwnPage c (c.readBuf.get (url + p + 1)) ∨
      StaysBelow slash dot docRoot (cstr (c.text url)).tail := by
    constructor
    · rintro ⟨url', hurl', p', hp', hcase⟩
      cases hurl.symm.trans hurl'
      cases hp.symm.trans hp'
      exact hcase
    · exact fun hcase => ⟨url, hurl, p, hp, hcase⟩
  rw [hstring, hstays]
  unfold Selects at hselects
  split_ifs at hselects with hown
  · rw [inside_docRoot_iff hselects.2.1]
    exact iff_of_true hselects.2.2 (Or.inl hown)
  · have hne : cstr (c.text url) ≠ [] := by
      intro hnil
      rw [strrchr, hnil] at hp
      cases hp
    rw [hselects, inside_docRoot_iff (hplaced.text_url hstate hurl hne)]
    exact ⟨Or.inr, fun hcase => hcase.resolve_left hown⟩

theorem servedFile_some {w : World} {c : HttpConn} {reads : List (List RecvOutcome)}
    {path : Bytes} (h : servedFile w c reads = some path) :
    ∃ c' w', answerOf w c reads = some (.ok (.fileRequest, c', w')) ∧
      path = cstr c'.realFile.bytes := by
  unfold servedFile at h
  split at h
  · rename_i c' w' hanswer
    exact ⟨c', w', hanswer, (Option.some.inj h).symm⟩
  · cases h

/-- The path of a request stays inside the document root exactly when the connection
with which `do_request` is called says so. -/
theorem inside_servedFile_iff {w : World} {c : HttpConn} {reads : List (List RecvOutcome)}
    {path : Bytes} (h : servedFile w c.init reads = some path) :
    Inside docRoot path ↔ ∃ d ∈ requestOf c.init reads, StaysInside d := by
  obtain ⟨c', w', hanswer, rfl⟩ := servedFile_some h
  obtain ⟨d, hd, hdo⟩ := answerOf_fileRequest reads hanswer
  have hinit : c.init.UrlPlaced := UrlPlaced.init
  obtain ⟨⟨hplaced, hstate⟩, hreal⟩ := requestOf_urlPlaced hinit hd
  rw [doRequest_inside hplaced hstate hreal hdo]
  constructor
  · exact fun hstays => ⟨d, hd, hstays⟩
  · rintro ⟨d', hd', hstays⟩
    cases hd.symm.trans hd'
    exact hstays

end EasyWebServer.Post
