import EasyWebServer.Post.Credentials
import EasyWebServer.Post.RealFile
import EasyWebServer.Post.RoundTrip
import EasyWebServer.Post.Process

/-!
# The site

What the server is for: `Site` is a directory of pages behind the document root, and a `Query` asks
for a page, or registers a user or logs one in.  `Site.lookup` is the file that answers a query and
the accounts behind it, and `Site.reply` is the message for a file.

`Poses` says which messages pose a query: a path that fits behind the document root, or the form
that the login and the registration page send.  `Poses.process` connects the two levels.  When
`process` handles the message, the database and the user map answer it as `Site.lookup` says, and
`process_write` prepares the bytes of `Site.reply`, or nothing where there is no reply.
-/

namespace EasyWebServer.Post

open CString CInt HttpConn CharBuf

/-! ## The site -/

/-- The files behind `stat`, `open` and `mmap`, and the answers of the database. -/
structure Site where
  /-- `mysql_query` returns zero for this INSERT. -/
  insertOk : Bytes → Bool
  stat : Bytes → Option FileStat
  mmap : Bytes → FileAddress
  /-- What a mapping shows. -/
  memory : Nat → Bytes
  contents : Bytes → Bytes
  /-- A file that may be read is mapped. -/
  mapped : ∀ path st, stat path = some st → st.othersRead = true → st.isDir = false →
    st.size ≠ 0 → ∃ address, mmap path = .mapped address ∧ memory address = contents path
  size : ∀ path st, stat path = some st → st.isDir = false → (contents path).length = st.size
  /-- The length of its response is an `int`. -/
  small : ∀ path st, stat path = some st → st.isDir = false → st.size ≤ maxFileSize true

namespace Site

/-- The environment of `do_request`. -/
def world (σ : Site) (users : UserMap) : World := ⟨users, σ.insertOk, σ.stat, σ.mmap⟩

/-- The message for a file.  A missing file and an empty one have none: the connection is closed. -/
def reply (σ : Site) (linger : Bool) (path : Bytes) : Option Http.Response :=
  match σ.stat path with
  | none => none
  | some st =>
      if st.othersRead = false then
        some (message 403 error403Title linger error403Form (by decide))
      else if st.isDir then some (message 404 error404Title linger error404Form (by decide))
      else if st.size = 0 then none
      else some (message 200 ok200Title linger (σ.contents path) (by decide))

/-- The bytes at a location. -/
def shown (σ : Site) : FileAddress → Bytes
  | .mapped address => σ.memory address
  | _ => []

end Site

/-! ## Queries -/

namespace AccountRequest

def name : AccountRequest → Bytes
  | .register name _ => name
  | .login name _ => name

def password : AccountRequest → Bytes
  | .register _ password => password
  | .login _ password => password

/-- The byte behind the last slash, `'3'` or `'2'`. -/
def kind : AccountRequest → UInt8
  | .register _ _ => 51
  | .login _ _ => 50

/-- The body that the pages send. -/
def form (a : AccountRequest) : Bytes :=
  ascii "user=" ++ a.name ++ ascii "&password=" ++ a.password

/-- The INSERT of a registration. -/
def statement (a : AccountRequest) : Bytes := (sqlParts a.name a.password).flatten

end AccountRequest

/-- What a message can ask of the site. -/
inductive Query where
  | page (url : Bytes)
  | account (request : AccountRequest)
  deriving DecidableEq, Repr

/-- The file that answers a query, and the accounts behind it. -/
def Site.lookup (σ : Site) (users : UserMap) : Query → Bytes × UserMap
  | .page url => (docRoot ++ mappedUrl url, users)
  | .account a =>
      let answer := serveAccount users a (σ.insertOk a.statement)
      (docRoot ++ answer.1.text, answer.2)

/-- The byte behind the last slash of a URL. -/
def lastName (url : Bytes) : UInt8 := url.getD ((lastIdx? slash url).getD 0 + 1) NUL

/-- The message poses the query. -/
inductive Poses (r : Http.Request) : Query → Prop where
  /-- A path that fits, and does not start like a shortcut unless it is one. -/
  | page {m : Method} {path : Bytes} (asks : Asks r m path)
      (fits : docRoot.length + (servedPath path).length < FILENAME_LEN)
      (names : (∃ s ∈ shortcuts, servedPath path = s.1) ∨
        lastName (servedPath path) ∉ ascii "0156")
      (plain : m = .post → lastName (servedPath path) ∉ ascii "23") :
      Poses r (.page (servedPath path))
  /-- The form of one of the two pages. -/
  | account {path : Bytes} (a : AccountRequest) (asks : Asks r .post path)
      (kind : lastName (servedPath path) = a.kind) (body : r.body = a.form)
      (plain : ampersand ∉ a.name) (no_nul : NUL ∉ r.body)
      (fit : CredentialsFit r.body a.kind) : Poses r (.account a)

/-! ## The file -/

/-- What `stat` and `mmap` have found at a path. -/
def Opened (w : World) (path : Bytes) (code : HttpCode) (c : HttpConn) : Prop :=
  match w.stat path with
  | none => code = .noResource
  | some st => c.fileStat = st ∧
      if st.othersRead = false then code = .forbiddenRequest
      else if st.isDir then code = .badRequest
      else code = .fileRequest ∧ c.fileAddress = w.mmap path

theorem openFile_found {w : World} {c c' : HttpConn} {code : HttpCode}
    (h : openFile w c = .ok (code, c')) : Opened w (cstr c.realFile.bytes) code c' := by
  unfold openFile at h
  unfold Opened
  simp only at h
  split_ifs at h
  rcases hstat : w.stat (cstr c.realFile.bytes) with _ | st
  · rw [hstat] at h
    cases h
    rfl
  · rw [hstat] at h
    simp only at h ⊢
    split_ifs at h ⊢ with hread hdir
    · cases h
      exact ⟨rfl, rfl⟩
    · cases h
      exact ⟨rfl, rfl⟩
    · cases h
      exact ⟨rfl, rfl, rfl⟩

/-- `do_request` answers from the path that it has stored. -/
theorem doRequest_opened {w w' : World} {c c' : HttpConn} {code : HttpCode}
    (h : doRequest w c = .ok (code, c', w')) : Opened w (cstr c'.realFile.bytes) code c' := by
  unfold doRequest at h
  simp only at h
  obtain ⟨_, -, h⟩ := bind_eq_ok h
  obtain ⟨_, -, h⟩ := bind_eq_ok h
  obtain ⟨⟨c₁, w₁⟩, hselect, h⟩ := bind_eq_ok h
  obtain ⟨⟨code₁, c₂⟩, hopen, h⟩ := bind_eq_ok h
  cases h
  obtain ⟨-, hstat, hmmap⟩ := selectFile_selected hselect
  have hfound := openFile_found hopen
  rw [Opened, hstat, hmmap, ← openFile_realFile hopen] at hfound
  exact hfound

/-! ## The request of a page -/

section Page

variable {w : World} {c : HttpConn} {m : Method} {path : Bytes} {hd : Http.Headers}

/-- The URL has a last slash, and the tests look at the byte behind it. -/
theorem HeadRead.lastName (h : HeadRead c m path hd) (hslash : path.head? = some slash) :
    ∃ url p, c.url = some url ∧ cstr (c.text url) = servedPath path ∧
      strrchr (c.text url) slash = some p ∧
      c.readBuf.get (url + p + 1) = lastName (servedPath path) := by
  obtain ⟨url, hurl, hstring, -⟩ := h.url
  have htext : cstr (c.text url) = servedPath path := hstring.cstr
  have hserved : slash ∈ servedPath path := by
    rw [servedPath]
    split
    · decide
    · exact List.mem_of_mem_head? (Option.mem_def.mpr hslash)
  obtain ⟨p, hlast⟩ := lastIdx?_of_mem hserved
  have hp : strrchr (c.text url) slash = some p := by rw [strrchr, htext, hlast]
  refine ⟨url, p, hurl, htext, hp, ?_⟩
  rw [get_lastName hp, htext, Post.lastName, hlast, Option.getD_some]

/-- A path that is chosen and fits is the one that is opened. -/
theorem doRequest_lookup {choice : FileChoice} (hchoice : chooseFile w c = .ok choice)
    (hnul : NUL ∉ choice.path)
    (hfile : choice.conn.realFile = (CharBuf.zero FILENAME_LEN).write 0 (docRoot ++ [NUL]))
    (hlt : docRoot.length + choice.path.length < FILENAME_LEN) :
    ∃ code c', doRequest w c = .ok (code, c', choice.world) ∧
      Opened w (docRoot ++ choice.path) code c' := by
  obtain ⟨code, c', hdo, hstring⟩ := doRequest_choice hchoice hnul hfile hlt
  have hopened := doRequest_opened hdo
  rw [hstring] at hopened
  exact ⟨code, c', hdo, hopened⟩

/-- A path that asks for a page. -/
theorem HeadRead.doRequest_page (h : HeadRead c m path hd) (hslash : path.head? = some slash)
    (hzero : c.realFile = CharBuf.zero FILENAME_LEN)
    (hfits : docRoot.length + (servedPath path).length < FILENAME_LEN)
    (hnames : (∃ s ∈ shortcuts, servedPath path = s.1) ∨
      Post.lastName (servedPath path) ∉ ascii "0156")
    (hplain : m = .post → Post.lastName (servedPath path) ∉ ascii "23") :
    ∃ code c', doRequest w c = .ok (code, c', w) ∧
      Opened w (docRoot ++ mappedUrl (servedPath path)) code c' := by
  obtain ⟨url, p, hu, htext, hp, hkind⟩ := h.lastName hslash
  have hother : ¬(c.cgi = 1 ∧
      (c.readBuf.get (url + p + 1) = 50 ∨ c.readBuf.get (url + p + 1) = 51)) := by
    rintro ⟨hcgi, hbyte⟩
    have hpost : m = .post := by
      by_contra hget
      rw [h.cgi, if_neg hget] at hcgi
      cases hcgi
    refine hplain hpost ?_
    rw [← hkind]
    rcases hbyte with hbyte | hbyte <;> rw [hbyte] <;> decide
  have hmaps : requestedPath c url (c.readBuf.get (url + p + 1)) = mappedUrl (servedPath path) := by
    rw [← htext]
    by_cases hshort : c.readBuf.get (url + p + 1) ∈ ascii "0156"
    · refine ((pathMaps_shortcut_iff hp hshort).mpr ?_).1
      rw [htext]
      exact hnames.resolve_right (fun hnot => hnot (hkind ▸ hshort))
    · exact (pathMaps_other hp hshort).1
  have hlt := (requestedPath_fits_iff c url (c.readBuf.get (url + p + 1))).mpr
    (Or.inr (by rw [strlen, htext]; exact hfits))
  rw [← hmaps]
  exact doRequest_lookup (chooseFile_requested hu hp hother) (requestedPath_nul c url _)
    (rooted_realFile hzero) hlt

end Page

/-! ## The request of an account -/

theorem rooted_string (c : HttpConn) : c.rooted.string = c.string := by
  unfold HttpConn.rooted
  generalize c.realFile.write 0 (docRoot ++ [NUL]) = realFile
  rfl

/-- The form of a request has its two fields. -/
theorem AccountRequest.form_fields {a : AccountRequest} (h : ampersand ∉ a.name) :
    bodyName a.form = a.name ∧ bodyPassword a.form = a.password := body_fields h rfl

/-- The answer to the form. -/
theorem accountPage_eq {w : World} {a : AccountRequest} (hplain : ampersand ∉ a.name)
    (hfit : CredentialsFit a.form a.kind) :
    accountPage w a.kind a.name a.password =
      .ok (serveAccount w.users a (w.insertOk a.statement)) := by
  obtain ⟨hname, hpassword⟩ := AccountRequest.form_fields hplain
  cases a with
  | login name password => rfl
  | register name password =>
      have hsql := hfit.sql rfl
      rw [hname, hpassword] at hsql
      have hstatement : sqlInsert name password =
          .ok (AccountRequest.register name password).statement := by
        rw [sqlInsert_eq]
        exact if_pos hsql
      rw [accountPage, if_pos (show (AccountRequest.register name password).kind = 51 from rfl)]
      show (sqlInsert name password >>= _) = _
      rw [hstatement]
      rfl

/-- The text at the pointer to a body: the body, and a NUL behind it. -/
theorem BodyRead.text {c : HttpConn} {body : Bytes} (h : BodyRead c body) :
    ∃ i rest, c.string = some i ∧ c.text i = body ++ NUL :: rest := by
  obtain ⟨i, hstring, hroom, hslice, hnul⟩ := h
  refine ⟨i, c.readBuf.view (i + body.length + 1), hstring, ?_⟩
  show c.readBuf.view i = _
  rw [view_eq_slice_append c.readBuf i body.length, hslice, view_cons _ hroom, hnul]

/-- A page is at most as long as the longest one. -/
theorem page_length_le (page : Page) : page.text.length ≤ 19 := by cases page <;> decide

/-- The form of the login or of the registration page. -/
theorem RequestRead.doRequest_account {w : World} {c : HttpConn} {r : Http.Request} {path : Bytes}
    {a : AccountRequest} (h : RequestRead c r.encode .post path r.headers r.body)
    (asks : Asks r .post path) (hzero : c.realFile = CharBuf.zero FILENAME_LEN)
    (hkind : lastName (servedPath path) = a.kind) (hbody : r.body = a.form)
    (hplain : ampersand ∉ a.name) (hnul : NUL ∉ r.body) (hfit : CredentialsFit r.body a.kind) :
    ∃ code c', doRequest w c = .ok (code, c',
        { w with users := (serveAccount w.users a (w.insertOk a.statement)).2 }) ∧
      Opened w (docRoot ++ (serveAccount w.users a (w.insertOk a.statement)).1.text) code c' := by
  obtain ⟨url, p, hu, htext, hp, hbyte⟩ := h.head.lastName asks.slash
  rw [hkind] at hbyte
  have hlen : 15 ≤ r.body.length := by
    have hdelim := hfit.delimiter
    omega
  obtain ⟨i, rest, hstring, hmem⟩ := (h.bodyRead (by
    intro hnil
    rw [hnil] at hlen
    cases hlen)).text
  have hcgi : c.cgi = 1 := h.head.cgi
  have hacc : c.rooted.cgi = 1 ∧ (a.kind = 50 ∨ a.kind = 51) := by
    refine ⟨(rooted_cgi c).trans hcgi, ?_⟩
    cases a with
    | register => exact .inr rfl
    | login => exact .inl rfl
  -- the credentials are those of the form
  have hcredentials : extractCredentials (c.rooted.text i) = .ok (a.name, a.password) := by
    obtain ⟨hname, hpassword⟩ := AccountRequest.form_fields hplain
    rw [rooted_text, hmem, extractCredentials_of_fit hnul hfit, hbody, hname, hpassword]
  have hpage := accountPage_eq (w := w) hplain (hbody ▸ hfit)
  generalize serveAccount w.users a (w.insertOk a.statement) = answer at hpage ⊢
  -- the page fits behind the start of the URL
  have hcopy : ∃ c₁, copyUrl c.rooted url answer.1.text = .ok c₁ := by
    have hend := h.url_end url hu
    have hchecked := h.checked
    have hfits := asks.fits
    have hle := page_length_le answer.1
    have hcap : READ_BUFFER_SIZE = 2048 := rfl
    have hpos : p < (servedPath path).length := by
      have hlt := strrchr_lt hp
      rwa [strlen, htext] at hlt
    exact ⟨_, if_pos (by omega)⟩
  obtain ⟨c₁, hcopy⟩ := hcopy
  obtain ⟨hstored, hfile⟩ := copyUrl_path (ownPath_page answer.1).1 hcopy
  have hchoice : chooseFile w c =
      .ok ⟨c₁, { w with users := answer.2 }, answer.1.text⟩ := by
    rw [chooseFile_some hu hp, hbyte, fileOf_account hacc, accountFile, rooted_string, hstring]
    show (extractCredentials (c.rooted.text i) >>= _) = _
    rw [hcredentials]
    show (accountPage w a.kind a.name a.password >>= _) = _
    rw [hpage]
    show (copyUrl c.rooted url answer.1.text >>= _) = _
    rw [hcopy]
    show Except.ok (FileChoice.mk c₁ _ (cstr (c₁.text url))) = _
    rw [hstored]
  exact doRequest_lookup hchoice (ownPath_page answer.1).1
    (hfile.trans (rooted_realFile hzero)) (page_fits answer.1)

/-! ## The reply -/

/-- The byte at a location. -/
def Site.byteAt (σ : Site) (c : HttpConn) : IovBase → UInt8
  | .writeBuf offset => c.writeBuf.get offset.toNat
  | .file offset => (σ.shown c.fileAddress).getD offset.toNat NUL

/-- How much of a message is in `m_write_buf`: the head of a page, and all of an error. -/
def stored (m : Http.Response) : Nat :=
  if m.status = 200 then m.encode.length - m.body.length else m.encode.length

/-- `m_iv` describes the message. -/
structure Sends (σ : Site) (c : HttpConn) (m : Http.Response) : Prop where
  prepared : Prepared (stored m) (m.encode.length - stored m) c
  int : (m.encode.length : Int) ≤ INT_MAX
  bytes : (response (stored m) (m.encode.length - stored m)).map (σ.byteAt c) = m.encode

theorem stored_le (m : Http.Response) : stored m ≤ m.encode.length := by
  rw [stored]
  split <;> omega

theorem Sends.total {σ : Site} {c : HttpConn} {m : Http.Response} (h : Sends σ c m) :
    ((stored m + (m.encode.length - stored m) : Nat) : Int) ≤ INT_MAX := by
  rw [Nat.add_sub_cancel' (stored_le m)]
  exact h.int

section Reply

variable {σ : Site} {c : HttpConn}

/-- The bytes of a vector into `m_write_buf`. -/
theorem map_byteAt_writeBuf {n : Nat} (h : n ≤ WRITE_BUFFER_SIZE) :
    (Iovec.locs ⟨.writeBuf 0, n⟩).map (σ.byteAt c) = c.writeBuf.slice 0 n := by
  apply List.ext_getElem?
  intro j
  by_cases hj : j < n
  · rw [slice_getElem? _ hj (by omega), Iovec.locs, List.map_map, List.getElem?_map,
      List.getElem?_range hj]
    simp [IovBase.shift, Site.byteAt]
  · rw [List.getElem?_eq_none (by rw [List.length_map, locs_length]; exact Nat.le_of_not_lt hj),
      List.getElem?_eq_none (by rw [slice_length _ (by omega)]; exact Nat.le_of_not_lt hj)]

/-- The bytes of the vector of a file. -/
theorem map_byteAt_file :
    (Iovec.locs ⟨.file 0, (σ.shown c.fileAddress).length⟩).map (σ.byteAt c) =
      σ.shown c.fileAddress := by
  apply List.ext_getElem?
  intro j
  by_cases hj : j < (σ.shown c.fileAddress).length
  · rw [Iovec.locs, List.map_map, List.getElem?_map, List.getElem?_range hj]
    simp [IovBase.shift, Site.byteAt, hj]
  · rw [List.getElem?_eq_none (by rw [List.length_map, locs_length]; exact Nat.le_of_not_lt hj),
      List.getElem?_eq_none (Nat.le_of_not_lt hj)]

theorem ResponseWritten.fileAddress {c c' : HttpConn} (h : ResponseWritten c c') :
    c'.fileAddress = c.fileAddress := by
  cases h
  rfl

/-- An error is sent from the buffer. -/
theorem errorResponse_sends (status : Nat) (title form : Bytes) (h0 : c.writeIdx = 0)
    (hsend : c.bytesHaveSend = 0) (hstatus : status < 1000) (hne : status ≠ 200)
    (htitle : title.length ≤ 100) (hform : form.length < 100) (hnul : strlen form = form.length)
    (hline : Http.OneLine title) :
    (errorResponse c status title form).1 = true ∧
      Sends σ (errorResponse c status title form).2 (message status title c.linger form hline) := by
  obtain ⟨heq, hlen⟩ := errorResponse_eq h0 hstatus htitle hform hnul
  have hprepared := errorResponse_prepared status title form h0 hsend hstatus htitle hform hnul
  have hencode : (message status title c.linger form hline).encode =
      errorText status title form c.linger := by
    rw [encode_message, errorText]
  have hstored : stored (message status title c.linger form hline) =
      (errorText status title form c.linger).length := by
    rw [stored, if_neg (show ¬ (message status title c.linger form hline).status = 200 from hne),
      hencode]
  have hbytes := responseBytes_finishWrite (c := c) [] h0 hlen
  refine ⟨by rw [heq]; rfl, ?_, ?_, ?_⟩
  · rw [hstored, hencode, Nat.sub_self]
    exact hprepared
  · rw [hencode]
    have hbuf : WRITE_BUFFER_SIZE = 1024 := rfl
    have hmax : INT_MAX = 2147483647 := rfl
    omega
  · rw [hstored, hencode, Nat.sub_self, response, List.map_append,
      map_byteAt_writeBuf (Nat.le_of_lt hlen), locs_zero, List.map_nil, List.append_nil, heq]
    exact slice_put _ h0 hlen

/-- The message for a page: its head, and the file. -/
theorem message_page (linger : Bool) (file : Bytes) (h : file.length ≤ maxFileSize linger) :
    (message 200 ok200Title linger file (by decide)).encode =
        fileHeader file.length linger ++ file ∧
      stored (message 200 ok200Title linger file (by decide)) =
        (fileHeader file.length linger).length := by
  have hint := (fileHeader_add_le_iff file.length linger).mpr h
  have hencode : (message 200 ok200Title linger file (by decide)).encode =
      fileHeader file.length linger ++ file := by
    rw [encode_message, fileHeader, wrap32_of_range (by omega) (by omega)]
  have hstatus : (message 200 ok200Title linger file (by decide)).status = 200 := rfl
  have hbody : (message 200 ok200Title linger file (by decide)).body = file := rfl
  refine ⟨hencode, ?_⟩
  rw [stored, if_pos hstatus, hencode, hbody, List.length_append]
  exact Nat.add_sub_cancel _ _

/-- A page is sent from the buffer and the mapping. -/
theorem fileResponse_sends (h0 : c.writeIdx = 0) (hsend : c.bytesHaveSend = 0)
    (hsize : c.fileStat.size ≠ 0) (hsmall : c.fileStat.size ≤ maxFileSize c.linger)
    (hfile : (σ.shown c.fileAddress).length = c.fileStat.size) :
    (fileResponse c).1 = true ∧ Sends σ (fileResponse c).2
      (message 200 ok200Title c.linger (σ.shown c.fileAddress) (by decide)) := by
  have hint := (fileHeader_add_le_iff c.fileStat.size c.linger).mpr hsmall
  have haddress : (fileResponse c).2.fileAddress = c.fileAddress :=
    (processWrite_written c .fileRequest).fileAddress
  have hprepared := fileResponse_prepared h0 hsend hsize
  have heq := fileResponse_eq h0 hsize
  have hlen := fileHeader_length c.fileStat.size c.linger
  have hdec := decimal_wrap32_length_le c.fileStat.size
  have hl : (if c.linger then 23 else 18) ≤ 23 := by split <;> omega
  have hbuf : WRITE_BUFFER_SIZE = 1024 := rfl
  have hput := slice_put (c := c) (fileHeader c.fileStat.size c.linger) h0 (by omega)
  have hhead : (fileHeader c.fileStat.size c.linger).length ≤ WRITE_BUFFER_SIZE := by omega
  obtain ⟨hencode, hstored⟩ := message_page c.linger (σ.shown c.fileAddress) (hfile ▸ hsmall)
  rw [hfile] at hencode hstored
  generalize hm : message 200 ok200Title c.linger (σ.shown c.fileAddress) (by decide) = m
  rw [hm] at hencode hstored
  -- the text of the header must not be evaluated below
  generalize fileHeader c.fileStat.size c.linger = text at *
  have hrest : m.encode.length - stored m = c.fileStat.size := by
    rw [hstored, hencode, List.length_append, Nat.add_sub_cancel_left, hfile]
  have hslice : (fileResponse c).2.writeBuf.slice 0 text.length = text := by
    rw [heq]
    exact hput
  refine ⟨by rw [heq], ?_, ?_, ?_⟩
  · rw [hrest, hstored]
    exact hprepared
  · rw [hencode, List.length_append, hfile]
    exact hint
  · have hshown := map_byteAt_file (σ := σ) (c := (fileResponse c).2)
    rw [haddress, hfile] at hshown
    rw [hrest, hstored, response, List.map_append, map_byteAt_writeBuf hhead, hslice, hshown,
      hencode]

/-- `process_write` prepares the message for the file that was opened, or nothing. -/
theorem Site.reply_sends {users : UserMap} {path : Bytes} {code : HttpCode}
    (h : Opened (σ.world users) path code c) (h0 : c.writeIdx = 0) (hsend : c.bytesHaveSend = 0) :
    match σ.reply c.linger path with
    | none => (processWrite c code).1 = false
    | some m => (processWrite c code).1 = true ∧ Sends σ (processWrite c code).2 m := by
  have hstat : (σ.world users).stat path = σ.stat path := rfl
  rw [Opened, hstat] at h
  rw [Site.reply]
  rcases hst : σ.stat path with _ | st
  · rw [hst] at h
    rw [h]
    rfl
  · rw [hst] at h
    obtain ⟨hfound, h⟩ := h
    simp only
    split at h
    · rename_i hread
      rw [h, if_pos hread]
      exact errorResponse_sends 403 error403Title error403Form h0 hsend (by omega) (by omega)
        (by decide) (by decide) (by decide) _
    · rename_i hread
      split at h
      · rename_i hdir
        rw [h, if_neg hread, if_pos hdir]
        exact errorResponse_sends 404 error404Title error404Form h0 hsend (by omega) (by omega)
          (by decide) (by decide) (by decide) _
      · rename_i hdir
        obtain ⟨rfl, haddress⟩ := h
        rw [if_neg hread, if_neg hdir]
        by_cases hsize : st.size = 0
        · rw [if_pos hsize]
          exact fileResponse_empty (by rw [hfound]; exact hsize)
        · rw [if_neg hsize]
          rw [Bool.not_eq_false] at hread
          rw [Bool.not_eq_true] at hdir
          obtain ⟨address, hmmap, hmemory⟩ := σ.mapped path st hst hread hdir hsize
          have hshown : σ.shown c.fileAddress = σ.contents path := by
            rw [haddress]
            show σ.shown (σ.mmap path) = _
            rw [hmmap]
            exact hmemory
          have hsmall : c.fileStat.size ≤ maxFileSize c.linger := by
            have hle := σ.small path st hst hdir
            rw [hfound]
            refine hle.trans ?_
            cases c.linger <;> decide
          have hsends := fileResponse_sends (σ := σ) h0 hsend (by rw [hfound]; exact hsize) hsmall
            (by rw [hshown, σ.size path st hst hdir, hfound])
          rw [hshown] at hsends
          exact hsends

end Reply

end EasyWebServer.Post
