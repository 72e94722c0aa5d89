import EasyWebServer.Post.Segmentation
import EasyWebServer.Post.ServedPath

/-!
# The path buffer

`do_request` copies `doc_root` into `m_real_file` and a path behind it.  `chooseFile` is
`do_request` up to the second copy, and `doRequest_eq` adds the rest, so that the copied
path can be named.

* `pathBufferOk_iff` says when the copy stays inside `m_real_file` and leaves a
  terminator: the length that the copy is given is the one of the path, and no branch
  compares it with the space behind `doc_root`.
* `mapsUrl_iff` compares the file that a GET request gets with the intended mapping: the
  four shortcuts, and every other URL as it is.
-/

namespace EasyWebServer.Post

open CString HttpConn

/-! ## The copied path -/

/-- What `do_request` has chosen when it copies the path. -/
structure FileChoice where
  conn : HttpConn
  world : World
  path : Bytes

/-- The branch for a login or a registration, up to the copy. -/
def accountFile (w : World) (c : HttpConn) (url : Nat) (kind : UInt8) :
    Except Fault FileChoice := do
  let body ← deref c.string
  let (name, password) ← extractCredentials (c.text body)
  let (page, users) ← accountPage w kind name password
  let c ← copyUrl c url page.text
  .ok ⟨c, { w with users := users }, cstr (c.text url)⟩

/-- The `m_url` tests of `do_request`, up to the copy. -/
def fileOf (w : World) (c : HttpConn) (url : Nat) (kind : UInt8) : Except Fault FileChoice :=
  if c.cgi = 1 ∧ (kind = 50 ∨ kind = 51) then accountFile w c url kind
  else .ok ⟨c, w, requestedPath c url kind⟩

theorem fileOf_account {w : World} {c : HttpConn} {url : Nat} {kind : UInt8}
    (h : c.cgi = 1 ∧ (kind = 50 ∨ kind = 51)) :
    fileOf w c url kind = accountFile w c url kind := by
  rw [fileOf, if_pos h]

theorem fileOf_other {w : World} {c : HttpConn} {url : Nat} {kind : UInt8}
    (h : ¬(c.cgi = 1 ∧ (kind = 50 ∨ kind = 51))) :
    fileOf w c url kind = .ok ⟨c, w, requestedPath c url kind⟩ := by
  rw [fileOf, if_neg h]

/-- `strcpy(m_real_file, doc_root)`. -/
def HttpConn.rooted (c : HttpConn) : HttpConn :=
  { c with realFile := c.realFile.write 0 (docRoot ++ [NUL]) }

@[simp] theorem rooted_cgi (c : HttpConn) : c.rooted.cgi = c.cgi := by
  unfold HttpConn.rooted
  generalize c.realFile.write 0 (docRoot ++ [NUL]) = realFile
  rfl

@[simp] theorem rooted_text (c : HttpConn) (i : Nat) : c.rooted.text i = c.text i := by
  unfold HttpConn.rooted
  generalize c.realFile.write 0 (docRoot ++ [NUL]) = realFile
  rfl

theorem rooted_realFile {c : HttpConn} (h : c.realFile = CharBuf.zero FILENAME_LEN) :
    c.rooted.realFile = (CharBuf.zero FILENAME_LEN).write 0 (docRoot ++ [NUL]) := by
  rw [← h]
  rfl

theorem rooted_requestedPath (c : HttpConn) (url : Nat) (kind : UInt8) :
    requestedPath c.rooted url kind = requestedPath c url kind := by
  unfold requestedPath
  rw [rooted_text]

/-- `do_request` up to the copy of the path. -/
def chooseFile (w : World) (c : HttpConn) : Except Fault FileChoice := do
  let url ← deref c.url
  let p ← deref (strrchr (c.text url) slash)
  fileOf w c.rooted url (c.readBuf.get (url + p + 1))

theorem selectFile_eq (w : World) (c : HttpConn) (url : Nat) (kind : UInt8) :
    selectFile w c url kind = (do
      let choice ← fileOf w c url kind
      let c ← appendRealFile choice.conn choice.path
      .ok (c, choice.world)) := by
  unfold selectFile fileOf
  by_cases hacc : c.cgi = 1 ∧ (kind = 50 ∨ kind = 51)
  · rw [if_pos hacc, if_pos hacc]
    unfold doAccount accountFile
    simp only [bind_assoc]
    rfl
  · rw [if_neg hacc, if_neg hacc]
    rfl

/-- `do_request` chooses a path, copies it, and opens the file. -/
theorem doRequest_eq (w : World) (c : HttpConn) :
    doRequest w c = (do
      let choice ← chooseFile w c
      let c ← appendRealFile choice.conn choice.path
      let (code, c) ← openFile choice.world c
      .ok (code, c, choice.world)) := by
  unfold doRequest chooseFile HttpConn.rooted
  -- the text of `doc_root` must not be evaluated below
  generalize c.realFile.write 0 (docRoot ++ [NUL]) = realFile
  simp only [selectFile_eq, bind_assoc]
  rfl

/-! ## What the copies must do -/

/-- The indices of `m_real_file` that `do_request` stores at: the root directory with its
terminator, and the path behind it. -/
def realFileStores (w : World) (c : HttpConn) : List Nat :=
  List.range (docRoot.length + 1) ++
    match chooseFile w c with
    | .ok choice => (List.range choice.path.length).map (fun k => docRoot.length + k)
    | .error _ => []

/-- Every store is inside `m_real_file`, and the path is terminated when `stat` is
called. -/
def PathBufferOk (w : World) (c : HttpConn) : Prop :=
  (∀ i ∈ realFileStores w c, i ≤ FILENAME_LEN - 1) ∧
    ∀ choice, chooseFile w c = .ok choice →
      NUL ∈ (choice.conn.realFile.write docRoot.length choice.path).bytes

/-- The connection asks for one of the server's own pages, or its `m_url` fits behind the
root directory. -/
def PathFits (c : HttpConn) : Prop :=
  ∀ url ∈ c.url, ∀ p ∈ strrchr (c.text url) slash,
    OwnPage c (c.readBuf.get (url + p + 1)) ∨
      docRoot.length + strlen (c.text url) < FILENAME_LEN

instance (c : HttpConn) : Decidable (PathFits c) := by
  unfold PathFits
  infer_instance

/-- The URLs that stand for a page of the server, with their pages. -/
def shortcuts : List (Bytes × Bytes) :=
  [(ascii "/0", ascii "/register.html"), (ascii "/1", ascii "/login.html"),
    (ascii "/5", ascii "/picture.html"), (ascii "/6", ascii "/video.html")]

/-- The file that a URL stands for. -/
def mappedUrl (url : Bytes) : Bytes := (shortcuts.lookup url).getD url

/-- The file that is looked up is the one of the URL, and a page behind a shortcut is
looked up only for the shortcut or under its own name. -/
def MapsUrl (w : World) (c : HttpConn) : Prop :=
  ∃ url code c' w', c.url = some url ∧ doRequest w c = .ok (code, c', w') ∧
    cstr c'.realFile.bytes = docRoot ++ mappedUrl (cstr (c.text url)) ∧
    ∀ s ∈ shortcuts, cstr c'.realFile.bytes = docRoot ++ s.2 →
      cstr (c.text url) = s.1 ∨ cstr (c.text url) = s.2

/-- The URL is a shortcut, or its last name does not start like one. -/
def NamesItself (c : HttpConn) : Prop :=
  ∃ url ∈ c.url, ∃ p ∈ strrchr (c.text url) slash,
    (∃ s ∈ shortcuts, cstr (c.text url) = s.1) ∨
      c.readBuf.get (url + p + 1) ∉ ascii "0156"

instance (c : HttpConn) : Decidable (NamesItself c) := by
  unfold NamesItself
  infer_instance

/-! ## The copies -/

theorem accountFile_path {w : World} {c : HttpConn} {url : Nat} {kind : UInt8}
    {choice : FileChoice} (h : accountFile w c url kind = .ok choice) :
    ∃ page : Page, choice.path = page.text ∧ choice.conn.realFile = c.realFile := by
  unfold accountFile at h
  obtain ⟨_, -, h⟩ := bind_eq_ok h
  obtain ⟨_, -, h⟩ := bind_eq_ok h
  obtain ⟨⟨page, users⟩, -, h⟩ := bind_eq_ok h
  obtain ⟨c₁, hcopy, h⟩ := bind_eq_ok h
  cases h
  obtain ⟨htext, hfile⟩ := copyUrl_path (ownPath_page page).1 hcopy
  exact ⟨page, htext, hfile⟩

/-- A path without a NUL leaves a terminator in `m_real_file` exactly when it is shorter
than the space behind the root directory. -/
theorem nul_mem_realFile_iff {path : Bytes} (hnul : NUL ∉ path)
    (hfits : docRoot.length + path.length ≤ FILENAME_LEN) :
    NUL ∈ (((CharBuf.zero FILENAME_LEN).write 0 (docRoot ++ [NUL])).write
        docRoot.length path).bytes ↔ docRoot.length + path.length < FILENAME_LEN := by
  have hbytes : (((CharBuf.zero FILENAME_LEN).write 0 (docRoot ++ [NUL])).write
      docRoot.length (path ++ List.replicate 0 NUL)).bytes =
        (docRoot ++ path) ++
          List.replicate (FILENAME_LEN - (docRoot.length + path.length)) NUL :=
    CharBuf.bytes_write_write (by rw [Nat.add_zero]; exact hfits)
  rw [List.replicate_zero, List.append_nil] at hbytes
  rw [hbytes, List.mem_append, List.mem_append, or_assoc, List.mem_replicate]
  constructor
  · rintro (h | h | ⟨h, -⟩)
    · exact absurd h docRoot_nul
    · exact absurd h hnul
    · omega
  · intro h
    exact Or.inr (Or.inr ⟨by omega, rfl⟩)

theorem docRoot_length : docRoot.length = 33 := by decide

/-- A chosen path is copied well exactly when it is shorter than the space behind the
root directory. -/
theorem pathBufferOk_choice {w : World} {c : HttpConn} {choice : FileChoice}
    (hchoice : chooseFile w c = .ok choice) (hnul : NUL ∉ choice.path)
    (hfile : choice.conn.realFile = (CharBuf.zero FILENAME_LEN).write 0 (docRoot ++ [NUL])) :
    PathBufferOk w c ↔ docRoot.length + choice.path.length < FILENAME_LEN := by
  have hroot := docRoot_length
  have hstores : (∀ i ∈ realFileStores w c, i ≤ FILENAME_LEN - 1) ↔
      docRoot.length + choice.path.length ≤ FILENAME_LEN := by
    unfold realFileStores
    simp only [hchoice, List.mem_append, List.mem_range, List.mem_map, FILENAME_LEN]
    constructor
    · intro h
      by_contra hlong
      have hlast := h (docRoot.length + (choice.path.length - 1))
        (Or.inr ⟨choice.path.length - 1, by omega, rfl⟩)
      omega
    · rintro h i (hi | ⟨k, hk, rfl⟩)
      · omega
      · omega
  unfold PathBufferOk
  rw [hstores]
  constructor
  · rintro ⟨hfits, hterm⟩
    have hmem := hterm choice hchoice
    rw [hfile] at hmem
    exact (nul_mem_realFile_iff hnul hfits).mp hmem
  · intro hlt
    refine ⟨hlt.le, fun choice' h => ?_⟩
    cases hchoice.symm.trans h
    rw [hfile]
    exact (nul_mem_realFile_iff hnul hlt.le).mpr hlt

/-- Where no path is chosen, only the root directory is copied. -/
theorem pathBufferOk_error {w : World} {c : HttpConn} {f : Fault}
    (h : chooseFile w c = .error f) : PathBufferOk w c := by
  have hroot := docRoot_length
  constructor
  · intro i hi
    unfold realFileStores at hi
    simp only [h, List.append_nil, List.mem_range] at hi
    simp only [FILENAME_LEN]
    omega
  · intro choice hchoice
    cases h.symm.trans hchoice

/-- The pages fit behind the root directory. -/
theorem page_fits (page : Page) : docRoot.length + page.text.length < FILENAME_LEN := by
  cases page <;> decide

/-- So do the pages behind the shortcuts. -/
theorem shortcut_fits : ∀ s ∈ shortcuts,
    NUL ∉ s.2 ∧ docRoot.length + s.2.length < FILENAME_LEN := by decide

/-- The tests of `do_request` look at the byte behind the last slash only. -/
theorem requestedPath_shortcut (c : HttpConn) (url : Nat) {kind : UInt8}
    (h : kind ∈ ascii "0156") :
    ∃ s ∈ shortcuts, s.1 = [slash, kind] ∧ requestedPath c url kind = s.2 := by
  have hkind : kind = 48 ∨ kind = 49 ∨ kind = 53 ∨ kind = 54 := by
    simpa [ascii] using h
  unfold requestedPath shortcuts
  rcases hkind with rfl | rfl | rfl | rfl
  · exact ⟨_, List.mem_cons_self, by decide, rfl⟩
  · exact ⟨(ascii "/1", ascii "/login.html"), by simp, by decide, rfl⟩
  · exact ⟨(ascii "/5", ascii "/picture.html"), by simp, by decide, rfl⟩
  · exact ⟨(ascii "/6", ascii "/video.html"), by simp, by decide, rfl⟩

theorem requestedPath_other {c : HttpConn} {url : Nat} {kind : UInt8}
    (h : kind ∉ ascii "0156") : requestedPath c url kind = cstr (c.text url) := by
  have hkind : ¬ (kind = 48 ∨ kind = 49 ∨ kind = 53 ∨ kind = 54) := by
    simpa [ascii] using h
  simp only [not_or] at hkind
  unfold requestedPath
  simp only [hkind, if_false]

theorem requestedPath_nul (c : HttpConn) (url : Nat) (kind : UInt8) :
    NUL ∉ requestedPath c url kind := by
  by_cases hkind : kind ∈ ascii "0156"
  · obtain ⟨s, hs, -, hpath⟩ := requestedPath_shortcut c url hkind
    rw [hpath]
    exact (shortcut_fits s hs).1
  · rw [requestedPath_other hkind]
    exact nul_notMem_cstr _

/-- The path that the tests choose is a page, or it is as long as the URL. -/
theorem requestedPath_fits_iff (c : HttpConn) (url : Nat) (kind : UInt8) :
    docRoot.length + (requestedPath c url kind).length < FILENAME_LEN ↔
      kind ∈ ascii "0156" ∨ docRoot.length + strlen (c.text url) < FILENAME_LEN := by
  by_cases hkind : kind ∈ ascii "0156"
  · obtain ⟨s, hs, -, hpath⟩ := requestedPath_shortcut c url hkind
    rw [hpath]
    exact iff_of_true (shortcut_fits s hs).2 (Or.inl hkind)
  · rw [requestedPath_other hkind]
    simp only [hkind, false_or]
    rfl

theorem ownPage_iff {c : HttpConn} {kind : UInt8} :
    OwnPage c kind ↔ (c.cgi = 1 ∧ (kind = 50 ∨ kind = 51)) ∨ kind ∈ ascii "0156" := by
  have hkind : kind ∈ ascii "0156" ↔ kind = 48 ∨ kind = 49 ∨ kind = 53 ∨ kind = 54 := by
    simp [ascii]
  rw [hkind]
  rfl

/-- The choice for a URL with a slash. -/
theorem chooseFile_some {w : World} {c : HttpConn} {url p : Nat} (hu : c.url = some url)
    (hp : strrchr (c.text url) slash = some p) :
    chooseFile w c = fileOf w c.rooted url (c.readBuf.get (url + p + 1)) := by
  unfold chooseFile
  rw [hu]
  show (deref (strrchr (c.text url) slash) >>= _) = _
  rw [hp]
  rfl

theorem chooseFile_none {w : World} {c : HttpConn}
    (h : ∀ url ∈ c.url, strrchr (c.text url) slash = none) :
    chooseFile w c = .error .nullPointer := by
  unfold chooseFile
  rcases hu : c.url with _ | url
  · rfl
  · show (deref (strrchr (c.text url) slash) >>= _) = _
    rw [h url hu]
    rfl

/-! ## The path buffer -/

section Copy

variable {w : World} {c : HttpConn} {url p : Nat}

/-- The path of a login or a registration is a page. -/
theorem pathBufferOk_account (hzero : c.realFile = CharBuf.zero FILENAME_LEN)
    (hu : c.url = some url) (hp : strrchr (c.text url) slash = some p)
    (hacc : c.cgi = 1 ∧ (c.readBuf.get (url + p + 1) = 50 ∨ c.readBuf.get (url + p + 1) = 51)) :
    PathBufferOk w c := by
  have hchoose : chooseFile w c = fileOf w c.rooted url (c.readBuf.get (url + p + 1)) :=
    chooseFile_some hu hp
  rw [← rooted_cgi] at hacc
  rw [fileOf_account hacc] at hchoose
  rcases hfile : accountFile w c.rooted url (c.readBuf.get (url + p + 1)) with f | choice
  · exact pathBufferOk_error (hchoose.trans hfile)
  · obtain ⟨page, hpath, hreal⟩ := accountFile_path hfile
    have hnul : NUL ∉ choice.path := by
      rw [hpath]
      exact (ownPath_page page).1
    rw [pathBufferOk_choice (hchoose.trans hfile) hnul (hreal.trans (rooted_realFile hzero)),
      hpath]
    exact page_fits page

/-- The choice for every other request. -/
theorem chooseFile_requested (hu : c.url = some url) (hp : strrchr (c.text url) slash = some p)
    (hother : ¬(c.cgi = 1 ∧
      (c.readBuf.get (url + p + 1) = 50 ∨ c.readBuf.get (url + p + 1) = 51))) :
    chooseFile w c =
      .ok ⟨c.rooted, w, requestedPath c url (c.readBuf.get (url + p + 1))⟩ := by
  rw [← rooted_cgi] at hother
  rw [chooseFile_some hu hp, fileOf_other hother, rooted_requestedPath]

/-- In a connection whose `m_real_file` is zero, the path is copied well exactly when it
fits. -/
theorem PathFits.iff_pathBufferOk (hzero : c.realFile = CharBuf.zero FILENAME_LEN) :
    PathFits c ↔ PathBufferOk w c := by
  by_cases hnone : ∀ url ∈ c.url, strrchr (c.text url) slash = none
  · refine iff_of_true ?_ (pathBufferOk_error (chooseFile_none hnone))
    intro url hu p hp
    cases (hnone url hu).symm.trans hp
  · push Not at hnone
    obtain ⟨url, hu, hne⟩ := hnone
    obtain ⟨p, hp⟩ := Option.ne_none_iff_exists'.mp hne
    have hfits : PathFits c ↔ OwnPage c (c.readBuf.get (url + p + 1)) ∨
        docRoot.length + strlen (c.text url) < FILENAME_LEN := by
      constructor
      · exact fun h => h url hu p hp
      · rintro h url' hu' p' hp'
        cases hu.symm.trans hu'
        cases hp.symm.trans hp'
        exact h
    rw [hfits, ownPage_iff]
    by_cases hacc : c.cgi = 1 ∧
        (c.readBuf.get (url + p + 1) = 50 ∨ c.readBuf.get (url + p + 1) = 51)
    · exact iff_of_true (Or.inl (Or.inl hacc)) (pathBufferOk_account hzero hu hp hacc)
    · have hroot := rooted_realFile hzero
      rw [pathBufferOk_choice (chooseFile_requested hu hp hacc) (requestedPath_nul c url _) hroot,
        requestedPath_fits_iff]
      simp only [hacc, false_or]

end Copy

/-- When a request reaches `do_request`, the path is copied well exactly when it fits. -/
theorem pathBufferOk_iff {w : World} {c d : HttpConn} {reads : List (List RecvOutcome)}
    (hd : requestOf c.init reads = some d) : PathBufferOk w d ↔ PathFits d := by
  have hinit : c.init.UrlPlaced := Common.UrlPlaced.init
  have hzero : d.realFile = CharBuf.zero FILENAME_LEN := (requestOf_urlPlaced hinit hd).2
  exact (PathFits.iff_pathBufferOk hzero).symm

/-- A request for the start page. -/
def startReads : List (List RecvOutcome) := [[.data (ascii "GET / HTTP/1.1\r\n\r\n"), .again]]

/-- A request for a path of `n` bytes behind the slash. -/
def longReads (n : Nat) : List (List RecvOutcome) :=
  [[.data (ascii "GET /" ++ List.replicate n 97 ++ ascii " HTTP/1.1\r\n\r\n"), .again]]

theorem pathBufferOk_start :
    ∃ d, requestOf blank.init startReads = some d ∧ PathBufferOk emptyWorld d := by
  have hrun : ∃ d ∈ requestOf blank.init startReads, PathFits d := by decide
  obtain ⟨d, hd, hfits⟩ := hrun
  exact ⟨d, hd, (pathBufferOk_iff hd).mpr hfits⟩

/-- A path of 167 bytes leaves no room for the terminator. -/
theorem not_pathBufferOk_long :
    ∃ d, requestOf blank.init (longReads 166) = some d ∧ ¬ PathBufferOk emptyWorld d := by
  have hrun : ∃ d ∈ requestOf blank.init (longReads 166), ¬ PathFits d := by decide +kernel
  obtain ⟨d, hd, hfits⟩ := hrun
  have hinit : blank.init.UrlPlaced := Common.UrlPlaced.init
  have hzero : d.realFile = CharBuf.zero FILENAME_LEN := (requestOf_urlPlaced hinit hd).2
  exact ⟨d, hd, fun hok => hfits ((PathFits.iff_pathBufferOk hzero).mpr hok)⟩

/-! ## A GET request has no account branch -/

/-- `cgi` is set by the request line of a POST only. -/
def CgiOnPost (c : HttpConn) : Prop :=
  c.checkState = .requestLine ∨ c.method = .get → c.cgi = 0

/-- What the path part of `parse_request_line` leaves when it accepts. -/
def PathAccepted (c c' : HttpConn) : Prop :=
  c'.checkState = .header ∧ c'.method = c.method ∧ c'.cgi = c.cgi

theorem TargetParsed.pathAccepted {c c' : HttpConn} {code : HttpCode}
    (h : TargetParsed c code c') (hcode : code ≠ .badRequest) : PathAccepted c c' := by
  cases h with
  | refused b url version => exact absurd rfl hcode
  | accepted b url version => exact ⟨rfl, rfl, rfl⟩

theorem parseRequestLine_cgi {c c' : HttpConn} {text : Nat} {code : HttpCode}
    (h : parseRequestLine c text = .ok (code, c')) (hcode : code ≠ .badRequest)
    (hcgi : c.cgi = 0) : CgiOnPost c' := by
  cases parseRequestLine_parsed h with
  | unknown b url => exact absurd rfl hcode
  | get ht => exact fun _ => (ht.pathAccepted hcode).2.2.trans hcgi
  | post ht =>
    obtain ⟨hstate, hmethod, -⟩ := ht.pathAccepted hcode
    rintro (hline | hget)
    · cases hstate.symm.trans hline
    · cases hmethod.symm.trans hget

theorem parseHeaders_cgi {c : HttpConn} (h : CgiOnPost c) (hstate : c.checkState = .header)
    (text : Nat) : CgiOnPost (parseHeaders c text).2 := by
  have hmembers : (parseHeaders c text).2.method = c.method ∧
      (parseHeaders c text).2.cgi = c.cgi := by
    unfold parseHeaders
    simp only
    split_ifs <;> exact ⟨rfl, rfl⟩
  rintro (hline | hget)
  · rcases parseHeaders_checkState c text with hnext | hnext
    · cases (hnext.trans hstate).symm.trans hline
    · cases hnext.symm.trans hline
  · rw [hmembers.2]
    exact h (Or.inr (hmembers.1.symm.trans hget))

theorem parseContent_cgi {c c' : HttpConn} {text : Nat} {code : HttpCode} (h : CgiOnPost c)
    (hp : parseContent c text = .ok (code, c')) : CgiOnPost c' := by
  unfold parseContent at hp
  simp only at hp
  split_ifs at hp <;> cases hp <;> exact h

theorem loopInv_cgi : LoopInv CgiOnPost where
  parseLine h := h
  setLine h := h
  requestLine h hstate hp hcode := parseRequestLine_cgi hp hcode (h (Or.inl hstate))
  headers text h hstate := parseHeaders_cgi h hstate text
  content h _ hp := parseContent_cgi h hp

/-! ## The mapping -/

theorem openFile_ok {w : World} {c : HttpConn} (h : NUL ∈ c.realFile.bytes) :
    ∃ code c', openFile w c = .ok (code, c') := by
  unfold openFile
  simp only [if_pos h]
  split
  · exact ⟨_, _, rfl⟩
  · split_ifs <;> exact ⟨_, _, rfl⟩

/-- A chosen path that fits is the one that is looked up. -/
theorem doRequest_choice {w : World} {c : HttpConn} {choice : FileChoice}
    (hchoice : chooseFile w c = .ok choice) (hnul : NUL ∉ choice.path)
    (hfile : choice.conn.realFile = (CharBuf.zero FILENAME_LEN).write 0 (docRoot ++ [NUL]))
    (hlt : docRoot.length + choice.path.length < FILENAME_LEN) :
    ∃ code c', doRequest w c = .ok (code, c', choice.world) ∧
      cstr c'.realFile.bytes = docRoot ++ choice.path := by
  have happend : appendRealFile choice.conn choice.path =
      .ok { choice.conn with realFile := choice.conn.realFile.write docRoot.length choice.path } := by
    rw [appendRealFile, if_pos hlt.le]
  have hmem := (nul_mem_realFile_iff hnul hlt.le).mpr hlt
  have hstring : cstr (((CharBuf.zero FILENAME_LEN).write 0 (docRoot ++ [NUL])).write
      docRoot.length (choice.path ++ List.replicate 0 NUL)).bytes = docRoot ++ choice.path :=
    CharBuf.cstr_write_write docRoot_nul hnul (by rw [Nat.add_zero]; exact hlt.le)
  rw [List.replicate_zero, List.append_nil] at hstring
  rw [← hfile] at hmem hstring
  obtain ⟨code, c', hopen⟩ := openFile_ok (w := choice.world) (c := { choice.conn with
    realFile := choice.conn.realFile.write docRoot.length choice.path }) hmem
  refine ⟨code, c', ?_, ?_⟩
  · rw [doRequest_eq, hchoice]
    show (appendRealFile choice.conn choice.path >>= _) = _
    rw [happend]
    show (openFile choice.world _ >>= _) = _
    rw [hopen]
    rfl
  · rw [openFile_realFile hopen]
    exact hstring

/-- The byte behind the last slash, read in the string of the URL. -/
theorem get_lastName {c : HttpConn} {url p : Nat} (hp : strrchr (c.text url) slash = some p) :
    c.readBuf.get (url + p + 1) = (cstr (c.text url)).getD (p + 1) NUL := by
  have hle : p + 1 ≤ strlen (c.readBuf.view url) := strrchr_lt hp
  rw [Nat.add_assoc]
  exact CharBuf.get_cstr c.readBuf hle

/-- A shortcut is a slash and one of the four bytes, and stands for its page. -/
theorem shortcut_url : ∀ s ∈ shortcuts, mappedUrl s.1 = s.2 ∧
    ∀ p ∈ lastIdx? slash s.1, s.1.getD (p + 1) NUL ∈ ascii "0156" ∧
      s.1 = [slash, s.1.getD (p + 1) NUL] := by decide

/-- The name of a page does not start like a shortcut. -/
theorem shortcut_page : ∀ s ∈ shortcuts, ∀ p ∈ lastIdx? slash s.2,
    s.2.getD (p + 1) NUL ∉ ascii "0156" := by decide

theorem shortcut_unique : ∀ s ∈ shortcuts, ∀ t ∈ shortcuts, s.1 = t.1 ∨ s.2 = t.2 → s = t := by
  decide

theorem mappedUrl_other {u : Bytes} (h : ∀ s ∈ shortcuts, u ≠ s.1) : mappedUrl u = u := by
  have hnone : shortcuts.lookup u = none := by
    rw [List.lookup_eq_none_iff]
    intro s hs
    exact bne_iff_ne.mpr (h s hs)
  rw [mappedUrl, hnone]
  rfl

/-- A GET request whose URL fits is answered from the path that the tests of `do_request`
choose. -/
theorem doRequest_get {w : World} {c : HttpConn} {url p : Nat} (hcgi : c.cgi = 0)
    (hzero : c.realFile = CharBuf.zero FILENAME_LEN) (hu : c.url = some url)
    (hp : strrchr (c.text url) slash = some p)
    (hfit : docRoot.length + strlen (c.text url) < FILENAME_LEN) :
    ∃ code c' w', doRequest w c = .ok (code, c', w') ∧ cstr c'.realFile.bytes =
      docRoot ++ requestedPath c url (c.readBuf.get (url + p + 1)) := by
  have hother : ¬(c.cgi = 1 ∧
      (c.readBuf.get (url + p + 1) = 50 ∨ c.readBuf.get (url + p + 1) = 51)) := by
    rw [hcgi]
    exact fun h => absurd h.1 (by decide)
  have hroot := rooted_realFile hzero
  have hlt := (requestedPath_fits_iff c url (c.readBuf.get (url + p + 1))).mpr (Or.inr hfit)
  obtain ⟨code, c', hdo, hstring⟩ := doRequest_choice (chooseFile_requested hu hp hother)
    (requestedPath_nul c url _) hroot hlt
  exact ⟨code, c', w, hdo, hstring⟩

theorem doRequest_noSlash {w : World} {c : HttpConn}
    (h : ∀ url ∈ c.url, strrchr (c.text url) slash = none) :
    doRequest w c = .error .nullPointer := by
  rw [doRequest_eq, chooseFile_none h]
  rfl

/-- What `MapsUrl` asks of the path that the tests choose. -/
def PathMaps (path target : Bytes) : Prop :=
  path = mappedUrl target ∧ ∀ s ∈ shortcuts, path = s.2 → target = s.1 ∨ target = s.2

section Mapping

variable {c : HttpConn} {url p : Nat}

/-- A name that starts like a shortcut is mapped well only where it is the shortcut. -/
theorem pathMaps_shortcut_iff (hp : strrchr (c.text url) slash = some p)
    (hkind : c.readBuf.get (url + p + 1) ∈ ascii "0156") :
    PathMaps (requestedPath c url (c.readBuf.get (url + p + 1))) (cstr (c.text url)) ↔
      ∃ s ∈ shortcuts, cstr (c.text url) = s.1 := by
  have hname := get_lastName hp
  have hlast : p ∈ lastIdx? slash (cstr (c.text url)) := hp
  obtain ⟨s, hs, hurl, hreq⟩ := requestedPath_shortcut c url hkind
  rw [hreq]
  constructor
  · rintro ⟨hfile, -⟩
    by_contra hnot
    simp only [not_exists, not_and] at hnot
    -- the URL would be the name of the page
    rw [mappedUrl_other (fun t ht h => hnot t ht h)] at hfile
    rw [hname] at hkind
    rw [← hfile] at hkind hlast
    exact shortcut_page s hs p hlast hkind
  · rintro ⟨t, ht, hshort⟩
    -- the shortcut is the one that the byte stands for
    have hst : s = t := by
      refine shortcut_unique s hs t ht (Or.inl ?_)
      rw [hshort] at hname hlast
      rw [hurl, hname]
      exact ((shortcut_url t ht).2 p hlast).2.symm
    subst hst
    rw [hshort]
    refine ⟨(shortcut_url s hs).1.symm, fun t ht hpage => ?_⟩
    exact Or.inl (by rw [shortcut_unique s hs t ht (Or.inr hpage)])

/-- Every other URL is looked up as it is. -/
theorem pathMaps_other (hp : strrchr (c.text url) slash = some p)
    (hkind : c.readBuf.get (url + p + 1) ∉ ascii "0156") :
    PathMaps (requestedPath c url (c.readBuf.get (url + p + 1))) (cstr (c.text url)) := by
  have hname := get_lastName hp
  have hlast : p ∈ lastIdx? slash (cstr (c.text url)) := hp
  have hother : ∀ t ∈ shortcuts, cstr (c.text url) ≠ t.1 := by
    intro t ht h
    rw [h] at hname hlast
    rw [hname] at hkind
    exact hkind ((shortcut_url t ht).2 p hlast).1
  rw [requestedPath_other hkind]
  exact ⟨(mappedUrl_other hother).symm, fun t _ hpage => Or.inr hpage⟩

end Mapping

/-- A connection whose request is a GET that fits: the file is the one of the URL exactly
when the URL is a shortcut or its last name does not start like one. -/
theorem NamesItself.iff_mapsUrl {w : World} {c : HttpConn} (hcgi : c.cgi = 0)
    (hzero : c.realFile = CharBuf.zero FILENAME_LEN)
    (hfit : ∀ url ∈ c.url, docRoot.length + strlen (c.text url) < FILENAME_LEN) :
    NamesItself c ↔ MapsUrl w c := by
  by_cases hnone : ∀ url ∈ c.url, strrchr (c.text url) slash = none
  · apply iff_of_false
    · rintro ⟨url, hu, p, hp, -⟩
      cases (hnone url hu).symm.trans hp
    · rintro ⟨url, code, c', w', -, hdo, -⟩
      cases (doRequest_noSlash hnone).symm.trans hdo
  · push Not at hnone
    obtain ⟨url, hu, hne⟩ := hnone
    obtain ⟨p, hp⟩ := Option.ne_none_iff_exists'.mp hne
    obtain ⟨code, c', w', hdo, hstring⟩ := doRequest_get (w := w) hcgi hzero hu hp (hfit url hu)
    have hnames : NamesItself c ↔ (∃ s ∈ shortcuts, cstr (c.text url) = s.1) ∨
        c.readBuf.get (url + p + 1) ∉ ascii "0156" := by
      constructor
      · rintro ⟨url', hu', p', hp', h⟩
        cases hu.symm.trans hu'
        cases hp.symm.trans hp'
        exact h
      · exact fun h => ⟨url, hu, p, hp, h⟩
    have hmaps : MapsUrl w c ↔
        PathMaps (requestedPath c url (c.readBuf.get (url + p + 1))) (cstr (c.text url)) := by
      constructor
      · rintro ⟨url', code', c₁, w₁, hu', hdo', hfile, hpages⟩
        cases hu.symm.trans hu'
        cases hdo.symm.trans hdo'
        simp only [hstring, List.append_cancel_left_eq] at hfile hpages
        exact ⟨hfile, hpages⟩
      · rintro ⟨hfile, hpages⟩
        refine ⟨url, code, c', w', hu, hdo, hstring.trans (by rw [hfile]), ?_⟩
        simp only [hstring, List.append_cancel_left_eq]
        exact hpages
    rw [hnames, hmaps]
    by_cases hkind : c.readBuf.get (url + p + 1) ∈ ascii "0156"
    · rw [pathMaps_shortcut_iff hp hkind]
      exact or_iff_left (fun hother => hother hkind)
    · exact iff_of_true (Or.inr hkind) (pathMaps_other hp hkind)

/-- A GET request whose URL fits is mapped to its file exactly when the URL is a shortcut or
its last name does not start like one. -/
theorem mapsUrl_iff {w : World} {c d : HttpConn} {reads : List (List RecvOutcome)}
    (hd : requestOf c.init reads = some d) (hget : d.method = .get)
    (hfit : ∀ url ∈ d.url, docRoot.length + strlen (d.text url) < FILENAME_LEN) :
    MapsUrl w d ↔ NamesItself d := by
  have hinit : CgiOnPost c.init := fun _ => rfl
  obtain ⟨hcgi, -, hfile⟩ := loopInv_cgi.requestOf (fun _ _ h => h) hinit hd
  have hzero : d.realFile = CharBuf.zero FILENAME_LEN := hfile
  exact (NamesItself.iff_mapsUrl (hcgi (Or.inr hget)) hzero hfit).symm

/-- A request for a shortcut, and one for a file whose name starts like it. -/
def shortcutReads : List (List RecvOutcome) := [[.data (ascii "GET /5 HTTP/1.1\r\n\r\n"), .again]]

def digitReads : List (List RecvOutcome) :=
  [[.data (ascii "GET /img/1.png HTTP/1.1\r\n\r\n"), .again]]

theorem mapsUrl_shortcut :
    ∃ d, requestOf blank.init shortcutReads = some d ∧ MapsUrl emptyWorld d := by
  have hrun : ∃ d ∈ requestOf blank.init shortcutReads, d.method = .get ∧
      (∀ url ∈ d.url, docRoot.length + strlen (d.text url) < FILENAME_LEN) ∧
      NamesItself d := by decide
  obtain ⟨d, hd, hmethod, hfit, hnames⟩ := hrun
  exact ⟨d, hd, (mapsUrl_iff hd hmethod hfit).mpr hnames⟩

/-- An image whose name starts with the digit of a shortcut: the login page is looked up. -/
theorem not_mapsUrl_digit :
    ∃ d, requestOf blank.init digitReads = some d ∧ d.method = .get ∧
      (∀ url ∈ d.url, docRoot.length + strlen (d.text url) < FILENAME_LEN) ∧
      ¬ MapsUrl emptyWorld d := by
  have hrun : ∃ d ∈ requestOf blank.init digitReads, d.method = .get ∧ d.cgi = 0 ∧
      (∀ url ∈ d.url, docRoot.length + strlen (d.text url) < FILENAME_LEN) ∧
      ¬ NamesItself d := by decide
  obtain ⟨d, hd, hmethod, hcgi, hfit, hnames⟩ := hrun
  have hinit : blank.init.UrlPlaced := Common.UrlPlaced.init
  have hzero : d.realFile = CharBuf.zero FILENAME_LEN := (requestOf_urlPlaced hinit hd).2
  exact ⟨d, hd, hmethod, hfit,
    fun hmaps => hnames ((NamesItself.iff_mapsUrl hcgi hzero hfit).mpr hmaps)⟩

end EasyWebServer.Post
