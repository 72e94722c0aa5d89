import EasyWebServer.Get.ServedPath

/-!
# The path buffer of the GET server

`do_request` copies `doc_root` into `m_real_file` and `m_url` behind it, up to the size of
the array.  `pathStores` are the two copies with the index at which each starts.

`pathOk_iff` says when the file that is opened is the one of the URL: the copies stay
inside `m_real_file` and leave a terminator for every URL, and a URL that is too long for
the array loses its end.
-/

namespace EasyWebServer.Get

open CString HttpConn

/-! ## The stores -/

/-- The bytes that `do_request` stores into `m_real_file`, with the index of the first:
`strcpy` of the document root, and `strncpy` of `m_url`. -/
def pathStores (c : HttpConn) : List (Nat × Bytes) :=
  (0, docRoot ++ [NUL]) ::
    c.url.toList.map
      (fun url => (docRoot.length, strncpy (c.text url) (FILENAME_LEN - docRoot.length - 1)))

/-- `m_real_file` with these stores. -/
def storedFile (c : HttpConn) : CharBuf FILENAME_LEN :=
  c.realFile.writeAll (pathStores c)

/-- `do_request` makes the stores and opens the file. -/
theorem doRequest_eq {c : HttpConn} {url : Nat} (w : World) (hurl : c.url = some url) :
    doRequest w c = openFile w { c with realFile := storedFile c } := by
  unfold doRequest storedFile pathStores
  -- the text of `doc_root` must not be evaluated below
  generalize docRoot ++ [NUL] = root
  simp only [hurl]
  rfl

/-! ## What do_request must do -/

/-- The path of a request: `doc_root` and `m_url`. -/
def requestedFile (c : HttpConn) (url : Nat) : Bytes := docRoot ++ cstr (c.text url)

/-- Every store is inside `m_real_file`, the path is terminated when `stat` and `open` are
called, and a file that is served is the one of `doc_root` and `m_url`: its status, its
mapping and its path. -/
structure PathOk (w : World) (c : HttpConn) (reads : List (List RecvOutcome)) : Prop where
  bounds : ∀ d ∈ requestOf c reads, ∀ run ∈ pathStores d,
    ∀ k < run.2.length, run.1 + k < FILENAME_LEN
  terminated : ∀ d ∈ requestOf c reads, NUL ∈ (storedFile d).bytes
  served : ∀ c', answerOf w c reads = some (.ok (.fileRequest, c')) →
    ∃ d ∈ requestOf c reads, ∃ url ∈ d.url,
      cstr c'.realFile.bytes = requestedFile d url ∧
      w.stat (requestedFile d url) = some c'.fileStat ∧
      c'.fileAddress = w.mmap (requestedFile d url)

/-- The file system has a file at the path that everybody may read. -/
def World.serves (w : World) (path : Bytes) : Bool :=
  match w.stat path with
  | some st => st.othersRead && !st.isDir
  | none => false

/-- The path of the request and its terminator fit into `m_real_file`, or no file has the
part of the path that fits as its own. -/
def FitsOrAbsent (w : World) (c : HttpConn) (reads : List (List RecvOutcome)) : Prop :=
  ∀ d ∈ requestOf c reads, ∀ url ∈ d.url,
    (requestedFile d url).length < FILENAME_LEN ∨
      w.serves ((requestedFile d url).take (FILENAME_LEN - 1)) = false

/-! ## One call of do_request -/

/-- A file that is served passes the tests of `do_request`, and the connection has what
the file system says about its path. -/
theorem openFile_fileRequest {w : World} {c c' : HttpConn} {file : CharBuf FILENAME_LEN}
    (h : openFile w { c with realFile := file } = .ok (.fileRequest, c')) :
    c'.realFile = file ∧ w.stat (cstr file.bytes) = some c'.fileStat ∧
      c'.fileAddress = w.mmap (cstr file.bytes) ∧ w.serves (cstr file.bytes) = true := by
  unfold openFile at h
  simp only at h
  split at h
  · split at h
    · cases h
    · rename_i st hst
      split_ifs at h with hread hdir
      · cases h
      · cases h
      · cases h
        refine ⟨rfl, hst, rfl, ?_⟩
        rw [World.serves, hst]
        simp [hread, hdir]
  · cases h

theorem openFile_serves {w : World} (c : HttpConn) {file : CharBuf FILENAME_LEN}
    (hnul : NUL ∈ file.bytes) (h : w.serves (cstr file.bytes) = true) :
    ∃ c', openFile w { c with realFile := file } = .ok (.fileRequest, c') ∧
      c'.realFile = file := by
  unfold World.serves at h
  unfold openFile
  rw [if_pos hnul]
  simp only
  split at h
  · rename_i st hst
    rw [Bool.and_eq_true, Bool.not_eq_true'] at h
    rw [hst]
    simp only [h.1, h.2]
    exact ⟨_, rfl, rfl⟩
  · cases h

/-- The path that `do_request` leaves in `m_real_file`: as much of the requested one as
fits. -/
theorem cstr_storedFile {c : HttpConn} (h : c.Placed) {url : Nat} (hurl : c.url = some url) :
    cstr (storedFile c).bytes = (requestedFile c url).take (FILENAME_LEN - 1) := by
  have hstored : storedFile c = ((CharBuf.zero FILENAME_LEN).write 0 (docRoot ++ [NUL])).write
      docRoot.length (strncpy (c.text url) (FILENAME_LEN - docRoot.length - 1)) := by
    rw [storedFile, pathStores, hurl, h.file]
    rfl
  have hlen : FILENAME_LEN - 1 - docRoot.length = FILENAME_LEN - docRoot.length - 1 := by omega
  have hroot : docRoot.length ≤ FILENAME_LEN - 1 := by decide
  rw [hstored, cstr_realFile, requestedFile, List.take_append, hlen, List.take_of_length_le hroot]

/-- No URL makes `do_request` store outside `m_real_file`. -/
theorem pathStores_bounds (c : HttpConn) : ∀ run ∈ pathStores c,
    ∀ k < run.2.length, run.1 + k < FILENAME_LEN := by
  have hroot : docRoot.length < FILENAME_LEN - 1 := by decide
  intro run hrun k hk
  rcases List.mem_cons.mp hrun with rfl | hrun
  · rw [List.length_append, List.length_singleton] at hk
    omega
  · obtain ⟨url, -, rfl⟩ := List.mem_map.mp hrun
    simp only [strncpy_length] at hk ⊢
    omega

/-- The last byte of `m_real_file` keeps the NUL of `init`. -/
theorem nul_mem_storedFile {c : HttpConn} (h : c.Placed) {url : Nat} (hurl : c.url = some url) :
    NUL ∈ (storedFile c).bytes := by
  by_contra hnot
  have hlen := congrArg List.length (cstr_eq_self hnot)
  rw [cstr_storedFile h hurl, (storedFile c).size_eq, List.length_take] at hlen
  have hpos : 0 < FILENAME_LEN := by decide
  omega

/-! ## The requests -/

/-- A request that is answered with a file gets the one of the part of its path that fits
into `m_real_file`. -/
theorem answerOf_served {w : World} {c c' : HttpConn} {reads : List (List RecvOutcome)}
    (h : answerOf w c.init reads = some (.ok (.fileRequest, c'))) :
    ∃ d ∈ requestOf c.init reads, ∃ url ∈ d.url,
      cstr c'.realFile.bytes = (requestedFile d url).take (FILENAME_LEN - 1) ∧
      w.stat (cstr c'.realFile.bytes) = some c'.fileStat ∧
      c'.fileAddress = w.mmap (cstr c'.realFile.bytes) ∧
      w.serves (cstr c'.realFile.bytes) = true := by
  obtain ⟨d, hd, hdo⟩ := answerOf_fileRequest h
  obtain ⟨hplaced, hstate⟩ := requestOf_placed (placed_init c) hd
  obtain ⟨url, hurl, -⟩ := hplaced.url.after hstate
  have hpath := cstr_storedFile hplaced hurl
  rw [doRequest_eq w hurl] at hdo
  generalize storedFile d = file at hdo hpath
  obtain ⟨hfile, hserved⟩ := openFile_fileRequest hdo
  refine ⟨d, hd, url, hurl, ?_, ?_⟩
  · rw [hfile, hpath]
  · rw [hfile]
    exact hserved

/-- A path that is cut is served when a file has the part that is left as its own. -/
theorem PathOk.fitsOrAbsent {w : World} {c : HttpConn} {reads : List (List RecvOutcome)}
    (h : PathOk w c.init reads) : FitsOrAbsent w c.init reads := by
  intro d hd url hurl
  obtain ⟨hplaced, -⟩ := requestOf_placed (placed_init c) hd
  have hpath := cstr_storedFile hplaced hurl
  by_contra hcon
  rw [not_or, Bool.not_eq_false] at hcon
  obtain ⟨hlong, hserves⟩ := hcon
  have hnul := nul_mem_storedFile hplaced hurl
  have hdo := doRequest_eq w hurl
  generalize storedFile d = file at hpath hnul hdo
  rw [← hpath] at hserves
  obtain ⟨c', hopen, hfile⟩ := openFile_serves d hnul hserves
  have hanswer : answerOf w c.init reads = some (.ok (.fileRequest, c')) := by
    rw [answerOf_request w hd, hdo, hopen]
  obtain ⟨d', hd', url', hurl', hsame, -⟩ := h.served c' hanswer
  cases hd.symm.trans hd'
  cases hurl.symm.trans hurl'
  rw [hfile, hpath] at hsame
  have hlen := congrArg List.length hsame
  rw [List.length_take] at hlen
  have hpos : 0 < FILENAME_LEN := by decide
  omega

theorem FitsOrAbsent.pathOk {w : World} {c : HttpConn} {reads : List (List RecvOutcome)}
    (h : FitsOrAbsent w c.init reads) : PathOk w c.init reads := by
  refine ⟨fun d _ => pathStores_bounds d, ?_, ?_⟩
  · intro d hd
    obtain ⟨hplaced, hstate⟩ := requestOf_placed (placed_init c) hd
    obtain ⟨url, hurl, -⟩ := hplaced.url.after hstate
    exact nul_mem_storedFile hplaced hurl
  · intro c' hanswer
    obtain ⟨d, hd, url, hurl, hpath, hstat, hmmap, hserves⟩ := answerOf_served hanswer
    have hwhole : (requestedFile d url).take (FILENAME_LEN - 1) = requestedFile d url := by
      rcases h d hd url hurl with hfits | habsent
      · exact List.take_of_length_le (by omega)
      · rw [hpath, habsent] at hserves
        cases hserves
    rw [hpath, hwhole] at hstat hmmap
    exact ⟨d, hd, url, hurl, by rw [hpath, hwhole], hstat, hmmap⟩

/-- The file that is served is the one of the URL exactly when the path fits into
`m_real_file` or no file can be served for the part that does. -/
theorem pathOk_iff (w : World) (c : HttpConn) (reads : List (List RecvOutcome)) :
    PathOk w c.init reads ↔ FitsOrAbsent w c.init reads :=
  ⟨PathOk.fitsOrAbsent, FitsOrAbsent.pathOk⟩

/-- A request whose path is one byte too long for `m_real_file`. -/
def longUrlReads : List (List RecvOutcome) :=
  [[.data (ascii "GET /" ++ List.replicate 181 97 ++ ascii " HTTP/1.1\r\n\r\n"), .again]]

/-- A file system in which every path is a readable file. -/
def everyFile : World := ⟨fun _ => some ⟨1024, true, false⟩, fun _ => .mapped 4096⟩

/-- The file of a shorter path is served for it. -/
theorem not_pathOk_longUrl : ¬ ∀ (w : World) (c : HttpConn) (reads : List (List RecvOutcome)),
    PathOk w c.init reads := by
  intro h
  have hlong : ∃ d ∈ requestOf HttpConn.blank.init longUrlReads, ∃ url ∈ d.url,
      FILENAME_LEN ≤ (requestedFile d url).length := by decide +kernel
  obtain ⟨d, hd, url, hurl, hlen⟩ := hlong
  rcases (h everyFile HttpConn.blank longUrlReads).fitsOrAbsent d hd url hurl with hfits | habsent
  · omega
  · cases habsent

end EasyWebServer.Get
