import EasyWebServer.Common.Calls
import EasyWebServer.Get.Parser

/-!
# do_request and process_read of the GET server

`doRequest` maps the parsed URL to a file under the document root.  `World` is the
file system it asks.  `strncpy` copies at most `FILENAME_LEN - len - 1` bytes of
`m_url`, so that the NUL of `init` at the end of `m_real_file` stays.

`processRead` is `process_read` with the call of `do_request`.  `requestOf` and
`answerOf` follow the calls for one request, one behind each `read`, as in the POST server.
-/

namespace EasyWebServer.Get

open CString HttpConn Common

/-! ## do_request -/

/-- What `do_request` reads outside the connection. -/
structure World where
  /-- `stat`, with `none` for a negative result. -/
  stat : Bytes → Option FileStat
  /-- `open` and `mmap` of the file. -/
  mmap : Bytes → FileAddress

/-- `doc_root`. -/
def docRoot : Bytes := ascii "/home/tyc/httpTest"

/-- The end of `do_request`: `stat`, the permission tests, and the mapping. -/
def openFile (w : World) (c : HttpConn) : Except Fault (HttpCode × HttpConn) :=
  if NUL ∈ c.realFile.bytes then
    let path := cstr c.realFile.bytes
    match w.stat path with
    | none => .ok (.noResource, c)
    | some st =>
        let c := { c with fileStat := st }
        if st.othersRead = false then .ok (.forbiddenRequest, c)
        else if st.isDir then .ok (.badRequest, c)
        else .ok (.fileRequest, { c with fileAddress := w.mmap path })
  else .error .outOfBounds

/-- `do_request`. -/
def doRequest (w : World) (c : HttpConn) : Except Fault (HttpCode × HttpConn) := do
  let c := { c with realFile := c.realFile.write 0 (docRoot ++ [NUL]) }
  let url ← deref c.url
  let path := strncpy (c.text url) (FILENAME_LEN - docRoot.length - 1)
  openFile w { c with realFile := c.realFile.write docRoot.length path }

/-! ## process_read -/

/-- The result of a parsing call: the code and the connection. -/
abbrev ReadResult := Except Fault (HttpCode × HttpConn)

/-- `process_read`. -/
def processRead (w : World) (c : HttpConn) : ReadResult :=
  parser.processRead id (doRequest w) c

/-- The connection with which the calls of `process_read` reach `do_request`. -/
def requestOf (c : HttpConn) (reads : List (List RecvOutcome)) : Option HttpConn :=
  parser.requestOf read c reads

/-- The calls of `process_read` reach `do_request` with `d`. -/
abbrev Requested (c : HttpConn) (reads : List (List RecvOutcome)) (d : HttpConn) : Prop :=
  parser.Requested read c reads d

/-- The answer of the first call of `process_read` that does not return
`NO_REQUEST`. -/
def answerOf (w : World) (c : HttpConn) (reads : List (List RecvOutcome)) : Option ReadResult :=
  Parser.answerOf read (processRead w) id c reads

/-- The path in `m_real_file`, when the request is answered `FILE_REQUEST`. -/
def servedFile (w : World) (c : HttpConn) (reads : List (List RecvOutcome)) : Option Bytes :=
  match answerOf w c reads with
  | some (.ok (.fileRequest, c)) => some (cstr c.realFile.bytes)
  | _ => none

/-! ## The codes -/

theorem openFile_code {w : World} {c c' : HttpConn} {code : HttpCode}
    (h : openFile w c = .ok (code, c')) : FinalCode code ∧ c'.realFile = c.realFile := by
  unfold openFile at h
  simp only at h
  split at h
  · split at h
    · cases h
      exact ⟨by decide, rfl⟩
    · split_ifs at h <;> cases h <;> exact ⟨by decide, rfl⟩
  · cases h

/-- Every code that `do_request` returns ends the request. -/
theorem doRequest_code {w : World} {c c' : HttpConn} {code : HttpCode}
    (h : doRequest w c = .ok (code, c')) : FinalCode code := by
  unfold doRequest at h
  simp only at h
  obtain ⟨_, -, h⟩ := bind_eq_ok h
  exact (openFile_code h).1

theorem doRequest_ne_noRequest {w : World} {c c' : HttpConn} :
    doRequest w c ≠ .ok (.noRequest, c') :=
  fun hdo => absurd (doRequest_code hdo) (by decide)

/-! ## The calls for a request -/

theorem requested_iff {c d : HttpConn} {reads : List (List RecvOutcome)} :
    requestOf c reads = some d ↔ Requested c reads d :=
  Parser.requested_iff reads

/-- The answer is the one of `do_request`. -/
theorem answerOf_fileRequest {w : World} {c c' : HttpConn} {reads : List (List RecvOutcome)}
    (h : answerOf w c reads = some (.ok (.fileRequest, c'))) :
    ∃ d ∈ requestOf c reads, doRequest w d = .ok (.fileRequest, c') := by
  obtain ⟨d, hd, hdo⟩ := Parser.requested_of_answerOf (fun _ => rfl) doRequest_ne_noRequest
    (by decide) reads h
  exact ⟨d, requested_iff.mpr hd, hdo⟩

/-- When the calls reach `do_request`, its result is the answer. -/
theorem answerOf_request (w : World) {c d : HttpConn} {reads : List (List RecvOutcome)}
    (h : requestOf c reads = some d) : answerOf w c reads = some (doRequest w d) :=
  (requested_iff.mp h).answerOf (fun _ => rfl) doRequest_ne_noRequest

end EasyWebServer.Get
