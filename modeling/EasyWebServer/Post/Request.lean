import EasyWebServer.Common.Calls
import EasyWebServer.Post.Accounts
import EasyWebServer.Post.Parser

/-!
# do_request and process_read

`doRequest` maps the parsed URL to a file under the document root, and handles
the login and the registration of a POST request on the way.  `World` is what
it reads outside the connection: the user map, the answer of the database to an
INSERT, and the file system.

The two copying loops of the credentials and the string functions on fixed
arrays have no bound in the source.  Each of them answers a fault when it
would leave its array.

`processRead` is `process_read` with the call of `do_request`, and `feed` calls
it once after each chunk of received bytes, until it returns something else
than `NO_REQUEST`.
-/

namespace EasyWebServer.Post

open CString HttpConn Common

/-! ## The environment -/

/-- What `do_request` reads and writes outside the connection. -/
structure World where
  users : UserMap
  /-- `mysql_query` returns zero for this INSERT. -/
  insertOk : Bytes → Bool
  /-- `stat`, with `none` for a negative result. -/
  stat : Bytes → Option FileStat
  /-- `open` and `mmap` of the file. -/
  mmap : Bytes → FileAddress

/-- `doc_root`. -/
def docRoot : Bytes := ascii "/home/ubuntu/SimpleWebServer/root"

/-! ## The credentials of a POST body -/

/-- The byte `'&'`. -/
def ampersand : UInt8 := 38

/-- The size of `name` and `password`. -/
def CREDENTIAL_LEN : Nat := 100

/-- The size of `sql_insert`. -/
def SQL_LEN : Nat := 200

/-- A copying loop: the bytes of `mem` before the first `stop`, stored into a
zeroed `char[CREDENTIAL_LEN]`.  It must find `stop` inside the buffer and leave
room for the terminator. -/
def copyUntil (mem : Bytes) (stop : UInt8) : Except Fault Bytes :=
  let s := mem.takeWhile (fun b => b != stop)
  if s.length < mem.length ∧ s.length < CREDENTIAL_LEN then .ok s
  else .error .outOfBounds

/-- The two loops that read `user=aaaa&password=aaaa`: the name starts at index
5 and the password ten bytes behind the `&`.  The results are the C strings in
`name` and `password`. -/
def extractCredentials (body : Bytes) : Except Fault (Bytes × Bytes) :=
  match copyUntil (body.drop 5) ampersand with
  | .error f => .error f
  | .ok name =>
      match copyUntil (body.drop (5 + name.length + 10)) NUL with
      | .error f => .error f
      | .ok password => .ok (cstr name, password)

/-- The INSERT statement, built with `strcpy` and `strcat`. -/
def sqlInsert (name password : Bytes) : Except Fault Bytes :=
  let sql := ascii "INSERT INTO user(username, passwd) VALUES(" ++ ascii "'" ++
    name ++ ascii "', '" ++ password ++ ascii "')"
  if sql.length < SQL_LEN then .ok sql else .error .outOfBounds

/-! ## do_request -/

/-- `strcpy(m_url, page)`. -/
def copyUrl (c : HttpConn) (url : Nat) (page : Bytes) : Except Fault HttpConn :=
  if url + page.length < READ_BUFFER_SIZE then
    .ok { c with readBuf := c.readBuf.write url (page ++ [NUL]) }
  else .error .outOfBounds

/-- `strncpy(m_real_file + len, path, strlen(path))`, which stores no
terminator. -/
def appendRealFile (c : HttpConn) (path : Bytes) : Except Fault HttpConn :=
  if docRoot.length + path.length ≤ FILENAME_LEN then
    .ok { c with realFile := c.realFile.write docRoot.length path }
  else .error .outOfBounds

/-- The page that answers a POST to `/3` (`kind` is the byte `'3'`) or `/2`,
and the user map behind it. -/
def accountPage (w : World) (kind : UInt8) (name password : Bytes) :
    Except Fault (Page × UserMap) :=
  if kind = 51 then do
    let sql ← sqlInsert name password
    .ok (registerUser w.users name password (w.insertOk sql))
  else .ok (loginUser w.users name password, w.users)

/-- The branch of `do_request` for a POST to `/2` or `/3`. -/
def doAccount (w : World) (c : HttpConn) (url : Nat) (kind : UInt8) :
    Except Fault (HttpConn × World) := do
  let body ← deref c.string
  let (name, password) ← extractCredentials (c.text body)
  let (page, users) ← accountPage w kind name password
  let c ← copyUrl c url page.text
  let c ← appendRealFile c (cstr (c.text url))
  .ok (c, { w with users := users })

/-- The `m_url` tests of `do_request`: which path is appended to the document
root. -/
def selectFile (w : World) (c : HttpConn) (url : Nat) (kind : UInt8) :
    Except Fault (HttpConn × World) :=
  if c.cgi = 1 ∧ (kind = 50 ∨ kind = 51) then doAccount w c url kind
  else do
    let path :=
      if kind = 48 then ascii "/register.html"
      else if kind = 49 then ascii "/login.html"
      else if kind = 53 then ascii "/picture.html"
      else if kind = 54 then ascii "/video.html"
      else cstr (c.text url)
    let c ← appendRealFile c path
    .ok (c, w)

/-- The end of `do_request`: `stat`, the permission tests, and the mapping. -/
def openFile (w : World) (c : HttpConn) : Except Fault (HttpCode × HttpConn) :=
  if NUL ∈ c.realFile.bytes then
    let path := cstr c.realFile.bytes
    match w.stat path with
    | none => .ok (.noResource, c)
    | some st =>
        let c := { c with fileStat := st }
        if st.othersRead = false then .ok (.forbiddenRequest, c)
        else if st.isDir then .ok (.badRequest, c)
        else .ok (.fileRequest, { c with fileAddress := w.mmap path })
  else .error .outOfBounds

/-- `do_request`. -/
def doRequest (w : World) (c : HttpConn) :
    Except Fault (HttpCode × HttpConn × World) := do
  let c := { c with realFile := c.realFile.write 0 (docRoot ++ [NUL]) }
  let url ← deref c.url
  let p ← deref (strrchr (c.text url) slash)
  let (c, w) ← selectFile w c url (c.readBuf.get (url + p + 1))
  let (code, c) ← openFile w c
  .ok (code, c, w)

/-! ## process_read -/

/-- The result of a parsing call: the code, the connection and the world. -/
abbrev ReadResult := Except Fault (HttpCode × HttpConn × World)

/-- What follows the loop of `process_read`. -/
def finishRead (w : World) : Except Fault ReadExit → ReadResult :=
  Parser.finishRead (fun c => (c, w)) (doRequest w)

/-- `process_read`. -/
def processRead (w : World) (c : HttpConn) : ReadResult :=
  finishRead w (processReadLoop c)

/-- Receive the chunks one after another, with a call of `process_read` after
each, until a call returns something else than `NO_REQUEST`. -/
def feed (w : World) (c : HttpConn) : List Bytes → ReadResult
  | [] => .ok (.noRequest, c, w)
  | d :: ds =>
      match processRead w (c.recv d) with
      | .ok (.noRequest, c', _) => feed w c' ds
      | r => r

/-- The call returned `NO_REQUEST` before the request body: the parser waits for
the rest of the request line or of the headers. -/
def waiting : ReadResult → Bool
  | .ok (.noRequest, c, _) => c.checkState != .content
  | _ => false

theorem waiting_iff (r : ReadResult) : waiting r = true ↔
    ∃ c w, r = .ok (.noRequest, c, w) ∧ c.checkState ≠ .content := by
  constructor
  · intro h
    unfold waiting at h
    split at h
    · rename_i c w
      exact ⟨c, w, rfl, by simpa using h⟩
    · cases h
  · rintro ⟨c, w, rfl, hc⟩
    simpa [waiting] using hc

/-! ## What the choice of a file changes -/

/-- The file name is stored in `m_real_file`, and a page may replace the URL. -/
inductive FileSelected (c : HttpConn) : HttpConn → Prop where
  | mk (readBuf : CharBuf READ_BUFFER_SIZE) (realFile : CharBuf FILENAME_LEN) :
      FileSelected c { c with readBuf := readBuf, realFile := realFile }

theorem copyUrl_selected {c c' : HttpConn} {url : Nat} {page : Bytes}
    (h : copyUrl c url page = .ok c') : FileSelected c c' := by
  unfold copyUrl at h
  split_ifs at h
  cases h
  exact .mk _ c.realFile

theorem appendRealFile_selected {c c' : HttpConn} {path : Bytes}
    (h : appendRealFile c path = .ok c') : FileSelected c c' := by
  unfold appendRealFile at h
  split_ifs at h
  cases h
  exact .mk c.readBuf _

theorem doAccount_selected {w w' : World} {c c' : HttpConn} {url : Nat} {kind : UInt8}
    (h : doAccount w c url kind = .ok (c', w')) :
    FileSelected c c' ∧ w'.stat = w.stat ∧ w'.mmap = w.mmap := by
  unfold doAccount at h
  obtain ⟨_, -, h⟩ := bind_eq_ok h
  obtain ⟨_, -, h⟩ := bind_eq_ok h
  obtain ⟨_, -, h⟩ := bind_eq_ok h
  obtain ⟨c₁, hcopy, h⟩ := bind_eq_ok h
  obtain ⟨c₂, happend, h⟩ := bind_eq_ok h
  cases h
  cases copyUrl_selected hcopy
  cases appendRealFile_selected happend
  exact ⟨.mk _ _, rfl, rfl⟩

/-- Neither branch changes what `stat` and `mmap` answer. -/
theorem selectFile_selected {w w' : World} {c c' : HttpConn} {url : Nat} {kind : UInt8}
    (h : selectFile w c url kind = .ok (c', w')) :
    FileSelected c c' ∧ w'.stat = w.stat ∧ w'.mmap = w.mmap := by
  unfold selectFile at h
  split at h
  · exact doAccount_selected h
  · obtain ⟨c₁, happend, h⟩ := bind_eq_ok h
    cases h
    exact ⟨appendRealFile_selected happend, rfl, rfl⟩

/-- The answer of `stat` is stored, and the file may be mapped. -/
inductive FileOpened (c : HttpConn) : HttpConn → Prop where
  | mk (fileStat : FileStat) (fileAddress : FileAddress) :
      FileOpened c { c with fileStat := fileStat, fileAddress := fileAddress }

theorem openFile_opened {w : World} {c c' : HttpConn} {code : HttpCode}
    (h : openFile w c = .ok (code, c')) : FileOpened c c' := by
  unfold openFile at h
  simp only at h
  split at h
  · split at h
    · cases h
      exact .mk c.fileStat c.fileAddress
    · split_ifs at h <;> cases h <;> exact .mk _ _
  · cases h

/-- What `do_request` changes. -/
inductive FileServed (c : HttpConn) : HttpConn → Prop where
  | mk (readBuf : CharBuf READ_BUFFER_SIZE) (realFile : CharBuf FILENAME_LEN)
      (fileStat : FileStat) (fileAddress : FileAddress) :
      FileServed c { c with
        readBuf := readBuf
        realFile := realFile
        fileStat := fileStat
        fileAddress := fileAddress }

theorem doRequest_served {w w' : World} {c c' : HttpConn} {code : HttpCode}
    (h : doRequest w c = .ok (code, c', w')) : FileServed c c' := by
  unfold doRequest at h
  simp only at h
  obtain ⟨_, -, h⟩ := bind_eq_ok h
  obtain ⟨_, -, h⟩ := bind_eq_ok h
  obtain ⟨⟨c₁, w₁⟩, hselect, h⟩ := bind_eq_ok h
  obtain ⟨⟨code₁, c₂⟩, hopen, h⟩ := bind_eq_ok h
  cases h
  have hselected := (selectFile_selected hselect).1
  -- the text of `doc_root` must not be evaluated below
  generalize c.realFile.write 0 (docRoot ++ [NUL]) = realFile at hselected
  cases hselected
  cases openFile_opened hopen
  exact .mk _ _ _ _

/-! ## The codes of a request -/

theorem openFile_code {w : World} {c c' : HttpConn} {code : HttpCode}
    (h : openFile w c = .ok (code, c')) : FinalCode code := by
  unfold openFile at h
  simp only at h
  split at h
  · split at h
    · cases h
      decide
    · split_ifs at h <;> cases h <;> decide
  · cases h

/-- Every code that `do_request` returns ends the request. -/
theorem doRequest_code {w w' : World} {c c' : HttpConn} {code : HttpCode}
    (h : doRequest w c = .ok (code, c', w')) : FinalCode code := by
  unfold doRequest at h
  simp only at h
  obtain ⟨_, -, h⟩ := bind_eq_ok h
  obtain ⟨_, -, h⟩ := bind_eq_ok h
  obtain ⟨_, -, h⟩ := bind_eq_ok h
  obtain ⟨_, hopen, h⟩ := bind_eq_ok h
  cases h
  exact openFile_code hopen

/-- The loop reaches `do_request`. -/
theorem processRead_request {w : World} {c d : HttpConn}
    (h : processReadLoop c = .ok (.request d)) : processRead w c = doRequest w d :=
  Parser.processRead_request h

/-- `process_read` returns `NO_REQUEST` or a code that ends the request. -/
theorem processRead_code {w w' : World} {c c' : HttpConn} {code : HttpCode}
    (h : processRead w c = .ok (code, c', w')) :
    code = .noRequest ∨ FinalCode code :=
  Parser.processRead_code doRequest_code h

end EasyWebServer.Post
