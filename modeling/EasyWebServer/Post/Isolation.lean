import EasyWebServer.Post.Mappings

/-!
# The users of a slot

An `http_conn` object serves one connection after another.  `init` resets most
of its members, and `Stale` is what it leaves: the socket, the file, the vectors
and `m_string`.

`observe` is what the client of a request gets to see, from `init` on: the codes
of `process_read`, the user map, and the response.  The theorems follow two runs
on objects that differ in the stale members (`withStale`): through `read_once`
and the parser, which do not look at them, `do_request`, which overwrites
`m_file_stat` and `m_file_address` before they matter, `process_write`, and
`write`.

`m_string` is the exception.  `BodylessAccount` is a request for `/2` or `/3` by
POST that ends at the blank line: `parse_content` has not run, and `do_request`
reads the pointer of an earlier request.
-/

namespace EasyWebServer.Post

open CString CInt HttpConn Transition Common

/-! ## What a client sees -/

/-- A response that `process_write` has prepared: its bytes, for the bytes of the
mapped file, `bytes_to_send`, and what `write` sends, for every behaviour of
`writev`. -/
structure Reply where
  bytes : Bytes → Bytes
  toSend : Int
  sends : List SendAction → Option (SendPhase × List IovBase)

/-- The response that a connection holds. -/
def replyOf (c : HttpConn) : Reply where
  bytes := responseBytes c
  toSend := c.bytesToSend
  sends := fun as => (exec sendStep (startSending c) as).map (fun s => (s.phase, s.sent))

/-- What a client sees of one `read_once` and the call of `process` behind it. -/
inductive Observation where
  /-- `read_once` returns false. -/
  | closed
  /-- `process_read` returns `NO_REQUEST`. -/
  | waits
  /-- The request is answered: the code, the user map, the mapped file, and the
  response when `process_write` returns true. -/
  | answered (code : HttpCode) (users : UserMap) (file : Option FileAddress)
      (reply : Option Reply)
  /-- Undefined behaviour. -/
  | fault (f : Fault)

/-- What a client sees of a request that ends with `code`. -/
def answer (w : World) (c : HttpConn) (code : HttpCode) : Observation :=
  let r := processWrite c code
  .answered code w.users (if code = .fileRequest then some c.fileAddress else none)
    (if r.1 then some (replyOf r.2) else none)

/-- What a client sees of an answer of `process_read`, and of what follows it when
that is `NO_REQUEST`. -/
def observeAnswer (next : HttpConn → List Observation) : ReadResult → List Observation
  | .error f => [.fault f]
  | .ok (.noRequest, c, _) => .waits :: next c
  | .ok (code, c, w) => [answer w c code]

/-- What a client sees of a request, when each list of outcomes is one
`read_once`. -/
def observe (w : World) (c : HttpConn) : List (List RecvOutcome) → List Observation
  | [] => []
  | os :: rest =>
      match readOnce c os with
      | none => []
      | some (false, _) => [.closed]
      | some (true, c) => observeAnswer (fun c => observe w c rest) (processRead w c)

/-- The connection with which the calls of `process_read` reach `do_request`. -/
def requestOf (c : HttpConn) (reads : List (List RecvOutcome)) : Option HttpConn :=
  parser.requestOf readOnce c reads

/-- The calls of `process_read` reach `do_request` with `d`. -/
abbrev Requested (c : HttpConn) (reads : List (List RecvOutcome)) (d : HttpConn) : Prop :=
  parser.Requested readOnce c reads d

theorem requested_iff {c d : HttpConn} {reads : List (List RecvOutcome)} :
    requestOf c reads = some d ↔ Requested c reads d :=
  Parser.requested_iff reads

/-! ## What init leaves -/

/-- The members that `init()` does not reset. -/
structure Stale where
  sockfd : Option Nat
  fileAddress : FileAddress
  fileStat : FileStat
  iv0 : Iovec
  iv1 : Iovec
  ivCount : Nat
  string : Option Nat

namespace HttpConn

/-- The stale members of a connection. -/
def stale (c : HttpConn) : Stale :=
  ⟨c.sockfd, c.fileAddress, c.fileStat, c.iv0, c.iv1, c.ivCount, c.string⟩

/-- A connection with other stale members. -/
def withStale (c : HttpConn) (st : Stale) : HttpConn :=
  { c with
    sockfd := st.sockfd
    fileAddress := st.fileAddress
    fileStat := st.fileStat
    iv0 := st.iv0
    iv1 := st.iv1
    ivCount := st.ivCount
    string := st.string }

end HttpConn

/-- After `init()`, two connections differ in the stale members only. -/
theorem init_withStale (c c' : HttpConn) : c'.init = c.init.withStale c'.stale := rfl

/-- The stale members as a part of the rest. -/
def Stale.toRest (st : Stale) (r : Rest) : Rest :=
  { r with
    sockfd := st.sockfd
    fileAddress := st.fileAddress
    fileStat := st.fileStat
    iv0 := st.iv0
    iv1 := st.iv1
    ivCount := st.ivCount
    string := st.string }

theorem withRest_toRest {c c' : HttpConn} {x : Option Nat} (st : Stale)
    (h : c'.rest = { c.rest with string := x }) :
    c'.withRest (st.toRest c.rest) = c'.withStale st := by
  have hkept : st.toRest c.rest = st.toRest c'.rest := by
    rw [h]
    rfl
  rw [hkept]
  rfl

variable (st : Stale)

/-! ## read_once and the parser -/

theorem readOnce_withStale {c c' : HttpConn} {os : List RecvOutcome} {ok : Bool}
    (h : readOnce c os = some (ok, c')) :
    readOnce (c.withStale st) os = some (ok, c'.withStale st) := by
  have hsame := readOnce_withRest (st.toRest c.rest) c os
  rw [h] at hsame
  have hrest : c'.withRest (st.toRest c.rest) = c'.withStale st :=
    withRest_toRest (x := c.string) st (readOnce_rest h)
  rw [← hrest]
  exact hsame

theorem readOnce_none_withStale {c : HttpConn} {os : List RecvOutcome}
    (h : readOnce c os = none) : readOnce (c.withStale st) os = none := by
  have hsame := readOnce_withRest (st.toRest c.rest) c os
  rw [h] at hsame
  exact hsame

theorem fault_withStale {c : HttpConn} {f : Fault} (h : processReadLoop c = .error f) :
    processReadLoop (c.withStale st) = .error f := by
  have hsame := processReadLoop_withRest (st.toRest c.rest) c
  rw [h] at hsame
  exact hsame

theorem returned_withStale {c d : HttpConn} {code : HttpCode}
    (h : processReadLoop c = .ok (.returned code d)) :
    processReadLoop (c.withStale st) = .ok (.returned code (d.withStale st)) := by
  have hsame := processReadLoop_withRest (st.toRest c.rest) c
  have hrest : d.withRest (st.toRest c.rest) = d.withStale st :=
    withRest_toRest (x := c.string) st (returned_rest h)
  rw [h] at hsame
  rw [← hrest]
  exact hsame

/-- A request with a body has set `m_string` itself. -/
def Stale.seenBy (st : Stale) (d : HttpConn) : Stale :=
  if d.checkState = .content then { st with string := d.string } else st

theorem request_withStale {c d : HttpConn} (h : processReadLoop c = .ok (.request d)) :
    processReadLoop (c.withStale st) = .ok (.request (d.withStale (st.seenBy d))) := by
  have hsame := processReadLoop_withRest (st.toRest c.rest) c
  have hrest : d.withRest ((st.seenBy d).toRest c.rest) = d.withStale (st.seenBy d) :=
    withRest_toRest (st.seenBy d) (request_rest h).1
  have hseen : (if d.checkState = .content then { st.toRest c.rest with string := d.string }
      else st.toRest c.rest) = (st.seenBy d).toRest c.rest := by
    unfold Stale.seenBy
    split_ifs <;> rfl
  rw [h] at hsame
  rw [← hrest, ← hseen]
  exact hsame

/-! ## do_request -/

/-- Replace the stale members in the answer of a step of `do_request`. -/
def mapStale {α : Type} (p : Except Fault (HttpConn × α)) : Except Fault (HttpConn × α) :=
  p.map (fun p => (p.1.withStale st, p.2))

theorem copyUrl_withStale (c : HttpConn) (url : Nat) (page : Bytes) :
    copyUrl (c.withStale st) url page =
      (copyUrl c url page).map (fun c => c.withStale st) := by
  unfold copyUrl
  split_ifs <;> rfl

theorem appendRealFile_withStale (c : HttpConn) (path : Bytes) :
    appendRealFile (c.withStale st) path =
      (appendRealFile c path).map (fun c => c.withStale st) := by
  unfold appendRealFile
  split_ifs <;> rfl

/-- `do_request` reads `m_string` in the account branch. -/
theorem doAccount_withStale {w : World} {c : HttpConn} {url : Nat} {kind : UInt8}
    (h : st.string = c.string) :
    doAccount w (c.withStale st) url kind = mapStale st (doAccount w c url kind) := by
  have hstring : (c.withStale st).string = c.string := h
  have htext : (c.withStale st).text = c.text := rfl
  unfold doAccount
  rw [hstring, htext]
  rcases deref c.string with f | body
  · rfl
  change (extractCredentials (c.text body) >>= _) =
    mapStale st (extractCredentials (c.text body) >>= _)
  rcases extractCredentials (c.text body) with f | ⟨name, password⟩
  · rfl
  change (accountPage w kind name password >>= _) =
    mapStale st (accountPage w kind name password >>= _)
  rcases accountPage w kind name password with f | ⟨page, users⟩
  · rfl
  change (copyUrl (c.withStale st) url page.text >>= _) =
    mapStale st (copyUrl c url page.text >>= _)
  rw [copyUrl_withStale]
  rcases copyUrl c url page.text with f | c₁
  · rfl
  change (appendRealFile (c₁.withStale st) (cstr (c₁.text url)) >>= _) =
    mapStale st (appendRealFile c₁ (cstr (c₁.text url)) >>= _)
  rw [appendRealFile_withStale]
  rcases appendRealFile c₁ (cstr (c₁.text url)) with f | c₂
  · rfl
  · rfl

theorem selectFile_withStale {w : World} {c : HttpConn} {url : Nat} {kind : UInt8}
    (h : c.cgi = 1 ∧ (kind = 50 ∨ kind = 51) → st.string = c.string) :
    selectFile w (c.withStale st) url kind = mapStale st (selectFile w c url kind) := by
  have hcgi : (c.withStale st).cgi = c.cgi := rfl
  have htext : (c.withStale st).text = c.text := rfl
  unfold selectFile
  rw [hcgi, htext]
  by_cases hacc : c.cgi = 1 ∧ (kind = 50 ∨ kind = 51)
  · rw [if_pos hacc, if_pos hacc]
    exact doAccount_withStale st (h hacc)
  · rw [if_neg hacc, if_neg hacc]
    simp only [appendRealFile_withStale]
    generalize appendRealFile c _ = p
    rcases p with f | c₁
    · rfl
    · rfl

/-- Two answers that a client cannot tell apart. -/
inductive SameAnswer : ReadResult → ReadResult → Prop where
  | fault (f : Fault) : SameAnswer (.error f) (.error f)
  | answer {code : HttpCode} {d : HttpConn} {st : Stale} (w : World)
      (hfile : code = .fileRequest →
        st.fileAddress = d.fileAddress ∧ st.fileStat = d.fileStat) :
      SameAnswer (.ok (code, d, w)) (.ok (code, d.withStale st, w))

/-- `stat` and `mmap` overwrite what they are asked for. -/
theorem openFile_withStale {w : World} {c : HttpConn} :
    (∃ f, openFile w c = .error f ∧ openFile w (c.withStale st) = .error f) ∨
    ∃ code d st', openFile w c = .ok (code, d) ∧
      openFile w (c.withStale st) = .ok (code, d.withStale st') ∧
      (code = .fileRequest → st'.fileAddress = d.fileAddress ∧ st'.fileStat = d.fileStat) := by
  have hreal : (c.withStale st).realFile = c.realFile := rfl
  unfold openFile
  rw [hreal]
  simp only
  split_ifs
  · rcases w.stat (cstr c.realFile.bytes) with _ | stat
    · exact Or.inr ⟨_, c, st, rfl, rfl, fun h => by cases h⟩
    · simp only
      split_ifs
      · exact Or.inr ⟨_, _, { st with fileStat := stat }, rfl, rfl, fun h => by cases h⟩
      · exact Or.inr ⟨_, _, { st with fileStat := stat }, rfl, rfl, fun h => by cases h⟩
      · exact Or.inr ⟨_, _, { st with
          fileStat := stat
          fileAddress := w.mmap (cstr c.realFile.bytes) }, rfl, rfl, fun _ => ⟨rfl, rfl⟩⟩
  · exact Or.inl ⟨_, rfl, rfl⟩

/-- `do_request` runs the login or the registration, and the request had no body. -/
def BodylessAccount (c : HttpConn) : Prop :=
  c.checkState ≠ .content ∧ c.cgi = 1 ∧
    ∃ url ∈ c.url, ∃ p ∈ strrchr (c.text url) slash,
      c.readBuf.get (url + p + 1) = 50 ∨ c.readBuf.get (url + p + 1) = 51

instance (c : HttpConn) : Decidable (BodylessAccount c) := by
  unfold BodylessAccount
  infer_instance

/-- `do_request` behind `strcpy(m_real_file, doc_root)`, when `m_url` has a slash. -/
def openSelected (w : World) (c : HttpConn) (url p : Nat) : ReadResult := do
  let (c, w) ← selectFile w { c with realFile := c.realFile.write 0 (docRoot ++ [NUL]) } url
    (c.readBuf.get (url + p + 1))
  let (code, c) ← openFile w c
  .ok (code, c, w)

theorem doRequest_none {w : World} {c : HttpConn} (hu : c.url = none) :
    doRequest w c = .error .nullPointer := by
  unfold doRequest
  simp only [hu]
  rfl

theorem doRequest_some {w : World} {c : HttpConn} {url : Nat} (hu : c.url = some url) :
    doRequest w c = deref (strrchr (c.text url) slash) >>= openSelected w c url := by
  unfold doRequest openSelected
  -- the text of `doc_root` must not be evaluated below
  generalize c.realFile.write 0 (docRoot ++ [NUL]) = realFile
  simp only [hu]
  rfl

theorem openSelected_withStale {w : World} {c : HttpConn} {url p : Nat}
    (h : c.cgi = 1 ∧ (c.readBuf.get (url + p + 1) = 50 ∨ c.readBuf.get (url + p + 1) = 51) →
      st.string = c.string) :
    SameAnswer (openSelected w c url p) (openSelected w (c.withStale st) url p) := by
  unfold openSelected
  generalize hroot : c.realFile.write 0 (docRoot ++ [NUL]) = realFile
  have hroot' : (c.withStale st).realFile.write 0 (docRoot ++ [NUL]) = realFile := hroot
  have hselect : selectFile w (HttpConn.withStale { c with realFile := realFile } st) url
      (c.readBuf.get (url + p + 1)) = mapStale st (selectFile w { c with realFile := realFile } url
      (c.readBuf.get (url + p + 1))) := selectFile_withStale st h
  rw [hroot']
  change SameAnswer (selectFile w { c with realFile := realFile } url _ >>= _)
    (selectFile w (HttpConn.withStale { c with realFile := realFile } st) url
      (c.readBuf.get (url + p + 1)) >>= _)
  rw [hselect]
  rcases selectFile w { c with realFile := realFile } url (c.readBuf.get (url + p + 1))
    with f | ⟨c₁, w₁⟩
  · exact .fault f
  · change SameAnswer (openFile w₁ c₁ >>= _) (openFile w₁ (c₁.withStale st) >>= _)
    rcases openFile_withStale st (w := w₁) (c := c₁) with
      ⟨f, hopen, hopen'⟩ | ⟨code, d, st', hopen, hopen', hfile⟩
    · rw [hopen, hopen']
      exact .fault f
    · rw [hopen, hopen']
      exact .answer w₁ hfile

/-- The answer of `do_request` does not depend on the stale members, unless it reads
an `m_string` that the request has not set. -/
theorem doRequest_withStale {w : World} {d : HttpConn} (h : ¬BodylessAccount d) :
    SameAnswer (doRequest w d) (doRequest w (d.withStale (st.seenBy d))) := by
  rcases hu : d.url with _ | url
  · rw [doRequest_none hu, doRequest_none (c := d.withStale _) hu]
    exact .fault _
  · have htext : (d.withStale (st.seenBy d)).text = d.text := rfl
    rw [doRequest_some hu, doRequest_some (c := d.withStale _) hu, htext]
    rcases hp : strrchr (d.text url) slash with _ | p
    · exact .fault _
    · refine openSelected_withStale (st.seenBy d) ?_
      intro hacc
      unfold Stale.seenBy
      split_ifs with hstate
      · rfl
      · exact absurd ⟨hstate, hacc.1, url, hu, p, hp, hacc.2⟩ h

/-! ## process_write and write -/

/-- The members that `write` reads for the response.  `m_iv[1]` counts when it is
one of the vectors. -/
structure SameReply (c c' : HttpConn) : Prop where
  writeBuf : c'.writeBuf = c.writeBuf
  writeIdx : c'.writeIdx = c.writeIdx
  linger : c'.linger = c.linger
  bytesToSend : c'.bytesToSend = c.bytesToSend
  bytesHaveSend : c'.bytesHaveSend = c.bytesHaveSend
  iv0 : c'.iv0 = c.iv0
  ivCount : c'.ivCount = c.ivCount
  iv1 : c.ivCount ≤ 1 ∨ c'.iv1 = c.iv1

variable {c c' : HttpConn}

theorem SameReply.iovecs (h : SameReply c c') : iovecs c' = iovecs c := by
  unfold Post.iovecs
  rw [h.iv0, h.ivCount]
  rcases h.iv1 with hcount | hiv1
  · rcases Nat.le_one_iff_eq_zero_or_eq_one.mp hcount with h0 | h1
    · rw [h0]
      rfl
    · rw [h1]
      rfl
  · rw [hiv1]

theorem SameReply.responseBytes (h : SameReply c c') : responseBytes c' = responseBytes c := by
  funext file
  unfold Post.responseBytes
  rw [h.iovecs]
  refine congrArg (fun f => (Post.iovecs c).flatMap f) (funext fun v => ?_)
  unfold iovBytes
  rw [h.writeBuf]

theorem SameReply.iovLocs (h : SameReply c c') : iovLocs c' = iovLocs c := by
  unfold Post.iovLocs
  rw [h.iovecs]

theorem SameReply.init (h : SameReply c c') : SameReply c.init c'.init :=
  ⟨rfl, rfl, rfl, rfl, rfl, h.iv0, h.ivCount, h.iv1⟩

theorem SameReply.unmap (h : SameReply c c') : SameReply (unmap c) (unmap c') := by
  obtain ⟨h1, h2, h3, h4, h5, h6, h7, h8⟩ := h
  unfold Post.unmap
  split_ifs <;> exact ⟨h1, h2, h3, h4, h5, h6, h7, h8⟩

theorem SameReply.advance (h : SameReply c c') (temp : Int) :
    SameReply (advance c temp) (advance c' temp) := by
  obtain ⟨h1, h2, h3, h4, h5, h6, h7, h8⟩ := h
  unfold Post.advance
  simp only [h2, h4, h5, h6]
  split_ifs
  · exact ⟨h1, rfl, h3, rfl, rfl, rfl, h7, Or.inr rfl⟩
  · exact ⟨h1, rfl, h3, rfl, rfl, rfl, h7, h8⟩

/-- The same end of an iteration of `write`, on responses that are the same. -/
def SameExit (r r' : WriteExit × HttpConn) : Prop := r'.1 = r.1 ∧ SameReply r.2 r'.2

theorem SameReply.writeIter (h : SameReply c c') (o : WritevOutcome) :
    Sum.LiftRel SameReply SameExit (writeIter c o) (writeIter c' o) := by
  cases o with
  | again => exact .inr ⟨rfl, h⟩
  | error => exact .inr ⟨rfl, h.unmap⟩
  | sent t =>
      have hadv := h.advance (wrap32 t)
      have hrest := hadv.unmap
      unfold Post.writeIter
      simp only [hadv.bytesToSend, hrest.linger]
      split_ifs
      · exact .inr ⟨rfl, hrest.init⟩
      · exact .inr ⟨rfl, hrest⟩
      · exact .inl hadv

/-- Two runs of `write` that send the same. -/
structure SameSending (s s' : Sending) : Prop where
  conn : SameReply s.conn s'.conn
  sent : s'.sent = s.sent
  phase : s'.phase = s.phase

theorem SameSending.step {s s' : Sending} (h : SameSending s s') (a : SendAction) :
    Option.Rel SameSending (sendStep s a) (sendStep s' a) := by
  obtain ⟨hconn, hsent, hphase⟩ := h
  unfold sendStep
  cases a with
  | call =>
      simp only [hphase, hconn.bytesToSend]
      split_ifs
      · exact .some ⟨hconn.init, hsent, rfl⟩
      · exact .some ⟨hconn, hsent, rfl⟩
      · exact .none
  | writev o =>
      simp only [hphase]
      split_ifs
      · have htaken : taken s'.conn o = taken s.conn o := by
          cases o with
          | sent t => exact congrArg (List.take t) hconn.iovLocs
          | _ => rfl
        have hiter := hconn.writeIter o
        rw [hsent, htaken]
        generalize Post.writeIter s.conn o = r at hiter
        generalize Post.writeIter s'.conn o = r' at hiter
        rcases hiter with hnext | ⟨hexit, hdone⟩
        · exact .some ⟨hnext, rfl, rfl⟩
        · rename_i r r'
          obtain ⟨e, d⟩ := r
          obtain ⟨e', d'⟩ := r'
          cases hexit
          exact .some ⟨hdone, rfl, rfl⟩
      · exact .none

/-- The response does not depend on the other members. -/
theorem SameReply.replyOf (h : SameReply c c') : replyOf c' = replyOf c := by
  have hsends : (Post.replyOf c').sends = (Post.replyOf c).sends := by
    funext as
    have hrel := exec_rel (fun s s' a hs => SameSending.step hs a)
      (show SameSending (startSending c) (startSending c') from ⟨h, rfl, rfl⟩) as
    unfold Post.replyOf
    simp only
    generalize exec sendStep (startSending c) as = r at hrel
    generalize exec sendStep (startSending c') as = r' at hrel
    rcases hrel with ⟨_, hsent, hphase⟩ | _
    · simp only [Option.map_some, hsent, hphase]
    · rfl
  unfold Post.replyOf at hsends ⊢
  simp only at hsends
  rw [hsends, h.responseBytes, h.bytesToSend]

/-- Replace the stale members in an answer of the response builder. -/
def pairStale (p : Bool × HttpConn) : Bool × HttpConn := (p.1, p.2.withStale st)

theorem addResponse_withStale (c : HttpConn) (text : Bytes) :
    addResponse (c.withStale st) text = pairStale st (addResponse c text) := by
  unfold addResponse
  simp only [apply_ite (pairStale st)]
  rfl

theorem addHeaders_withStale (c : HttpConn) (len : Int) :
    addHeaders (c.withStale st) len = (addHeaders c len).withStale st := by
  have hnext : ∀ c text, (addResponse (HttpConn.withStale c st) text).2 =
      (addResponse c text).2.withStale st := fun c text => by
    rw [addResponse_withStale]
    rfl
  have hlinger : ∀ c : HttpConn, (c.withStale st).linger = c.linger := fun c => rfl
  unfold addHeaders addContentLength addLinger addBlankLine
  simp only [hnext, hlinger]

/-- An error is answered from the write buffer. -/
theorem errorResponse_same (c : HttpConn) (status : Nat) (title form : Bytes) :
    (errorResponse (c.withStale st) status title form).1 =
        (errorResponse c status title form).1 ∧
      ((errorResponse c status title form).1 = true →
        SameReply (errorResponse c status title form).2
          (errorResponse (c.withStale st) status title form).2) := by
  unfold errorResponse addStatusLine addContent
  simp only [addResponse_withStale]
  have hheaders := addHeaders_withStale st (addResponse c (statusLine status title)).2 (strlen form)
  rw [show addHeaders (pairStale st _).2 _ = _ from hheaders, addResponse_withStale]
  generalize addResponse _ form = p
  obtain ⟨ok, d⟩ := p
  cases ok with
  | false => exact ⟨rfl, fun h => by cases h⟩
  | true => exact ⟨rfl, fun _ => ⟨rfl, rfl, rfl, rfl, rfl, rfl, rfl, Or.inl (Nat.le_refl _)⟩⟩

theorem fileBody_same (c : HttpConn) (h : st.fileStat = c.fileStat) :
    (fileBody (c.withStale st)).1 = (fileBody c).1 ∧
      ((fileBody c).1 = true → SameReply (fileBody c).2 (fileBody (c.withStale st)).2) := by
  have hstat : ∀ c : HttpConn, (c.withStale st).fileStat = st.fileStat := fun c => rfl
  have hheaders : ∀ len, (addHeaders c len).fileStat = c.fileStat :=
    fun len => (addHeaders_written c len).sameFile.stat
  unfold fileBody
  simp only [addHeaders_withStale, hstat, h, hheaders]
  split_ifs
  · exact ⟨rfl, fun _ => ⟨rfl, rfl, rfl, rfl, rfl, rfl, rfl, Or.inr rfl⟩⟩
  · exact ⟨rfl, fun hfalse => by cases hfalse⟩

/-- A file is answered from the write buffer and the mapping. -/
theorem fileResponse_same (c : HttpConn) (h : st.fileStat = c.fileStat) :
    (fileResponse (c.withStale st)).1 = (fileResponse c).1 ∧
      ((fileResponse c).1 = true →
        SameReply (fileResponse c).2 (fileResponse (c.withStale st)).2) := by
  have hline : (addStatusLine (c.withStale st) 200 ok200Title).2 =
      (addStatusLine c 200 ok200Title).2.withStale st := by
    unfold addStatusLine
    rw [addResponse_withStale]
    rfl
  have hstat : (addStatusLine c 200 ok200Title).2.fileStat = c.fileStat :=
    (addResponse_written c _).sameFile.stat
  unfold fileResponse
  rw [hline]
  exact fileBody_same st _ (h.trans hstat.symm)

/-- The answer of a request does not depend on the stale members. -/
theorem answer_withStale {w : World} {d : HttpConn} {code : HttpCode}
    (hfile : code = .fileRequest → st.fileAddress = d.fileAddress ∧ st.fileStat = d.fileStat) :
    answer w (d.withStale st) code = answer w d code := by
  have hsame : (processWrite (d.withStale st) code).1 = (processWrite d code).1 ∧
      ((processWrite d code).1 = true →
        SameReply (processWrite d code).2 (processWrite (d.withStale st) code).2) := by
    cases code with
    | internalError =>
        rw [processWrite, processWrite]
        exact errorResponse_same st d _ _ _
    | badRequest =>
        rw [processWrite, processWrite]
        exact errorResponse_same st d _ _ _
    | forbiddenRequest =>
        rw [processWrite, processWrite]
        exact errorResponse_same st d _ _ _
    | fileRequest => exact fileResponse_same st d (hfile rfl).2
    | _ => exact ⟨rfl, fun h => by cases h⟩
  have haddr : (if code = .fileRequest then some (d.withStale st).fileAddress else none) =
      if code = .fileRequest then some d.fileAddress else none := by
    split_ifs with hcode
    · exact congrArg some (hfile hcode).1
    · rfl
  obtain ⟨hret, hreply⟩ := hsame
  unfold answer
  simp only [haddr, hret]
  refine congrArg (Observation.answered code w.users _) ?_
  split_ifs with htrue
  · rw [(hreply htrue).replyOf]
  · rfl

/-! ## Whole requests -/

/-- What a client sees of a call of `do_request`. -/
theorem observeRequest_withStale {w : World} {d : HttpConn}
    (next : HttpConn → List Observation) (h : ¬BodylessAccount d) :
    observeAnswer next (doRequest w (d.withStale (st.seenBy d))) =
      observeAnswer next (doRequest w d) := by
  have hsame := doRequest_withStale st (w := w) h
  have hcode : ∀ code c' w', doRequest w d = .ok (code, c', w') → FinalCode code :=
    fun _ _ _ => doRequest_code
  generalize doRequest w d = r at hsame hcode
  generalize doRequest w (d.withStale (st.seenBy d)) = r' at hsame
  rcases hsame with f | ⟨w', hfile⟩
  · rfl
  · rename_i code d' st'
    have hanswer : answer w' (d'.withStale st') code = answer w' d' code :=
      answer_withStale st' hfile
    cases code with
    | noRequest => exact absurd (hcode _ _ _ rfl) (by decide)
    | _ => exact congrArg (fun o => [o]) hanswer

/-- A run whose `do_request` does not read a stale `m_string` shows nothing of the
stale members. -/
theorem observe_withStale (w : World) (reads : List (List RecvOutcome)) :
    ∀ (c : HttpConn) (st : Stale), (∀ d, Requested c reads d → ¬BodylessAccount d) →
      observe w (c.withStale st) reads = observe w c reads := by
  induction reads with
  | nil => exact fun c st _ => rfl
  | cons os reads ih =>
      intro c st h
      unfold observe
      rcases hread : readOnce c os with _ | ⟨ok, c₁⟩
      · rw [readOnce_none_withStale st hread]
      · rw [readOnce_withStale st hread]
        cases ok with
        | false => rfl
        | true =>
            simp only
            unfold processRead
            rcases hloop : processReadLoop c₁ with f | e
            · rw [fault_withStale st hloop]
            · cases e with
              | returned code d =>
                  rw [returned_withStale st hloop]
                  rcases processReadLoop_code hloop with rfl | rfl
                  · exact congrArg (Observation.waits :: ·)
                      (ih d st (fun d' hd => h d' (.later hread hloop hd)))
                  · exact congrArg (fun o => [o])
                      (answer_withStale st (fun hcode => by cases hcode))
              | request d =>
                  rw [request_withStale st hloop]
                  exact observeRequest_withStale st _ (h d (.here hread hloop))

/-! ## A stale pointer is seen -/

theorem bind_eq_error {α β : Type} {x : Except Fault α} {g : α → Except Fault β} {f : Fault}
    (h : (x >>= g) = .error f) : x = .error f ∨ ∃ a, x = .ok a ∧ g a = .error f := by
  rcases x with e | a
  · cases h
    exact Or.inl rfl
  · exact Or.inr ⟨a, rfl, h⟩

theorem copyUntil_fault {mem : Bytes} {stop : UInt8} {f : Fault}
    (h : copyUntil mem stop = .error f) : f = .outOfBounds := by
  unfold copyUntil at h
  simp only at h
  split_ifs at h
  cases h
  rfl

theorem extractCredentials_fault {body : Bytes} {f : Fault}
    (h : extractCredentials body = .error f) : f = .outOfBounds := by
  unfold extractCredentials at h
  split at h
  · rename_i e hname
    cases h
    exact copyUntil_fault hname
  · split at h
    · rename_i e hpassword
      cases h
      exact copyUntil_fault hpassword
    · cases h

theorem accountPage_fault {w : World} {kind : UInt8} {name password : Bytes} {f : Fault}
    (h : accountPage w kind name password = .error f) : f = .outOfBounds := by
  unfold accountPage at h
  split_ifs at h
  · rcases bind_eq_error h with hsql | ⟨_, -, hok⟩
    · unfold sqlInsert at hsql
      simp only at hsql
      split_ifs at hsql
      cases hsql
      rfl
    · cases hok

theorem appendRealFile_fault {c : HttpConn} {path : Bytes} {f : Fault}
    (h : appendRealFile c path = .error f) : f = .outOfBounds := by
  unfold appendRealFile at h
  split_ifs at h
  cases h
  rfl

theorem copyUrl_fault {c : HttpConn} {url : Nat} {page : Bytes} {f : Fault}
    (h : copyUrl c url page = .error f) : f = .outOfBounds := by
  unfold copyUrl at h
  split_ifs at h
  cases h
  rfl

theorem openFile_fault {w : World} {c : HttpConn} {f : Fault}
    (h : openFile w c = .error f) : f = .outOfBounds := by
  unfold openFile at h
  simp only at h
  split at h
  · split at h
    · cases h
    · split_ifs at h
  · cases h
    rfl

/-- The account branch dereferences a null pointer only if `m_string` is null. -/
theorem doAccount_fault {w : World} {c : HttpConn} {url k : Nat} {kind : UInt8} {f : Fault}
    (hs : c.string = some k) (h : doAccount w c url kind = .error f) : f = .outOfBounds := by
  unfold doAccount at h
  rw [hs] at h
  rcases bind_eq_error h with hderef | ⟨_, -, h⟩
  · cases hderef
  rcases bind_eq_error h with hbody | ⟨⟨name, password⟩, -, h⟩
  · exact extractCredentials_fault hbody
  rcases bind_eq_error h with hpage | ⟨⟨page, users⟩, -, h⟩
  · exact accountPage_fault hpage
  rcases bind_eq_error h with hcopy | ⟨_, -, h⟩
  · exact copyUrl_fault hcopy
  rcases bind_eq_error h with happend | ⟨_, -, h⟩
  · exact appendRealFile_fault happend
  · cases h

/-- Without a body, the account branch uses the pointer that it finds. -/
theorem bodyless_doRequest (w : World) {d : HttpConn} (h : BodylessAccount d) :
    (d.string = none → doRequest w d = .error .nullPointer) ∧
    ∀ k, d.string = some k → doRequest w d ≠ .error .nullPointer := by
  obtain ⟨-, hcgi, url, hu, p, hp, hkind⟩ := h
  rw [doRequest_some hu, hp]
  change (_ → openSelected w d url p = _) ∧ ∀ k, _ → openSelected w d url p ≠ _
  unfold openSelected
  generalize d.realFile.write 0 (docRoot ++ [NUL]) = realFile
  have hselect : selectFile w { d with realFile := realFile } url
      (d.readBuf.get (url + p + 1)) = doAccount w { d with realFile := realFile } url
      (d.readBuf.get (url + p + 1)) := by
    unfold selectFile
    exact if_pos ⟨hcgi, hkind⟩
  rw [hselect]
  constructor
  · intro hs
    unfold doAccount
    simp only [hs]
    rfl
  · intro k hs hnull
    rcases bind_eq_error hnull with hacc | ⟨⟨c₁, w₁⟩, -, h⟩
    · cases doAccount_fault (c := { d with realFile := realFile }) hs hacc
    · rcases bind_eq_error h with hopen | ⟨_, -, hok⟩
      · cases openFile_fault hopen
      · cases hok

/-- Only a null pointer looks like one. -/
theorem observeAnswer_ne (next next' : HttpConn → List Observation) {r : ReadResult}
    (h : r ≠ .error .nullPointer) :
    observeAnswer next (.error .nullPointer) ≠ observeAnswer next' r := by
  rcases r with f | ⟨code, c, w⟩
  · intro heq
    cases heq
    exact h rfl
  · intro heq
    cases code <;> cases heq

/-- A request of the account branch without a body shows which pointer an earlier
request has left. -/
theorem observe_ne (w : World) (st st' : Stale) {k : Nat} (hnone : st.string = none)
    (hsome : st'.string = some k) {c d : HttpConn} {reads : List (List RecvOutcome)}
    (hd : Requested c reads d) (hacc : BodylessAccount d) :
    observe w (c.withStale st) reads ≠ observe w (c.withStale st') reads := by
  induction hd with
  | @here c c₁ d os rest hread hloop =>
      unfold observe
      rw [readOnce_withStale st hread, readOnce_withStale st' hread]
      simp only
      unfold processRead
      have hseen : ∀ st : Stale, st.seenBy d = st := fun st => if_neg hacc.1
      rw [request_withStale st hloop, request_withStale st' hloop, hseen, hseen]
      have hnull : doRequest w (d.withStale st) = .error .nullPointer :=
        (bodyless_doRequest w (d := d.withStale st) hacc).1 hnone
      have hother : doRequest w (d.withStale st') ≠ .error .nullPointer :=
        (bodyless_doRequest w (d := d.withStale st') hacc).2 k hsome
      change observeAnswer _ (doRequest w (d.withStale st)) ≠
        observeAnswer _ (doRequest w (d.withStale st'))
      rw [hnull]
      exact observeAnswer_ne _ _ hother
  | later hread hloop _ ih =>
      unfold observe
      rw [readOnce_withStale st hread, readOnce_withStale st' hread]
      simp only
      unfold processRead
      rw [returned_withStale st hloop, returned_withStale st' hloop]
      intro heq
      exact ih hacc (List.cons.inj heq).2

/-! ## Histories -/

/-- What an object has been through: the calls of the server on it. -/
inductive Reached : HttpConn → Prop where
  | new : Reached HttpConn.blank
  | accept {c : HttpConn} (h : Reached c) (sockfd : Nat) : Reached (c.initSockfd sockfd)
  | read {c c' : HttpConn} {os : List RecvOutcome} {ok : Bool} (h : Reached c)
      (hread : readOnce c os = some (ok, c')) : Reached c'
  | process {w w' : World} {c c' : HttpConn} {ops : List SockOp} (h : Reached c)
      (hprocess : process w c = .ok (ops, c', w')) : Reached c'
  | closeConn {c : HttpConn} (h : Reached c) : Reached { c with sockfd := none }
  | write {c c' : HttpConn} {os : List WritevOutcome} {e : WriteExit} (h : Reached c)
      (hwrite : write c os = some (e, c')) : Reached c'

/-- The object at the start of a request: `init(sockfd, addr)` has run, or the
`init()` at the end of a request on the same connection. -/
inductive Started : HttpConn → Prop where
  | accept {c : HttpConn} (h : Reached c) (sockfd : Nat) : Started (c.initSockfd sockfd)
  | keepAlive {c c' : HttpConn} {os : List WritevOutcome} {e : WriteExit} (h : Reached c)
      (hwrite : write c os = some (e, c')) (hinit : e = .idle ∨ e = .keepAlive) : Started c'

theorem writeLoop_ne_idle (os : List WritevOutcome) : ∀ {c c' : HttpConn},
    writeLoop c os ≠ some (.idle, c') := by
  intro c c' h
  have hfile := writeLoop_file os h
  generalize loopCalls c os = calls at hfile
  rcases hfile with _ | ⟨hend, -, -⟩
  rcases hend with hend | hend | hend <;> cases hend

theorem writeLoop_keepAlive (os : List WritevOutcome) : ∀ {c c' : HttpConn},
    writeLoop c os = some (.keepAlive, c') → ∃ d : HttpConn, c' = d.init := by
  induction os with
  | nil =>
      intro c c' h
      cases h
  | cons o os ih =>
      intro c c' h
      unfold writeLoop at h
      split at h
      · exact ih h
      · rename_i r hiter
        cases h
        rcases o with _ | _ | t
        · cases hiter
        · cases hiter
        · unfold writeIter at hiter
          simp only at hiter
          split_ifs at hiter <;> cases hiter
          exact ⟨_, rfl⟩

/-- Every request starts with an `init()`. -/
theorem Started.exists_init {c : HttpConn} (h : Started c) : ∃ d : HttpConn, c = d.init := by
  rcases h with ⟨-, sockfd⟩ | ⟨-, hwrite, hinit⟩
  · exact ⟨_, rfl⟩
  · unfold write at hwrite
    split_ifs at hwrite
    · cases hwrite
      exact ⟨_, rfl⟩
    · rcases hinit with rfl | rfl
      · exact absurd hwrite (writeLoop_ne_idle _)
      · exact writeLoop_keepAlive _ hwrite

/-- A registration whose body has arrived, on the first connection of an object. -/
def registration : List RecvOutcome :=
  [.data (ascii "POST /3 HTTP/1.1\r\nContent-length: 17\r\n\r\nuser=a&password=b"), .again]

/-- A connection that has registered an account. -/
def registered : HttpConn :=
  ((HttpConn.blank.initSockfd 5).recv
    (ascii "POST /3 HTTP/1.1\r\nContent-length: 17\r\n\r\nuser=a&password=b"))

/-- `m_string` behind a call of `process`. -/
def stringBehind (w : World) (c : HttpConn) : Option Nat :=
  match process w c with
  | .ok (_, c, _) => c.string
  | .error _ => none

/-- An object may come to a new connection with a pointer to an old body. -/
theorem exists_reached_string : ∃ c k, Reached c ∧ c.string = some k := by
  have hread : readOnce (HttpConn.blank.initSockfd 5) registration = some (true, registered) :=
    rfl
  have hstring : (stringBehind (oneFile 10 (.mapped 4096)) registered).isSome = true := by
    decide +kernel
  unfold stringBehind at hstring
  split at hstring
  · rename_i ops c w hprocess
    obtain ⟨k, hk⟩ := Option.isSome_iff_exists.mp hstring
    exact ⟨c, k, .process (.read (.accept .new 5) hread) hprocess, hk⟩
  · cases hstring

/-- Whatever two objects have been through, a request shows the same on both, with
the same user map, database and file system, exactly when it is not a request of
the account branch without a body. -/
theorem observe_eq_iff (w : World) (reads : List (List RecvOutcome)) :
    (∀ c c', Started c → Started c' → observe w c reads = observe w c' reads) ↔
      ∀ d ∈ requestOf HttpConn.blank.init reads, ¬BodylessAccount d := by
  constructor
  · intro h d hd hacc
    obtain ⟨c, k, hreached, hk⟩ := exists_reached_string
    have hne := observe_ne w (HttpConn.blank.initSockfd 5).stale (c.initSockfd 5).stale rfl hk
      (requested_iff.mp hd) hacc
    exact hne (h _ _ (.accept .new 5) (.accept hreached 5))
  · intro h c c' hc hc'
    have hrequested : ∀ d, Requested HttpConn.blank.init reads d → ¬BodylessAccount d :=
      fun d hd => h d (requested_iff.mpr hd)
    obtain ⟨d, rfl⟩ := hc.exists_init
    obtain ⟨d', rfl⟩ := hc'.exists_init
    rw [init_withStale HttpConn.blank d, init_withStale HttpConn.blank d',
      observe_withStale w reads _ _ hrequested, observe_withStale w reads _ _ hrequested]

/-- A POST to `/3` without a body.  The cookie is where the body of `registration` was. -/
def bodylessPost : List (List RecvOutcome) :=
  [[.data (ascii "POST /3 HTTP/1.1\r\nHost: a\r\nCookie: form=user=z&password=y\r\n\r\n"), .again]]

/-- The password of `z` behind a request that is answered. -/
def passwordBehind (w : World) (c : HttpConn) (reads : List (List RecvOutcome)) : Option Bytes :=
  match observe w c reads with
  | [.answered _ users _ _] => users (ascii "z")
  | _ => none

/-- On an object that has registered an account, the cookie is taken for the user and the
password. -/
theorem exists_passwordBehind : ∃ c, Started c ∧
    passwordBehind (oneFile 10 (.mapped 4096)) c bodylessPost = some (ascii "y") := by
  have hread : readOnce (HttpConn.blank.initSockfd 5) registration = some (true, registered) :=
    rfl
  have hcookie : (process (oneFile 10 (.mapped 4096)) registered).toOption.map
      (fun r => passwordBehind (oneFile 10 (.mapped 4096)) (r.2.1.initSockfd 5) bodylessPost) =
      some (some (ascii "y")) := by
    decide +kernel
  rcases hprocess : process (oneFile 10 (.mapped 4096)) registered with f | ⟨ops, c, w⟩
  · rw [hprocess] at hcookie
    cases hcookie
  · rw [hprocess] at hcookie
    exact ⟨c.initSockfd 5, .accept (.process (.read (.accept .new 5) hread) hprocess) 5,
      Option.some.inj hcookie⟩

/-- A new object dereferences a null pointer, and one that has registered an account registers
another. -/
theorem not_observe_eq_bodyless :
    ¬ ∀ c c', Started c → Started c' →
      observe (oneFile 10 (.mapped 4096)) c bodylessPost =
        observe (oneFile 10 (.mapped 4096)) c' bodylessPost := by
  intro h
  obtain ⟨c, hc, hpassword⟩ := exists_passwordBehind
  have hnew : passwordBehind (oneFile 10 (.mapped 4096)) (HttpConn.blank.initSockfd 5)
      bodylessPost = none := by
    decide +kernel
  rw [passwordBehind, h c _ hc (.accept .new 5)] at hpassword
  rw [passwordBehind, hpassword] at hnew
  cases hnew

end EasyWebServer.Post
