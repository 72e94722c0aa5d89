import EasyWebServer.Post.Isolation

/-!
# The bytes behind a request

A client may send the next request without waiting for the response.  One `read_once`
then receives a whole request and something behind it, and `process_read` stops at the end
of the request.

`write` ends a persistent exchange with `init()`, which clears the buffer and its
indices.  `SameParser` compares the connection with one that has received the rest into a
fresh buffer, and `not_keepsRest` shows that they never agree.
-/

namespace EasyWebServer.Post

open CString HttpConn Common

/-! ## One exchange -/

/-- The calls of `write` for one response: a call that finds the socket full is followed
by another. -/
def writeAll (c : HttpConn) : List (List WritevOutcome) → Option (WriteExit × HttpConn)
  | [] => none
  | os :: rest =>
      match write c os with
      | some (.again, c) => writeAll c rest
      | r => r

/-- The `recv` outcomes of a `read_once` that receives these pieces. -/
def oneRead (pieces : List Bytes) : List RecvOutcome := pieces.map .data ++ [.again]

/-- One exchange: a `read_once`, a call of `process`, and the calls of `write`. -/
def exchange (w : World) (c : HttpConn) (pieces : List Bytes)
    (calls : List (List WritevOutcome)) : Option (WriteExit × HttpConn) :=
  match readOnce c (oneRead pieces) with
  | some (true, c) =>
      match process w c with
      | .ok (_, c, _) => writeAll c calls
      | .error _ => none
  | _ => none

/-- The length of the request with which `do_request` is called. -/
def requestLength (d : HttpConn) : Int :=
  if d.checkState = .content then d.checkedIdx + d.contentLength else d.checkedIdx

/-- The pieces are a request `r` with `Connection: keep-alive` and `s` behind it. -/
structure Pipelined (c : HttpConn) (pieces : List Bytes) (r s : Bytes) : Prop where
  bytes : pieces.flatten = r ++ s
  rest : s ≠ []
  request : ∃ d ∈ requestOf c.init [oneRead pieces],
    requestLength d = r.length ∧ d.linger = true

/-- The members that the parser reads and writes are equal. -/
structure SameParser (c c' : HttpConn) : Prop where
  readBuf : c'.readBuf = c.readBuf
  readIdx : c'.readIdx = c.readIdx
  checkedIdx : c'.checkedIdx = c.checkedIdx
  startLine : c'.startLine = c.startLine
  checkState : c'.checkState = c.checkState
  method : c'.method = c.method
  cgi : c'.cgi = c.cgi
  url : c'.url = c.url
  version : c'.version = c.version
  host : c'.host = c.host
  contentLength : c'.contentLength = c.contentLength
  linger : c'.linger = c.linger

/-- The parser is as if the rest had been received into a fresh buffer. -/
def KeepsRest (c c' : HttpConn) (s : Bytes) : Prop := SameParser (c.init.recv s) c'

/-! ## m_linger -/

theorem ResponseWritten.linger {c c' : HttpConn} (h : ResponseWritten c c') :
    c'.linger = c.linger := by
  cases h
  rfl

theorem doRequest_linger {w w' : World} {c c' : HttpConn} {code : HttpCode}
    (h : doRequest w c = .ok (code, c', w')) : c'.linger = c.linger := by
  cases doRequest_served h
  rfl

/-! ## The calls of write -/

/-- What an iteration of the loop of `write` leaves on a persistent connection. -/
def LingerStep : HttpConn ⊕ (WriteExit × HttpConn) → Prop
  | .inl c => c.linger = true
  | .inr (e, c) => (e = .again → c.linger = true) ∧ e ≠ .close ∧
      (e = .keepAlive → ∃ d : HttpConn, c = d.init)

theorem unmap_linger (c : HttpConn) : (unmap c).linger = c.linger := by
  unfold unmap
  split_ifs <;> rfl

theorem advance_linger (c : HttpConn) (temp : Int) : (advance c temp).linger = c.linger := by
  unfold advance
  simp only
  split_ifs <;> rfl

theorem writeIter_linger {c : HttpConn} (h : c.linger = true) (o : WritevOutcome) :
    LingerStep (writeIter c o) := by
  cases o with
  | again => exact ⟨fun _ => h, nofun, nofun⟩
  | error => exact ⟨nofun, nofun, nofun⟩
  | sent t =>
      have hlinger : (unmap (advance c (CInt.wrap32 t))).linger = true := by
        rw [unmap_linger, advance_linger, h]
      unfold writeIter
      simp only
      split_ifs
      · exact ⟨nofun, nofun, fun _ => ⟨_, rfl⟩⟩
      · rw [unmap_linger] at hlinger
        exact hlinger

theorem writeLoop_linger (os : List WritevOutcome) : ∀ {c c' : HttpConn} {e : WriteExit},
    c.linger = true → writeLoop c os = some (e, c') → LingerStep (.inr (e, c')) := by
  induction os with
  | nil =>
      intro c c' e _ h
      cases h
  | cons o os ih =>
      intro c c' e hlinger h
      have hstep := writeIter_linger hlinger o
      unfold writeLoop at h
      split at h
      · rename_i c₁ hiter
        rw [hiter] at hstep
        exact ih hstep h
      · rename_i r hiter
        cases h
        rw [hiter] at hstep
        exact hstep

theorem write_linger {c c' : HttpConn} {os : List WritevOutcome} {e : WriteExit}
    (hlinger : c.linger = true) (h : write c os = some (e, c')) :
    LingerStep (.inr (e, c')) := by
  unfold write at h
  split_ifs at h
  · cases h
    exact ⟨nofun, nofun, nofun⟩
  · exact writeLoop_linger os hlinger h

/-- A response on a persistent connection that is sent completely ends with `init()`. -/
theorem writeAll_linger (calls : List (List WritevOutcome)) :
    ∀ {c c' : HttpConn} {e : WriteExit}, c.linger = true →
      writeAll c calls = some (e, c') → e = .keepAlive ∨ e = .close →
        ∃ d : HttpConn, c' = d.init := by
  induction calls with
  | nil =>
      intro c c' e _ h
      cases h
  | cons os rest ih =>
      intro c c' e hlinger h hend
      rw [writeAll] at h
      split at h
      · rename_i c₁ hwrite
        exact ih ((write_linger hlinger hwrite).1 rfl) h hend
      · obtain ⟨-, hclose, hinit⟩ := write_linger hlinger h
        rcases hend with rfl | rfl
        · exact hinit rfl
        · exact absurd rfl hclose

/-! ## The rest -/

theorem sameParser_init (c d : HttpConn) : SameParser c.init d.init :=
  ⟨rfl, rfl, rfl, rfl, rfl, rfl, rfl, rfl, rfl, rfl, rfl, rfl⟩

/-- In a cleared buffer, `process_read` finds nothing. -/
theorem processReadLoop_init (c : HttpConn) :
    processReadLoop c.init = .ok (.returned .noRequest c.init) := by
  apply readFrom_done
  have hline : parseLine c.init = (.lineOpen, c.init) := rfl
  rw [processReadBody_eq]
  simp only [hline]
  rfl

/-- A connection that has received the rest into a fresh buffer has it in the buffer. -/
theorem not_keepsRest_init {c d : HttpConn} {s : Bytes} (hs : s ≠ []) :
    ¬ KeepsRest c d.init s := by
  intro h
  have hidx : 0 = 0 + s.length := h.readIdx
  exact hs (List.length_eq_zero_iff.mp (by omega))

/-- The exchange calls `do_request` for the request that the calls of `process_read`
find. -/
theorem exchange_request {w : World} {c c' d : HttpConn} {pieces : List Bytes}
    {calls : List (List WritevOutcome)} {e : WriteExit}
    (hd : requestOf c [oneRead pieces] = some d)
    (h : exchange w c pieces calls = some (e, c')) :
    ∃ code d' w', doRequest w d = .ok (code, d', w') ∧
      writeAll (processWrite d' code).2 calls = some (e, c') := by
  unfold exchange process at h
  cases requested_iff.mp hd with
  | here hread hloop =>
      rw [hread] at h
      simp only [processRead_request hloop] at h
      rcases hdo : doRequest w d with f | ⟨code, d', w'⟩
      · rw [hdo] at h
        cases h
      · rw [hdo] at h
        have hcode := doRequest_code hdo
        refine ⟨code, d', w', rfl, ?_⟩
        cases code with
        | noRequest => exact absurd hcode (by decide)
        | _ => exact h
  | later _ _ tail => cases tail

/-- After the response to a request that had something behind it, the parser has lost the
rest, and `process_read` finds nothing to parse. -/
theorem not_keepsRest {w : World} {c c' : HttpConn} {pieces : List Bytes} {r s : Bytes}
    {calls : List (List WritevOutcome)} {e : WriteExit} (h : Pipelined c pieces r s)
    (hsent : exchange w c.init pieces calls = some (e, c'))
    (hend : e = .keepAlive ∨ e = .close) :
    ¬ KeepsRest c c' s ∧ SameParser c.init c' ∧
      processReadLoop c' = .ok (.returned .noRequest c') := by
  obtain ⟨d, hd, -, hlinger⟩ := h.request
  obtain ⟨code, d', w', hdo, hwrite⟩ := exchange_request hd hsent
  have hlinger' : (processWrite d' code).2.linger = true := by
    rw [(processWrite_written d' code).linger, doRequest_linger hdo, hlinger]
  obtain ⟨x, rfl⟩ := writeAll_linger calls hlinger' hwrite hend
  exact ⟨not_keepsRest_init h.rest, sameParser_init c x, processReadLoop_init x⟩

/-- A request with `Connection: keep-alive`. -/
def aliveRequest : Bytes := ascii "GET /a HTTP/1.1\r\nConnection: keep-alive\r\n\r\n"

/-- A world in which no file may be read. -/
def forbiddenFile : World :=
  ⟨UserMap.empty, fun _ => true, fun _ => some ⟨5, false, false⟩, fun _ => .mapFailed⟩

/-- Two requests in two pieces, and a response that takes two calls of `write`. -/
theorem not_keepsRest_twoRequests :
    ∃ e c', exchange forbiddenFile blank.init
        [aliveRequest ++ ascii "GET /b", ascii " HTTP/1.1\r\n\r\n"]
        [[.sent 50, .again], [.sent 75]] = some (e, c') ∧
      ¬ KeepsRest blank c' (ascii "GET /b HTTP/1.1\r\n\r\n") := by
  obtain ⟨⟨e, c'⟩, hsent⟩ := Option.isSome_iff_exists.mp
    (show (exchange forbiddenFile blank.init
      [aliveRequest ++ ascii "GET /b", ascii " HTTP/1.1\r\n\r\n"]
      [[.sent 50, .again], [.sent 75]]).isSome = true by decide)
  have hend : (exchange forbiddenFile blank.init
      [aliveRequest ++ ascii "GET /b", ascii " HTTP/1.1\r\n\r\n"]
      [[.sent 50, .again], [.sent 75]]).map Prod.fst = some .keepAlive := by decide
  rw [hsent] at hend
  have he : e = .keepAlive := Option.some.inj hend
  have hrest : Pipelined blank [aliveRequest ++ ascii "GET /b", ascii " HTTP/1.1\r\n\r\n"]
      aliveRequest (ascii "GET /b HTTP/1.1\r\n\r\n") :=
    ⟨by decide, by decide, by decide⟩
  exact ⟨e, c', hsent, (not_keepsRest hrest hsent (Or.inl he)).1⟩

/-- The start of a second request is lost: the buffer is empty. -/
theorem not_keepsRest_start :
    ∃ e c', exchange forbiddenFile blank.init [aliveRequest ++ ascii "GET"] [[.sent 125]] =
        some (e, c') ∧ e = .keepAlive ∧ ¬ KeepsRest blank c' (ascii "GET") := by
  obtain ⟨⟨e, c'⟩, hsent⟩ := Option.isSome_iff_exists.mp
    (show (exchange forbiddenFile blank.init [aliveRequest ++ ascii "GET"]
      [[.sent 125]]).isSome = true by decide)
  have hend : (exchange forbiddenFile blank.init [aliveRequest ++ ascii "GET"]
      [[.sent 125]]).map (fun r => (r.1, r.2.readIdx)) = some (.keepAlive, 0) := by decide
  rw [hsent] at hend
  have hpair : (e, c'.readIdx) = (.keepAlive, 0) := Option.some.inj hend
  obtain ⟨he, hidx⟩ := Prod.mk.inj hpair
  refine ⟨e, c', hsent, he, fun hkeeps => ?_⟩
  have hthree : c'.readIdx = 0 + (ascii "GET").length := hkeeps.readIdx
  rw [hidx] at hthree
  exact absurd hthree (by decide)

end EasyWebServer.Post
