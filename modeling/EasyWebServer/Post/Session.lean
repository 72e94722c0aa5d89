import EasyWebServer.Post.KeepAlive
import EasyWebServer.Post.Site

/-!
# What a client receives

`Site` is about a call of `process`.  Here are whole exchanges, from the bytes that the client sends
to the bytes that it receives.

* `respond` is the calls of `read_once` and `process` until there is something to send, and
  `Poses.responds` says what they leave for a message, however the network cuts its head.
* `Site.received` reads the bytes that the calls of `writev` take at the time they take them, and
  `received_eq` compares them with the locations of `Sender`.
* `answers_query` puts the two together: the client receives the reply of the site.
* `session_serves` is about any number of messages on one persistent connection.
-/

namespace EasyWebServer.Post

open CString CInt HttpConn Transition

/-! ## The calls until there is something to send -/

/-- `read_once` and `process` for each `EPOLLIN`, until `process` does not wait for more. -/
def respond (w : World) (c : HttpConn) :
    List (List RecvOutcome) → Option (List SockOp × HttpConn × World)
  | [] => none
  | os :: rest =>
      match readOnce c os with
      | some (true, c) =>
          match process w c with
          | .ok (ops, c, w) =>
              if ops = [.modfd .input] then respond w c rest else some (ops, c, w)
          | .error _ => none
      | _ => none

/-- A call of `process` that waits. -/
theorem process_noRequest {w : World} {c c' : HttpConn}
    (h : processReadLoop c = .ok (.returned .noRequest c')) :
    process w c = .ok ([.modfd .input], c', w) := by
  rw [process, processRead, h]
  rfl

/-- A call of `process` that answers. -/
theorem process_request {w w' : World} {c d d' : HttpConn} {code : HttpCode}
    (h : processReadLoop c = .ok (.request d)) (hdo : doRequest w d = .ok (code, d', w')) :
    process w c = .ok ((if (processWrite d' code).1 then [] else [.closeConn]) ++
      [.modfd .output], (processWrite d' code).2, w') := by
  have hcode := doRequest_code hdo
  rw [process, processRead_request h, hdo]
  cases code with
  | noRequest => exact absurd hcode (by decide)
  | _ => rfl

/-- The calls of `process` wait until the request is read, and answer it. -/
theorem respond_request {w w' : World} {c d d' : HttpConn} {code : HttpCode}
    {reads : List (List RecvOutcome)} (hdo : doRequest w d = .ok (code, d', w'))
    (hd : requestOf c reads = some d) :
    respond w c reads = some ((if (processWrite d' code).1 then [] else [.closeConn]) ++
      [.modfd .output], (processWrite d' code).2, w') := by
  have hrequested := requested_iff.mp hd
  clear hd
  induction hrequested with
  | here hread hloop =>
      rw [respond, hread]
      simp only [process_request hloop hdo]
      rw [if_neg]
      cases (processWrite d' code).1 <;> decide
  | later hread hloop _ ih =>
      rw [respond, hread]
      simp only [process_noRequest hloop, if_true]
      exact ih hdo

/-! ## What the calls leave -/

/-- What `do_request` keeps of the response. -/
theorem FileServed.idle {c c' : HttpConn} (h : FileServed c c') :
    c'.writeIdx = c.writeIdx ∧ c'.bytesHaveSend = c.bytesHaveSend ∧ c'.linger = c.linger := by
  cases h
  exact ⟨rfl, rfl, rfl⟩

/-- A message that poses a query is answered by `do_request` as the site looks it up. -/
theorem Poses.doRequest {r : Http.Request} {q : Query} (h : Poses r q) (σ : Site) (users : UserMap)
    (c : HttpConn) :
    ∃ d code d', (∀ arrivals, Cut r arrivals →
        requestOf c.init (arrivals.map oneRead) = some d) ∧
      Post.doRequest (σ.world users) d = .ok (code, d', σ.world (σ.lookup users q).2) ∧
      Opened (σ.world users) (σ.lookup users q).1 code d' ∧
      d'.writeIdx = 0 ∧ d'.bytesHaveSend = 0 ∧ d'.linger = r.keepAlive := by
  have hidle : ∀ {m : Method} {path : Bytes}, Asks r m path → ∃ d : HttpConn,
      (∀ arrivals, Cut r arrivals → requestOf c.init (arrivals.map oneRead) = some d) ∧
      RequestRead d r.encode m path r.headers r.body ∧
      d.realFile = CharBuf.zero FILENAME_LEN ∧ d.writeIdx = 0 ∧ d.bytesHaveSend = 0 := by
    intro m path hasks
    obtain ⟨d, hd, hcuts, hread⟩ := hasks.read c
    have hrest := (request_rest hd).1
    exact ⟨d, hcuts, hread, congrArg Rest.realFile hrest, congrArg Rest.writeIdx hrest,
      congrArg Rest.bytesHaveSend hrest⟩
  cases h with
  | page asks fits names plain =>
      obtain ⟨d, hcuts, hread, hzero, hw, hsend⟩ := hidle asks
      obtain ⟨code, d', hdo, hopened⟩ := hread.head.doRequest_page (w := σ.world users) asks.slash
        hzero fits names plain
      obtain ⟨hw', hsend', hlinger⟩ := (doRequest_served hdo).idle
      exact ⟨d, code, d', hcuts, hdo, hopened, hw'.trans hw, hsend'.trans hsend,
        hlinger.trans hread.head.linger⟩
  | account a asks kind body plain no_nul fit =>
      obtain ⟨d, hcuts, hread, hzero, hw, hsend⟩ := hidle asks
      obtain ⟨code, d', hdo, hopened⟩ := hread.doRequest_account (w := σ.world users) asks hzero
        kind body plain no_nul fit
      obtain ⟨hw', hsend', hlinger⟩ := (doRequest_served hdo).idle
      exact ⟨d, code, d', hcuts, hdo, hopened, hw'.trans hw, hsend'.trans hsend,
        hlinger.trans hread.head.linger⟩

/-- The calls for a message: they prepare the reply, or close the connection where there is
none. -/
theorem Poses.responds {r : Http.Request} {q : Query} (h : Poses r q) (σ : Site) (users : UserMap)
    (c : HttpConn) {arrivals : List (List Bytes)} (hcut : Cut r arrivals) :
    ∃ ops c', respond (σ.world users) c.init (arrivals.map oneRead) =
        some (ops, c', σ.world (σ.lookup users q).2) ∧ c'.linger = r.keepAlive ∧
      match σ.reply r.keepAlive (σ.lookup users q).1 with
      | none => ops = [.closeConn, .modfd .output]
      | some m => ops = [.modfd .output] ∧ Sends σ c' m := by
  obtain ⟨d, code, d', hcuts, hdo, hopened, hw, hsend, hlinger⟩ := h.doRequest σ users c
  have hreply := Site.reply_sends hopened hw hsend
  refine ⟨_, _, respond_request hdo (hcuts arrivals hcut),
    (processWrite_written d' code).linger.trans hlinger, ?_⟩
  rw [hlinger] at hreply
  rcases hsome : σ.reply r.keepAlive (σ.lookup users q).1 with _ | m
  · rw [hsome] at hreply
    rw [show (processWrite d' code).1 = false from hreply]
    rfl
  · rw [hsome] at hreply
    obtain ⟨hwritten, hsends⟩ := hreply
    rw [hwritten]
    exact ⟨rfl, hsends⟩

/-! ## The bytes that the client receives -/

/-- The locations that a step takes. -/
def SendAction.taken (c : HttpConn) : SendAction → List IovBase
  | .call => []
  | .writev o => Post.taken c o

/-- The bytes that a run sends, each read in the connection that sends it. -/
def Site.received (σ : Site) : Sending → List SendAction → Bytes
  | _, [] => []
  | s, a :: as =>
      match sendStep s a with
      | none => []
      | some s' => (a.taken s.conn).map (σ.byteAt s.conn) ++ σ.received s' as

/-- A step adds the locations that it takes.  A run that goes on has stored nothing in the buffer
and has the same mapping and the same `m_linger`. -/
theorem sendStep_shows {s s' : Sending} {a : SendAction} (h : sendStep s a = some s') :
    s'.sent = s.sent ++ a.taken s.conn ∧ ((∀ e, s'.phase ≠ .finished e) →
      s'.conn.writeBuf = s.conn.writeBuf ∧ s'.conn.fileAddress = s.conn.fileAddress ∧
        s'.conn.linger = s.conn.linger) := by
  have hadvance : ∀ temp, (advance s.conn temp).writeBuf = s.conn.writeBuf ∧
      (advance s.conn temp).fileAddress = s.conn.fileAddress ∧
      (advance s.conn temp).linger = s.conn.linger := by
    intro temp
    unfold advance
    simp only
    split_ifs <;> exact ⟨rfl, rfl, rfl⟩
  rcases sendStep_inv h with _ | _ | _ | _ | _ | _
  case idle => exact ⟨(List.append_nil _).symm, fun hlive => absurd rfl (hlive .idle)⟩
  case enter => exact ⟨(List.append_nil _).symm, fun _ => ⟨rfl, rfl, rfl⟩⟩
  case again => exact ⟨(List.append_nil _).symm, fun _ => ⟨rfl, rfl, rfl⟩⟩
  case error => exact ⟨(List.append_nil _).symm, fun hlive => absurd rfl (hlive .error)⟩
  case more t _ _ => exact ⟨rfl, fun _ => hadvance _⟩
  case done t c e _ _ _ => exact ⟨rfl, fun hlive => absurd rfl (hlive e)⟩

/-- The bytes of a run are those of the locations that it adds. -/
theorem Site.received_eq (σ : Site) {as : List SendAction} : ∀ {s s' : Sending},
    exec sendStep s as = some s' → ∃ locs, s'.sent = s.sent ++ locs ∧
      σ.received s as = locs.map (σ.byteAt s.conn) := by
  induction as with
  | nil =>
      intro s s' h
      cases h
      exact ⟨[], (List.append_nil _).symm, rfl⟩
  | cons a as ih =>
      intro s s' h
      obtain ⟨m, hstep, hexec⟩ := exec_cons h
      obtain ⟨hsent, hkept⟩ := sendStep_shows hstep
      obtain ⟨locs, hlocs, hbytes⟩ := ih hexec
      refine ⟨a.taken s.conn ++ locs, by rw [hlocs, hsent, List.append_assoc], ?_⟩
      rw [Site.received, hstep, List.map_append]
      simp only [hbytes, List.append_cancel_left_eq]
      cases as with
      | nil =>
          cases hexec
          rw [List.self_eq_append_right.mp hlocs]
          rfl
      | cons a' as =>
          -- the run goes on, so the step has not finished it
          obtain ⟨m', hstep', -⟩ := exec_cons hexec
          obtain ⟨hbuf, haddress, -⟩ := hkept (active_of_step hstep')
          apply List.map_congr_left
          intro loc _
          cases loc with
          | writeBuf offset => rw [Site.byteAt, Site.byteAt, hbuf]
          | file offset => rw [Site.byteAt, Site.byteAt, haddress]

/-- A run that has kept its promise has sent a part of the message, and all of it at its end. -/
theorem Sends.received {σ : Site} {c : HttpConn} {m : Http.Response} (h : Sends σ c m)
    {as : List SendAction} {s : Sending} (hexec : exec sendStep (startSending c) as = some s)
    (hok : SendOk (stored m) (m.encode.length - stored m) s) :
    σ.received (startSending c) as <+: m.encode ∧
      ∀ e, s.phase = .finished e → e ≠ .error → σ.received (startSending c) as = m.encode := by
  obtain ⟨locs, hlocs, hbytes⟩ := σ.received_eq hexec
  have hsent : s.sent = locs := hlocs
  rw [hbytes, ← hsent]
  constructor
  · rw [← h.bytes]
    exact hok.sent_prefix.map _
  · intro e he hne
    rw [hok.complete e he hne]
    exact h.bytes

/-! ## The connection behind a response -/

/-- A persistent connection that has sent everything is as `init()` leaves it. -/
theorem sendStep_linger {s s' : Sending} {a : SendAction} (hlinger : s.conn.linger = true)
    (h : sendStep s a = some s') : ((∀ e, s'.phase ≠ .finished e) → s'.conn.linger = true) ∧
      ∀ e, s'.phase = .finished e → e ≠ .error →
        e.result = true ∧ ∃ d : HttpConn, s'.conn = d.init := by
  cases a with
  | call =>
      rw [sendStep] at h
      split_ifs at h
      · cases h
        refine ⟨fun hlive => absurd rfl (hlive .idle), fun e he _ => ?_⟩
        cases he
        exact ⟨rfl, s.conn, rfl⟩
      · cases h
        exact ⟨fun _ => hlinger, fun e he => by cases he⟩
  | writev o =>
      rw [sendStep] at h
      split_ifs at h
      have hstep := writeIter_linger hlinger o
      have hidle : ∀ c, writeIter s.conn o ≠ .inr (.idle, c) := by
        intro c hiter
        cases o with
        | again => cases hiter
        | error => cases hiter
        | sent t =>
            rw [writeIter] at hiter
            simp only at hiter
            split_ifs at hiter <;> cases hiter
      split at h
      · rename_i c hiter
        cases h
        rw [hiter] at hstep
        exact ⟨fun _ => hstep, fun e he => by cases he⟩
      · rename_i e c hiter
        cases h
        rw [hiter] at hstep
        obtain ⟨hagain, hclose, hinit⟩ := hstep
        cases e with
        | idle => exact absurd hiter (hidle c)
        | again => exact ⟨fun _ => hagain rfl, fun e he => by cases he⟩
        | error =>
            refine ⟨fun hlive => absurd rfl (hlive .error), fun e he hne => ?_⟩
            cases he
            exact absurd rfl hne
        | keepAlive =>
            refine ⟨fun hlive => absurd rfl (hlive .keepAlive), fun e he _ => ?_⟩
            cases he
            exact ⟨rfl, hinit rfl⟩
        | close => exact absurd rfl hclose

theorem exec_linger {as : List SendAction} : ∀ {s s' : Sending}, s.conn.linger = true →
    (∀ e, s.phase ≠ .finished e) → exec sendStep s as = some s' →
    ∀ e, s'.phase = .finished e → e ≠ .error →
      e.result = true ∧ ∃ d : HttpConn, s'.conn = d.init := by
  induction as with
  | nil =>
      intro s s' _ hlive h e he
      cases h
      exact absurd he (hlive e)
  | cons a as ih =>
      intro s s' hlinger hlive h e he hne
      obtain ⟨m, hstep, hexec⟩ := exec_cons h
      obtain ⟨hkept, hend⟩ := sendStep_linger hlinger hstep
      by_cases hm : ∀ e, m.phase ≠ .finished e
      · exact ih (hkept hm) hm hexec e he hne
      · simp only [not_forall, not_not] at hm
        obtain ⟨e', he'⟩ := hm
        rw [exec_finished he' hexec] at he ⊢
        exact hend e he hne

/-! ## Calls that take the whole response -/

/-- The calls of `write` take a response of `total` bytes, of which `h` are in `m_write_buf`, from
the byte `n` on.  They stop in the first part at most once. -/
inductive Takes (h total : Nat) : Nat → SendPhase → List SendAction → Prop where
  | call {n : Nat} {as : List SendAction} (rest : Takes h total n .inLoop as) :
      Takes h total n .between (.call :: as)
  | again {n : Nat} {as : List SendAction} (rest : Takes h total n .between as) :
      Takes h total n .inLoop (.writev .again :: as)
  | more {n t : Nat} {as : List SendAction} (pos : 1 ≤ t) (lt : n + t < total)
      (stop : n + t < h → n = 0) (rest : Takes h total (n + t) .inLoop as) :
      Takes h total n .inLoop (.writev (.sent t) :: as)
  | last {n t : Nat} (all : n + t = total) : Takes h total n .inLoop [.writev (.sent t)]

/-- The exit of `write` behind a response that is sent completely. -/
def completeExit (linger : Bool) : WriteExit := if linger then .keepAlive else .close

theorem completeExit_result (linger : Bool) : (completeExit linger).result = linger := by
  cases linger <;> rfl

theorem completeExit_ne_error (linger : Bool) : completeExit linger ≠ .error := by
  cases linger <;> decide

/-- An outcome of `writev` in the loop, by what is left behind it. -/
theorem sendStep_sent_eq {s : Sending} {t : Nat} (hphase : s.phase = .inLoop) :
    ∃ c, sendStep s (.writev (.sent t)) = some ⟨c, s.sent ++ taken s.conn (.sent t),
      if (advance s.conn (wrap32 t)).bytesToSend ≤ 0 then
        .finished (completeExit (unmap (advance s.conn (wrap32 t))).linger)
      else .inLoop⟩ := by
  rw [sendStep, if_pos hphase, writeIter]
  simp only
  by_cases hleft : (advance s.conn (wrap32 t)).bytesToSend ≤ 0
  · rw [if_pos hleft, if_pos hleft]
    by_cases hlinger : (unmap (advance s.conn (wrap32 t))).linger = true
    · rw [if_pos hlinger, completeExit, if_pos hlinger]
      exact ⟨_, rfl⟩
    · rw [if_neg hlinger, completeExit, if_neg hlinger]
      exact ⟨_, rfl⟩
  · rw [if_neg hleft, if_neg hleft]
    exact ⟨_, rfl⟩

/-- Calls that take the whole response end with it. -/
theorem Takes.completes {h f n : Nat} {phase : SendPhase} {as : List SendAction}
    (htakes : Takes h (h + f) n phase as) (hint : ((h + f : Nat) : Int) ≤ INT_MAX) :
    ∀ {s : Sending}, Sound h f s → s.sent.length = n → s.phase = phase →
      ∃ s', exec sendStep s as = some s' ∧ s'.phase = .finished (completeExit s.conn.linger) ∧
        SendOk h f s' := by
  induction htakes with
  | call rest ih =>
      intro s hs hn hphase
      obtain ⟨htrack, hlt⟩ := hs.live (fun e he => by rw [hphase] at he; cases he)
      have hto := htrack.toSend
      have hstep : sendStep s .call = some { s with phase := .inLoop } := by
        rw [sendStep, if_pos hphase, if_neg (by omega)]
      have hnone : 0 < SendAction.call.count → s.sent.length + SendAction.call.count < h →
          s.sent.length = 0 := fun hpos => absurd hpos (Nat.lt_irrefl 0)
      obtain ⟨hs', -⟩ := hs.step (a := .call) hint trivial hnone hstep
      rw [exec, hstep]
      exact ih hs' hn rfl
  | again rest ih =>
      intro s hs hn hphase
      have hstep : sendStep s (.writev .again) = some { s with phase := .between } := by
        rw [sendStep, if_pos hphase]
        simp only [writeIter, taken, List.append_nil, phaseOf]
      have hnone : 0 < (SendAction.writev .again).count →
          s.sent.length + (SendAction.writev .again).count < h → s.sent.length = 0 :=
        fun hpos => absurd hpos (Nat.lt_irrefl 0)
      obtain ⟨hs', -⟩ := hs.step (a := .writev .again) hint trivial hnone hstep
      rw [exec, hstep]
      exact ih hs' hn rfl
  | more pos lt stop rest ih =>
      rename_i n t as
      intro s hs hn hphase
      obtain ⟨htrack, hlt⟩ := hs.live (fun e he => by rw [hphase] at he; cases he)
      have hvalid : ValidOutcome s (.writev (.sent t)) := by
        have hlen := congrArg List.length htrack.iovLocs_eq
        rw [List.length_drop, response_length] at hlen
        exact ⟨by omega, fun _ => pos⟩
      have hstop : 0 < t → s.sent.length + t < h → s.sent.length = 0 := by
        rw [hn]
        exact fun _ => stop
      have hto := (hs.sent_step hint hphase hvalid hstop).1.toSend
      obtain ⟨c, hstep⟩ := sendStep_sent_eq (t := t) hphase
      rw [if_neg (by omega)] at hstep
      obtain ⟨hs', hcount⟩ := hs.step hint hvalid hstop hstep
      have hlinger := ((sendStep_shows hstep).2 (fun e he => by cases he)).2.2
      rw [exec, hstep, ← hlinger]
      exact ih hs' (hcount.trans (by rw [hn]; rfl)) rfl
  | last all =>
      rename_i n t
      intro s hs hn hphase
      obtain ⟨htrack, hlt⟩ := hs.live (fun e he => by rw [hphase] at he; cases he)
      have hvalid : ValidOutcome s (.writev (.sent t)) := by
        have hlen := congrArg List.length htrack.iovLocs_eq
        rw [List.length_drop, response_length] at hlen
        exact ⟨by omega, fun _ => by omega⟩
      have hstop : 0 < t → s.sent.length + t < h → s.sent.length = 0 := by omega
      have hto := (hs.sent_step hint hphase hvalid hstop).1.toSend
      obtain ⟨c, hstep⟩ := sendStep_sent_eq (t := t) hphase
      rw [if_pos (by omega)] at hstep
      rw [unmap_linger, advance_linger] at hstep
      obtain ⟨hs', -⟩ := hs.step hint hvalid hstop hstep
      rw [exec, hstep]
      exact ⟨_, rfl, rfl, hs'.sendOk⟩

/-! ## One exchange -/

/-- While `writev` has stopped at most once in the part that is in `m_write_buf`, the client has
received a prefix of the message, and all of it when `write` reports the end. -/
theorem Sends.inOrder {σ : Site} {c : HttpConn} {m : Http.Response} (h : Sends σ c m)
    {as : List SendAction} {s : Sending}
    (hvalid : AllSteps sendStep ValidOutcome (startSending c) as)
    (hstops : headerStops (stored m) 0 as ≤ 1)
    (hexec : exec sendStep (startSending c) as = some s) :
    σ.received (startSending c) as <+: m.encode ∧
      ∀ e, s.phase = .finished e → e ≠ .error → σ.received (startSending c) as = m.encode :=
  h.received hexec ((h.prepared.always h.total hvalid hstops).last hexec)

/-- Calls that take the whole message end with it, and the client has received it. -/
theorem Sends.completes {σ : Site} {c : HttpConn} {m : Http.Response} (h : Sends σ c m)
    {as : List SendAction} (htakes : Takes (stored m) m.encode.length 0 .between as) :
    ∃ s, exec sendStep (startSending c) as = some s ∧
      s.phase = .finished (completeExit c.linger) ∧
      σ.received (startSending c) as = m.encode := by
  rw [← Nat.add_sub_cancel' (stored_le m)] at htakes
  obtain ⟨s, hexec, hphase, hok⟩ :=
    htakes.completes h.total (h.prepared.sound h.total) rfl rfl
  exact ⟨s, hexec, hphase, (h.received hexec hok).2 _ hphase (completeExit_ne_error _)⟩

/-- Every message that poses a query is answered with the reply of the site.  The network cuts the
head of the message in any way and brings the body with its end.  While `writev` has stopped at
most once inside the part that is in `m_write_buf`, the client has received a prefix of the reply,
and all of it when `write` reports the end.  When the calls take the whole reply, `write` reports
the end, and answers whether the connection is kept. -/
theorem answers_query (σ : Site) (users : UserMap) (c : HttpConn) {r : Http.Request} {q : Query}
    (h : Poses r q) {arrivals : List (List Bytes)} (hcut : Cut r arrivals) :
    ∃ ops c', respond (σ.world users) c.init (arrivals.map oneRead) =
        some (ops, c', σ.world (σ.lookup users q).2) ∧
      match σ.reply r.keepAlive (σ.lookup users q).1 with
      | none => ops = [.closeConn, .modfd .output]
      | some m => ops = [.modfd .output] ∧
          (∀ as s, AllSteps sendStep ValidOutcome (startSending c') as →
            headerStops (stored m) 0 as ≤ 1 → exec sendStep (startSending c') as = some s →
            σ.received (startSending c') as <+: m.encode ∧
              ∀ e, s.phase = .finished e → e ≠ .error →
                σ.received (startSending c') as = m.encode) ∧
          ∀ as, Takes (stored m) m.encode.length 0 .between as →
            ∃ s e, exec sendStep (startSending c') as = some s ∧ s.phase = .finished e ∧
              e.result = r.keepAlive ∧ σ.received (startSending c') as = m.encode := by
  obtain ⟨ops, c', hrespond, hlinger, hreply⟩ := h.responds σ users c hcut
  refine ⟨ops, c', hrespond, ?_⟩
  rcases hsome : σ.reply r.keepAlive (σ.lookup users q).1 with _ | m
  · rw [hsome] at hreply
    exact hreply
  · rw [hsome] at hreply
    obtain ⟨hops, hsends⟩ := hreply
    refine ⟨hops, fun as s hvalid hstops hexec => hsends.inOrder hvalid hstops hexec,
      fun as htakes => ?_⟩
    obtain ⟨s, hexec, hphase, hbytes⟩ := hsends.completes htakes
    exact ⟨s, _, hexec, hphase, (completeExit_result _).trans hlinger, hbytes⟩

/-- A site of two pages: the one behind a login, and another for every other path. -/
def twoPages : Site where
  insertOk _ := true
  stat _ := some ⟨2, true, false⟩
  mmap path := .mapped (if path = docRoot ++ Page.welcome.text then 1 else 0)
  memory address := if address = 1 then ascii "in" else ascii "hi"
  contents path := if path = docRoot ++ Page.welcome.text then ascii "in" else ascii "hi"
  mapped path _ _ _ _ _ := by
    refine ⟨_, rfl, ?_⟩
    split <;> rfl
  size path st h _ := by
    cases h
    split <;> rfl
  small _ st h _ := by
    cases h
    decide

theorem keepAliveText : Http.FieldText (ascii "Connection") (ascii " keep-alive") := by decide

theorem formLengthText : Http.FieldText (ascii "Content-Length") (ascii " 17") := by decide

theorem formLengthText_framed : Http.contentsOf (ascii "Content-Length")
    [keepAliveText.field, formLengthText.field] = [decimalNat (ascii "user=b&password=c").length] := by
  decide

/-- The form of the user `b`, on a persistent connection. -/
def formMessage {target : Bytes} (htarget : Http.Token target) : Http.Request where
  method := ascii "POST"
  target := target
  fields := [keepAliveText.field, formLengthText.field]
  body := ascii "user=b&password=c"
  method_token := postToken
  target_token := htarget
  fields_text := List.forall_mem_cons.mpr ⟨keepAliveText.no_nul,
    List.forall_mem_singleton.mpr formLengthText.no_nul⟩
  framed := .inl formLengthText_framed

theorem registerTarget : Http.Token (ascii "/3CGISQL.cgi") := by decide

/-- A registration and a login. -/
def registerForm : Http.Request := formMessage registerTarget

def loginForm : Http.Request := formMessage loginTarget

theorem registerForm_poses :
    Poses registerForm (.account (.register (ascii "b") (ascii "c"))) := by
  have hasks : Asks registerForm .post (ascii "/3CGISQL.cgi") :=
    ⟨.inr ⟨rfl, by decide⟩, by decide, by decide, by decide⟩
  exact .account _ hasks (by decide) (by decide) (by decide) (by decide)
    ⟨by decide, by decide, by decide, fun _ => by decide⟩

theorem loginForm_poses : Poses loginForm (.account (.login (ascii "b") (ascii "c"))) := by
  have hasks : Asks loginForm .post (ascii "/2CGISQL.cgi") :=
    ⟨.inr ⟨rfl, by decide⟩, by decide, by decide, by decide⟩
  exact .account _ hasks (by decide) (by decide) (by decide) (by decide)
    ⟨by decide, by decide, by decide, fun h => absurd h (by decide)⟩

/-- In one piece. -/
theorem cut_whole (r : Http.Request) : Cut r [[r.encode]] := by
  have hhead : 0 < r.head.length := by
    rw [Http.Request.head, Http.Request.lines, CrlfScan.text_append, CrlfScan.text_singleton,
      List.length_append]
    exact Nat.add_pos_right _ (by decide)
  refine ⟨by simp, fun n hn => ?_⟩
  obtain rfl : n = 0 := Nat.lt_one_iff.mp hn
  exact hhead

theorem answers_query_register :
    ∃ ops c', respond (twoPages.world UserMap.empty) blank.init
        ([[registerForm.encode]].map oneRead) = some (ops, c', twoPages.world
          (twoPages.lookup UserMap.empty (.account (.register (ascii "b") (ascii "c")))).2) ∧
      match twoPages.reply registerForm.keepAlive
        (twoPages.lookup UserMap.empty (.account (.register (ascii "b") (ascii "c")))).1 with
      | none => ops = [.closeConn, .modfd .output]
      | some m => ops = [.modfd .output] ∧
          (∀ as s, AllSteps sendStep ValidOutcome (startSending c') as →
            headerStops (stored m) 0 as ≤ 1 → exec sendStep (startSending c') as = some s →
            twoPages.received (startSending c') as <+: m.encode ∧
              ∀ e, s.phase = .finished e → e ≠ .error →
                twoPages.received (startSending c') as = m.encode) ∧
          ∀ as, Takes (stored m) m.encode.length 0 .between as →
            ∃ s e, exec sendStep (startSending c') as = some s ∧ s.phase = .finished e ∧
              e.result = registerForm.keepAlive ∧
              twoPages.received (startSending c') as = m.encode :=
  answers_query twoPages UserMap.empty blank registerForm_poses (cut_whole registerForm)

/-! ## Many exchanges -/

/-- A message, how its bytes arrive, and how the bytes of the response are taken. -/
structure Exchange where
  message : Http.Request
  arrivals : List (List Bytes)
  sends : List SendAction

/-- Exchanges one after the other on a connection: what the client receives, and the accounts
behind them.  The main loop keeps the connection while `write` answers true. -/
def session (σ : Site) : UserMap → HttpConn → List Exchange → Option (List Bytes × UserMap)
  | users, _, [] => some ([], users)
  | users, c, x :: xs =>
      match respond (σ.world users) c (x.arrivals.map oneRead) with
      | some ([.modfd .output], c, w) =>
          match exec sendStep (startSending c) x.sends with
          | some ⟨c', _, .finished e⟩ =>
              if e.result then
                (session σ w.users c' xs).map
                  (fun r => (σ.received (startSending c) x.sends :: r.1, r.2))
              else none
          | _ => none
      | _ => none

/-- The messages pose queries that have the replies `ms`, and lead from one map of users to
another. -/
inductive Serves (σ : Site) : UserMap → List Exchange → List Http.Response → UserMap → Prop where
  | nil (users : UserMap) : Serves σ users [] [] users
  | cons {users users' : UserMap} {x : Exchange} {xs : List Exchange} {q : Query}
      {m : Http.Response} {ms : List Http.Response} (poses : Poses x.message q)
      (keepAlive : x.message.keepAlive = true) (cut : Cut x.message x.arrivals)
      (reply : σ.reply true (σ.lookup users q).1 = some m)
      (takes : Takes (stored m) m.encode.length 0 .between x.sends)
      (rest : Serves σ (σ.lookup users q).2 xs ms users') :
      Serves σ users (x :: xs) (m :: ms) users'

/-- Any number of messages on one persistent connection, each sent when the response to the one
before is there: the client receives the replies of the site, in order and nothing else, and the
accounts are those that the queries leave. -/
theorem session_serves {σ : Site} {users users' : UserMap} {xs : List Exchange}
    {ms : List Http.Response} (h : Serves σ users xs ms users') :
    ∀ c : HttpConn, session σ users c.init xs = some (ms.map Http.Response.encode, users') := by
  induction h with
  | nil users => exact fun c => rfl
  | cons poses keepAlive cut reply takes rest ih =>
      rename_i users users' x xs q m ms
      intro c
      obtain ⟨ops, c', hrespond, hlinger, hreply⟩ := poses.responds σ users c cut
      rw [keepAlive, reply] at hreply
      obtain ⟨rfl, hsends⟩ := hreply
      rw [keepAlive] at hlinger
      obtain ⟨s, hexec, hphase, hbytes⟩ := hsends.completes takes
      have hresult := completeExit_result c'.linger
      have hne := completeExit_ne_error c'.linger
      generalize completeExit c'.linger = e at hphase hresult hne
      have hlive : ∀ e, (startSending c').phase ≠ .finished e := fun e he => by cases he
      obtain ⟨-, d, hd⟩ := exec_linger hlinger hlive hexec e hphase hne
      obtain ⟨c₁, sent, phase⟩ := s
      obtain rfl : phase = .finished e := hphase
      obtain rfl : c₁ = d.init := hd
      rw [hlinger] at hresult
      rw [session, hrespond]
      simp only [hexec, hresult, if_true]
      rw [show (σ.world (σ.lookup users q).2).users = (σ.lookup users q).2 from rfl, ih d, hbytes]
      rfl

/-- A registration and then a login: the client receives the login page and the welcome page. -/
theorem session_serves_login :
    session twoPages UserMap.empty blank.init
        [⟨registerForm, [[registerForm.encode]], [.call, .writev (.sent 62)]⟩,
          ⟨loginForm, [[loginForm.encode]],
            [.call, .writev (.sent 10), .writev .again, .call, .writev (.sent 52)]⟩] =
      some ([message 200 ok200Title true (ascii "hi") (by decide),
          message 200 ok200Title true (ascii "in") (by decide)].map Http.Response.encode,
        UserMap.empty.assign (ascii "b") (ascii "c")) := by
  have hreply : ∀ path, twoPages.reply true path =
      some (message 200 ok200Title true (twoPages.contents path) (by decide)) := fun _ => rfl
  have hregister : twoPages.lookup UserMap.empty (.account (.register (ascii "b") (ascii "c"))) =
      (docRoot ++ Page.login.text, UserMap.empty.assign (ascii "b") (ascii "c")) := rfl
  have hlogin : twoPages.lookup (UserMap.empty.assign (ascii "b") (ascii "c"))
      (.account (.login (ascii "b") (ascii "c"))) =
      (docRoot ++ Page.welcome.text, UserMap.empty.assign (ascii "b") (ascii "c")) := rfl
  refine session_serves (.cons registerForm_poses (by decide) (cut_whole _) ?_ ?_
    (.cons loginForm_poses (by decide) (cut_whole _) ?_ ?_ ?_)) blank
  · rw [hreply, hregister, show twoPages.contents (docRoot ++ Page.login.text) = ascii "hi" by
      decide]
  · exact .call (.last (by decide))
  · rw [hreply, hregister, hlogin, show twoPages.contents (docRoot ++ Page.welcome.text) =
      ascii "in" by decide]
  · exact .call (.more (by decide) (by decide) (by decide)
      (.again (.call (.last (by decide)))))
  · rw [hregister, hlogin]
    exact .nil _

end EasyWebServer.Post
