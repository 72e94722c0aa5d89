import EasyWebServer.Lib.Transition
import EasyWebServer.Post.Response

/-!
# Sending a response

`http_conn::write` calls `writev` until the response is sent or the socket is
full, and a call of it ends in one of five ways (`WriteExit`).  `writeIter` is
the body of its loop for one outcome of `writev`, and `write` runs it over the
outcomes of one call.

A response may take several calls.  `Sending` adds to the connection the
locations that `writev` has taken so far, in order, and `sendStep` is one step
of a run: a call of `write`, or an outcome of `writev` inside a call.

`SendOk` is what the run owes to a response of `h` header bytes and `f` file
bytes, in every state.  The loop keeps it as long as `writev` stops strictly
inside the header at most once (`headerStops`).

* `Sound` is the invariant of such a run: `m_iv` describes the rest of the
  response.
* `Short` is the state after a second stop.  `m_iv[0].iov_len` is then less than
  the rest of the header, because the loop subtracts the cumulative
  `bytes_have_send` from a length that it has already shrunk.  `Short.run` shows
  that no run leaves such a state and completes without a violation.
-/

namespace EasyWebServer.Post

open CString CInt HttpConn Transition

/-! ## write -/

/-- What a call of `writev` returns. -/
inductive WritevOutcome where
  /-- `-1` with `EAGAIN`. -/
  | again
  /-- `-1` with another `errno`. -/
  | error
  /-- The number of bytes taken. -/
  | sent (t : Nat)
  deriving DecidableEq, Repr

/-- How a call of `write` ends. -/
inductive WriteExit where
  /-- There is nothing to send: `EPOLLIN`, `init()`, true. -/
  | idle
  /-- The socket is full: `EPOLLOUT`, true. -/
  | again
  /-- `writev` failed: false. -/
  | error
  /-- All is sent on a persistent connection: `EPOLLIN`, `init()`, true. -/
  | keepAlive
  /-- All is sent: `EPOLLIN`, false. -/
  | close
  deriving DecidableEq, Repr

/-- `unmap`. -/
def unmap (c : HttpConn) : HttpConn :=
  if c.fileAddress = .null then c else { c with fileAddress := .null }

/-- The bookkeeping of the loop for `temp` bytes that `writev` has taken. -/
def advance (c : HttpConn) (temp : Int) : HttpConn :=
  let c := { c with
    bytesHaveSend := wrap32 (c.bytesHaveSend + temp)
    bytesToSend := wrap32 (c.bytesToSend - temp) }
  if c.iv0.len ≤ toSizeT c.bytesHaveSend then
    { c with
      iv0 := { c.iv0 with len := 0 }
      iv1 := ⟨.file (c.bytesHaveSend - c.writeIdx), toSizeT c.bytesToSend⟩ }
  else
    { c with
      iv0 := ⟨.writeBuf c.bytesHaveSend, c.iv0.len - toSizeT c.bytesHaveSend⟩ }

/-- The body of the loop of `write`. -/
def writeIter (c : HttpConn) : WritevOutcome → HttpConn ⊕ (WriteExit × HttpConn)
  | .again => .inr (.again, c)
  | .error => .inr (.error, unmap c)
  | .sent t =>
      let c := advance c (wrap32 t)
      if c.bytesToSend ≤ 0 then
        let c := unmap c
        if c.linger then .inr (.keepAlive, c.init) else .inr (.close, c)
      else .inl c

/-- The loop of `write` over the outcomes of its `writev` calls.  The answer is
`none` while the loop waits for another outcome. -/
def writeLoop (c : HttpConn) : List WritevOutcome → Option (WriteExit × HttpConn)
  | [] => none
  | o :: os =>
      match writeIter c o with
      | .inl c' => writeLoop c' os
      | .inr r => some r

/-- `write`. -/
def write (c : HttpConn) (os : List WritevOutcome) : Option (WriteExit × HttpConn) :=
  if c.bytesToSend = 0 then some (.idle, c.init) else writeLoop c os

/-- The value that `write` returns. -/
def WriteExit.result : WriteExit → Bool
  | .idle | .again | .keepAlive => true
  | .error | .close => false

/-! ## Runs of write -/

/-- The locations that `m_iv[0..m_iv_count)` describes. -/
def iovLocs (c : HttpConn) : List IovBase := (iovecs c).flatMap Iovec.locs

/-- The locations of a response: `h` bytes of the write buffer, and `f` bytes of
the file. -/
def response (h f : Nat) : List IovBase :=
  Iovec.locs ⟨.writeBuf 0, h⟩ ++ Iovec.locs ⟨.file 0, f⟩

/-- Where a run is. -/
inductive SendPhase where
  /-- Between two calls of `write`. -/
  | between
  /-- In the loop of `write`, at the call of `writev`. -/
  | inLoop
  /-- The last call has ended, in this way. -/
  | finished (exit : WriteExit)
  deriving DecidableEq, Repr

/-- A run that sends a response: the connection, the locations that `writev`
has taken, and the phase. -/
structure Sending where
  conn : HttpConn
  sent : List IovBase
  phase : SendPhase

/-- A step of a run. -/
inductive SendAction where
  | call
  | writev (outcome : WritevOutcome)
  deriving DecidableEq, Repr

/-- The locations that an outcome of `writev` takes. -/
def taken (c : HttpConn) : WritevOutcome → List IovBase
  | .sent t => (iovLocs c).take t
  | _ => []

/-- The phase after a call of `write`: `EAGAIN` is followed by another call. -/
def phaseOf : WriteExit → SendPhase
  | .again => .between
  | e => .finished e

/-- One step of a run. -/
def sendStep (s : Sending) : SendAction → Option Sending
  | .call =>
      if s.phase = .between then
        if s.conn.bytesToSend = 0 then
          some { s with conn := s.conn.init, phase := .finished .idle }
        else some { s with phase := .inLoop }
      else none
  | .writev o =>
      if s.phase = .inLoop then
        match writeIter s.conn o with
        | .inl c => some ⟨c, s.sent ++ taken s.conn o, .inLoop⟩
        | .inr (e, c) => some ⟨c, s.sent ++ taken s.conn o, phaseOf e⟩
      else none

/-- The start of a run. -/
def startSending (c : HttpConn) : Sending := ⟨c, [], .between⟩

/-- A count is positive and at most the total length of the vectors, and it is
zero when the vectors are empty. -/
def ValidOutcome (s : Sending) : SendAction → Prop
  | .writev (.sent t) =>
      t ≤ (iovLocs s.conn).length ∧ (0 < (iovLocs s.conn).length → 1 ≤ t)
  | _ => True

instance (s : Sending) (a : SendAction) : Decidable (ValidOutcome s a) := by
  unfold ValidOutcome
  split <;> infer_instance

/-- A call of `write` is a run of steps. -/
theorem exec_write {c c' : HttpConn} {os : List WritevOutcome} {e : WriteExit}
    (h : write c os = some (e, c')) (sent : List IovBase) :
    ∃ n sent', exec sendStep ⟨c, sent, .between⟩
      (.call :: (os.take n).map .writev) = some ⟨c', sent', phaseOf e⟩ := by
  have hloop : ∀ (os : List WritevOutcome) (c : HttpConn) (sent : List IovBase),
      writeLoop c os = some (e, c') →
      ∃ n sent', exec sendStep ⟨c, sent, .inLoop⟩ ((os.take n).map .writev) =
        some ⟨c', sent', phaseOf e⟩ := by
    intro os
    induction os with
    | nil =>
      intro c sent h
      cases h
    | cons o os ih =>
      intro c sent h
      rw [writeLoop] at h
      split at h
      · rename_i c₁ hiter
        obtain ⟨n, sent', hexec⟩ := ih c₁ (sent ++ taken c o) h
        refine ⟨n + 1, sent', ?_⟩
        rw [List.take_succ_cons, List.map_cons, exec, sendStep, if_pos rfl, hiter]
        exact hexec
      · rename_i r hiter
        cases h
        refine ⟨1, sent ++ taken c o, ?_⟩
        rw [List.take_succ_cons, List.take_zero, List.map_cons, exec, sendStep, if_pos rfl,
          hiter]
        rfl
  unfold write at h
  split at h
  · rename_i h0
    cases h
    refine ⟨0, sent, ?_⟩
    rw [List.take_zero, List.map_nil, exec, sendStep, if_pos rfl, if_pos h0]
    rfl
  · rename_i h0
    obtain ⟨n, sent', hexec⟩ := hloop os c sent h
    refine ⟨n, sent', ?_⟩
    rw [exec, sendStep, if_pos rfl, if_neg h0]
    exact hexec

/-! ## What a run owes to a response -/

/-- The vector stays inside the header or inside the mapping. -/
def InBounds (h f : Nat) (v : Iovec) : Prop :=
  match v.base with
  | .writeBuf offset => 0 ≤ offset ∧ offset + v.len ≤ h
  | .file offset => 0 ≤ offset ∧ offset + v.len ≤ f

/-- What a run owes to a response of `h` header bytes and `f` file bytes. -/
structure SendOk (h f : Nat) (s : Sending) : Prop where
  /-- The bytes are sent in order, each at most once. -/
  sent_prefix : s.sent <+: response h f
  /-- No vector points outside the response. -/
  in_bounds : ∀ v ∈ iovecs s.conn, InBounds h f v
  /-- `writev` is not called on empty vectors. -/
  progress : s.phase = .inLoop → iovLocs s.conn ≠ []
  /-- When `write` reports the end, everything is sent. -/
  complete : ∀ e, s.phase = .finished e → e ≠ .error → s.sent = response h f

/-- `process_write` has prepared a response of `h` header bytes and `f` file
bytes. -/
structure Prepared (h f : Nat) (c : HttpConn) : Prop where
  header_pos : 1 ≤ h
  writeIdx : c.writeIdx = h
  haveSend : c.bytesHaveSend = 0
  toSend : c.bytesToSend = wrap32 (h + f)
  iv0 : c.iv0 = ⟨.writeBuf 0, h⟩
  vectors : c.ivCount = 1 ∧ f = 0 ∨ c.ivCount = 2 ∧ c.iv1 = ⟨.file 0, f⟩

/-- The number of bytes that an action sends. -/
def SendAction.count : SendAction → Nat
  | .writev (.sent t) => t
  | _ => 0

/-- How often `writev` stops strictly inside a header of `h` bytes, `n` of which
are sent. -/
def headerStops (h : Nat) : Nat → List SendAction → Nat
  | _, [] => 0
  | n, a :: as =>
      (if 0 < a.count ∧ n + a.count < h then 1 else 0) + headerStops h (n + a.count) as

/-! ## The bookkeeping of the loop -/

/-- The counters behind `t` more bytes, when `n` bytes are sent and `m` are
left. -/
theorem advance_eq {c : HttpConn} {n m t : Nat} (hn : c.bytesHaveSend = n)
    (hm : c.bytesToSend = m) (ht : t ≤ m) (hint : ((n + m : Nat) : Int) ≤ INT_MAX) :
    advance c (wrap32 t) =
      if c.iv0.len ≤ n + t then
        { c with
          bytesHaveSend := (n + t : Nat)
          bytesToSend := (m - t : Nat)
          iv0 := { c.iv0 with len := 0 }
          iv1 := ⟨.file ((n + t : Nat) - c.writeIdx), m - t⟩ }
      else
        { c with
          bytesHaveSend := (n + t : Nat)
          bytesToSend := (m - t : Nat)
          iv0 := ⟨.writeBuf (n + t : Nat), c.iv0.len - (n + t)⟩ } := by
  have htemp : wrap32 t = t := wrap32_of_range (by omega) (by omega)
  have hhave : wrap32 (c.bytesHaveSend + (t : Int)) = ((n + t : Nat) : Int) := by
    rw [hn, wrap32_of_range (by omega) (by omega)]
    omega
  have hleft : wrap32 (c.bytesToSend - (t : Int)) = ((m - t : Nat) : Int) := by
    rw [hm, wrap32_of_range (by omega) (by omega)]
    omega
  have hsize : toSizeT ((n + t : Nat) : Int) = n + t := toSizeT_natCast (by omega)
  have hsize' : toSizeT ((m - t : Nat) : Int) = m - t := toSizeT_natCast (by omega)
  simp only [advance, htemp, hhave, hleft, hsize, hsize']

/-! ## The vectors describe the rest of the response -/

/-- `n` bytes of the response are sent, and `m_iv` describes the others. -/
structure Tracking (h f n : Nat) (c : HttpConn) : Prop where
  le : n ≤ h + f
  haveSend : c.bytesHaveSend = n
  toSend : c.bytesToSend = (h + f - n : Nat)
  writeIdx : c.writeIdx = h
  count : c.ivCount = 1 ∧ f = 0 ∨ c.ivCount = 2
  head : n < h → c.iv0 = ⟨.writeBuf n, h - n⟩ ∧ (c.ivCount = 2 → c.iv1 = ⟨.file 0, f⟩)
  tail : h ≤ n → c.iv0.len = 0 ∧
    (∃ offset : Int, c.iv0.base = .writeBuf offset ∧ 0 ≤ offset ∧ offset ≤ h) ∧
    c.iv1 = ⟨.file ((n : Int) - h), h + f - n⟩

theorem locs_length (v : Iovec) : v.locs.length = v.len := by
  rw [Iovec.locs, List.length_map, List.length_range]

theorem response_length (h f : Nat) : (response h f).length = h + f := by
  rw [response, List.length_append, locs_length, locs_length]

/-- The end of the locations of a vector. -/
theorem drop_locs (b : IovBase) (len n : Nat) :
    (Iovec.locs ⟨b, len⟩).drop n = Iovec.locs ⟨b.shift n, len - n⟩ := by
  have hshift : ∀ i, b.shift (n + i) = (b.shift n).shift i := by
    intro i
    cases b <;> simp only [IovBase.shift] <;> congr 1 <;> omega
  simp only [Iovec.locs, ← List.map_drop]
  have hrange : (List.range len).drop n = (List.range (len - n)).map (n + ·) := by
    rw [List.range_eq_range', List.drop_range', List.range'_eq_map_range]
    simp
  rw [hrange, List.map_map]
  exact List.map_congr_left (fun i _ => hshift i)

theorem locs_zero (b : IovBase) : Iovec.locs ⟨b, 0⟩ = [] := rfl

namespace Tracking

variable {h f n : Nat} {c : HttpConn}

theorem iovLocs_eq (t : Tracking h f n c) : iovLocs c = (response h f).drop n := by
  have hdrop : (response h f).drop n =
      Iovec.locs ⟨.writeBuf n, h - n⟩ ++ Iovec.locs ⟨.file (n - h : Nat), f - (n - h)⟩ := by
    rw [response, List.drop_append, locs_length, drop_locs, drop_locs]
    simp only [IovBase.shift, Int.zero_add]
  rw [hdrop]
  rcases Nat.lt_or_ge n h with hlt | hge
  · obtain ⟨h0, h1⟩ := t.head hlt
    have hsub : n - h = 0 := by omega
    rcases t.count with ⟨hc, rfl⟩ | hc
    · rw [iovLocs, iovecs, hc, List.take_succ_cons, List.take_zero, List.flatMap_singleton, h0,
        Nat.zero_sub, locs_zero, List.append_nil]
    · rw [iovLocs, iovecs, hc, List.take_of_length_le (by simp), List.flatMap_cons,
        List.flatMap_singleton, h0, h1 hc, hsub, Nat.sub_zero]
      rfl
  · obtain ⟨h0, ⟨offset, hb, -, -⟩, h1⟩ := t.tail hge
    have hle := t.le
    have h0' : c.iv0.locs = [] := by
      rw [Iovec.locs, h0]
      rfl
    have hsub : h - n = 0 := by omega
    rw [hsub, locs_zero, List.nil_append]
    rcases t.count with ⟨hc, rfl⟩ | hc
    · rw [iovLocs, iovecs, hc, List.take_succ_cons, List.take_zero, List.flatMap_singleton, h0',
        Nat.zero_sub, locs_zero]
    · rw [iovLocs, iovecs, hc, List.take_of_length_le (by simp), List.flatMap_cons,
        List.flatMap_singleton, h0', List.nil_append, h1, show f - (n - h) = h + f - n by omega,
        show ((n - h : Nat) : Int) = (n : Int) - h by omega]

theorem in_bounds (t : Tracking h f n c) : ∀ v ∈ iovecs c, InBounds h f v := by
  intro v hv
  have hmem : v = c.iv0 ∨ v = c.iv1 ∧ c.ivCount = 2 := by
    rcases t.count with ⟨hc, -⟩ | hc
    · rw [iovecs, hc, List.take_succ_cons, List.take_zero, List.mem_singleton] at hv
      exact Or.inl hv
    · rw [iovecs, hc, List.take_of_length_le (by simp), List.mem_cons, List.mem_singleton] at hv
      exact hv.imp id (fun h1 => ⟨h1, hc⟩)
  have hle := t.le
  rcases Nat.lt_or_ge n h with hlt | hge
  · obtain ⟨h0, h1⟩ := t.head hlt
    rcases hmem with rfl | ⟨rfl, hc⟩
    · rw [h0]
      simp only [InBounds]
      omega
    · rw [h1 hc]
      simp only [InBounds]
      omega
  · obtain ⟨h0, ⟨offset, hb, hlo, hhi⟩, h1⟩ := t.tail hge
    rcases hmem with rfl | ⟨rfl, -⟩
    · simp only [InBounds, hb, h0]
      omega
    · rw [h1]
      simp only [InBounds]
      omega

/-- The loop keeps the vectors right, unless it stops a second time inside the
header. -/
theorem advance (tr : Tracking h f n c) {t : Nat} (ht : n + t ≤ h + f)
    (hint : ((h + f : Nat) : Int) ≤ INT_MAX) (hstop : n + t < h → n = 0) :
    Tracking h f (n + t) (advance c (wrap32 t)) := by
  have hle := tr.le
  have hw := tr.writeIdx
  rw [advance_eq tr.haveSend tr.toSend (by omega) (by omega)]
  split_ifs with hlen
  · refine ⟨ht, rfl, by simp only; omega, hw, tr.count, fun hlt => ?_, fun _ => ?_⟩
    · have h0 := hstop hlt
      obtain ⟨hiv, -⟩ := tr.head (by omega)
      rw [hiv] at hlen
      simp only at hlen
      omega
    · refine ⟨rfl, ?_, ?_⟩
      · rcases Nat.lt_or_ge n h with hlt | hge
        · obtain ⟨hiv, -⟩ := tr.head hlt
          exact ⟨n, by rw [hiv], by omega, by omega⟩
        · exact (tr.tail hge).2.1
      · rw [hw, show h + f - n - t = h + f - (n + t) by omega]
  · refine ⟨ht, rfl, by simp only; omega, hw, tr.count, fun hlt => ?_, fun hge => ?_⟩
    · have h0 := hstop hlt
      subst h0
      obtain ⟨hiv, h1⟩ := tr.head (by omega)
      exact ⟨by rw [hiv, Nat.sub_zero], h1⟩
    · rcases Nat.lt_or_ge n h with hlt | hge'
      · obtain ⟨hiv, -⟩ := tr.head hlt
        rw [hiv] at hlen
        simp only at hlen
        omega
      · rw [(tr.tail hge').1] at hlen
        omega

end Tracking

/-! ## Runs that stop in the header at most once -/

theorem iovecs_unmap (c : HttpConn) : iovecs (unmap c) = iovecs c := by
  unfold unmap
  split <;> rfl

theorem iovecs_init (c : HttpConn) : iovecs c.init = iovecs c := rfl

/-- What a step of a run does. -/
inductive SendMove (s : Sending) : SendAction → Sending → Prop where
  | idle (hphase : s.phase = .between) (hzero : s.conn.bytesToSend = 0) :
      SendMove s .call { s with conn := s.conn.init, phase := .finished .idle }
  | enter (hphase : s.phase = .between) (hne : s.conn.bytesToSend ≠ 0) :
      SendMove s .call { s with phase := .inLoop }
  | again (hphase : s.phase = .inLoop) :
      SendMove s (.writev .again) { s with phase := .between }
  | error (hphase : s.phase = .inLoop) :
      SendMove s (.writev .error) { s with conn := unmap s.conn, phase := .finished .error }
  /-- More is left. -/
  | more {t : Nat} (hphase : s.phase = .inLoop)
      (hleft : 0 < (advance s.conn (wrap32 t)).bytesToSend) :
      SendMove s (.writev (.sent t))
        ⟨advance s.conn (wrap32 t), s.sent ++ taken s.conn (.sent t), .inLoop⟩
  /-- Everything is sent. -/
  | done {t : Nat} {c : HttpConn} {e : WriteExit} (hphase : s.phase = .inLoop)
      (hleft : (advance s.conn (wrap32 t)).bytesToSend ≤ 0)
      (hiov : iovecs c = iovecs (advance s.conn (wrap32 t))) :
      SendMove s (.writev (.sent t)) ⟨c, s.sent ++ taken s.conn (.sent t), .finished e⟩

/-- Every step is one of these moves. -/
theorem sendStep_inv {s s' : Sending} {a : SendAction} (h : sendStep s a = some s') :
    SendMove s a s' := by
  cases a with
  | call =>
    rw [sendStep] at h
    split_ifs at h with hphase hzero
    · cases h
      exact .idle hphase hzero
    · cases h
      exact .enter hphase hzero
  | writev o =>
    rw [sendStep] at h
    split_ifs at h with hphase
    rcases o with _ | _ | t
    · cases h
      simp only [taken, List.append_nil]
      exact .again hphase
    · cases h
      simp only [taken, List.append_nil]
      exact .error hphase
    · simp only [writeIter] at h
      split_ifs at h with hleft hlinger
      · cases h
        exact .done hphase hleft (by rw [iovecs_init, iovecs_unmap])
      · cases h
        exact .done hphase hleft (iovecs_unmap _)
      · cases h
        exact .more hphase (Int.not_le.mp hleft)

/-- The run has kept its promise, and it is still at its place in the
response. -/
structure Sound (h f : Nat) (s : Sending) : Prop where
  sent_eq : s.sent = (response h f).take s.sent.length
  in_bounds : ∀ v ∈ iovecs s.conn, InBounds h f v
  complete : ∀ e, s.phase = .finished e → e ≠ .error → s.sent = response h f
  live : (∀ e, s.phase ≠ .finished e) →
    Tracking h f s.sent.length s.conn ∧ s.sent.length < h + f

namespace Sound

variable {h f : Nat} {s s' : Sending}

theorem sendOk (hs : Sound h f s) : SendOk h f s := by
  refine ⟨?_, hs.in_bounds, fun hphase hnil => ?_, hs.complete⟩
  · rw [hs.sent_eq]
    exact List.take_prefix _ _
  · obtain ⟨ht, hlt⟩ := hs.live (fun e he => by rw [hphase] at he; cases he)
    have hlen := congrArg List.length ht.iovLocs_eq
    rw [hnil, List.length_drop, response_length, List.length_nil] at hlen
    omega

/-- A run that is not finished, at its place. -/
theorem of_tracking {c : HttpConn} {sent : List IovBase} {phase : SendPhase}
    (hsent : sent = (response h f).take sent.length)
    (ht : Tracking h f sent.length c) (hlt : sent.length < h + f)
    (hphase : ∀ e, phase ≠ .finished e) : Sound h f ⟨c, sent, phase⟩ :=
  ⟨hsent, ht.in_bounds, fun e he => absurd he (hphase e), fun _ => ⟨ht, hlt⟩⟩

/-- The locations that an outcome of `t` bytes takes are the next ones of the
response. -/
theorem sent_append {n t : Nat} {c : HttpConn} {sent : List IovBase}
    (hsent : sent = (response h f).take n) (ht : Tracking h f n c) :
    sent ++ taken c (.sent t) = (response h f).take (n + t) := by
  rw [hsent, taken, ht.iovLocs_eq, List.take_add]

/-- What an outcome of `t` bytes does to a run that does not stop a second time inside
the header. -/
theorem sent_step (hs : Sound h f s) (hint : ((h + f : Nat) : Int) ≤ INT_MAX) {t : Nat}
    (hphase : s.phase = .inLoop) (hv : ValidOutcome s (.writev (.sent t)))
    (hstop : 0 < t → s.sent.length + t < h → s.sent.length = 0) :
    Tracking h f (s.sent.length + t) (Post.advance s.conn (wrap32 t)) ∧
      s.sent ++ taken s.conn (.sent t) = (response h f).take (s.sent.length + t) ∧
      (s.sent ++ taken s.conn (.sent t)).length = s.sent.length + t := by
  obtain ⟨ht, hlt⟩ := hs.live (fun e he => by rw [hphase] at he; cases he)
  have hlen : (iovLocs s.conn).length = h + f - s.sent.length := by
    rw [ht.iovLocs_eq, List.length_drop, response_length]
  have hpos : 1 ≤ t := hv.2 (by omega)
  have hle : t ≤ h + f - s.sent.length := hlen ▸ hv.1
  have hnext := sent_append (t := t) hs.sent_eq ht
  refine ⟨ht.advance (by omega) hint (hstop hpos), hnext, ?_⟩
  rw [hnext, List.length_take, response_length]
  omega

/-- A step of a run that does not stop a second time inside the header. -/
theorem step (hs : Sound h f s) (hint : ((h + f : Nat) : Int) ≤ INT_MAX)
    {a : SendAction} (hv : ValidOutcome s a)
    (hstop : 0 < a.count → s.sent.length + a.count < h → s.sent.length = 0)
    (hstep : sendStep s a = some s') :
    Sound h f s' ∧ s'.sent.length = s.sent.length + a.count := by
  rcases sendStep_inv hstep with ⟨hphase, hzero⟩ | ⟨hphase, -⟩ | hphase | hphase |
    ⟨hphase, hleft⟩ | ⟨hphase, hleft, hiov⟩
  case idle =>
    obtain ⟨ht, hlt⟩ := hs.live (fun e he => by rw [hphase] at he; cases he)
    have hto := ht.toSend
    omega
  case enter =>
    obtain ⟨ht, hlt⟩ := hs.live (fun e he => by rw [hphase] at he; cases he)
    exact ⟨of_tracking hs.sent_eq ht hlt (by simp), rfl⟩
  case again =>
    obtain ⟨ht, hlt⟩ := hs.live (fun e he => by rw [hphase] at he; cases he)
    exact ⟨of_tracking hs.sent_eq ht hlt (by simp), rfl⟩
  case error =>
    refine ⟨⟨hs.sent_eq, ?_, fun e he hne => ?_, fun hnf => absurd rfl (hnf .error)⟩, rfl⟩
    · rw [iovecs_unmap]
      exact hs.in_bounds
    · cases he
      exact absurd rfl hne
  case more t =>
    obtain ⟨hadv, hnext, hcount⟩ := hs.sent_step hint hphase hv hstop
    rw [hadv.toSend] at hleft
    exact ⟨of_tracking (by rw [hcount]; exact hnext) (hcount ▸ hadv) (by rw [hcount]; omega)
      (by simp), hcount⟩
  case done t c e =>
    obtain ⟨hadv, hnext, hcount⟩ := hs.sent_step hint hphase hv hstop
    rw [hadv.toSend] at hleft
    have hall : s.sent ++ taken s.conn (.sent t) = response h f := by
      rw [hnext]
      exact List.take_of_length_le (by rw [response_length]; omega)
    refine ⟨⟨by rw [hcount]; exact hnext, ?_, fun _ _ _ => hall,
      fun hnf => absurd rfl (hnf e)⟩, hcount⟩
    simp only [hiov]
    exact hadv.in_bounds

end Sound

/-- A prepared response is at its start. -/
theorem Prepared.sound {h f : Nat} {c : HttpConn} (hp : Prepared h f c)
    (hint : ((h + f : Nat) : Int) ≤ INT_MAX) : Sound h f (startSending c) := by
  have hpos := hp.header_pos
  refine Sound.of_tracking rfl ⟨by simp, hp.haveSend, ?_, hp.writeIdx, ?_, fun _ => ?_, ?_⟩
    (by simp only [List.length_nil]; omega) (by simp)
  · rw [hp.toSend, wrap32_of_range (by omega) (by omega)]
    simp
  · exact hp.vectors.imp id And.left
  · refine ⟨by rw [hp.iv0]; rfl, fun hc => ?_⟩
    rcases hp.vectors with ⟨h1, -⟩ | ⟨-, h1⟩
    · omega
    · exact h1
  · intro hge
    simp only [List.length_nil] at hge
    omega

/-- One more stop inside the header than the run has made. -/
def stopped (h n : Nat) : Nat := if 0 < n ∧ n < h then 1 else 0

/-- A run that stops at most once inside the header keeps its promise in every
state. -/
theorem Sound.always {h f : Nat} (hint : ((h + f : Nat) : Int) ≤ INT_MAX)
    {as : List SendAction} : ∀ {s : Sending}, Sound h f s →
      AllSteps sendStep ValidOutcome s as →
      stopped h s.sent.length + headerStops h s.sent.length as ≤ 1 →
      Always sendStep (SendOk h f) s as := by
  induction as with
  | nil =>
    intro s hs _ _
    exact hs.sendOk
  | cons a as ih =>
    intro s hs hall hstops
    refine ⟨hs.sendOk, fun s' hstep => ?_⟩
    rw [headerStops, stopped] at hstops
    have hstop : 0 < a.count → s.sent.length + a.count < h → s.sent.length = 0 := by
      intro hpos hlt
      by_contra hne
      rw [if_pos (show 0 < s.sent.length ∧ s.sent.length < h by omega),
        if_pos ⟨hpos, hlt⟩] at hstops
      omega
    obtain ⟨hs', hlen⟩ := hs.step hint hall.1 hstop hstep
    refine ih hs' (hall.2 s' hstep) ?_
    rw [hlen, stopped]
    split_ifs at hstops ⊢ <;> omega

/-! ## A second stop in the header -/

/-- A run inside the header: `m_iv[0]` starts at the right place, and it ends
inside the header. -/
structure InHeader (h f : Nat) (s : Sending) : Prop where
  active : ∀ e, s.phase ≠ .finished e
  sent_eq : s.sent = (response h f).take s.sent.length
  lt : s.sent.length < h
  haveSend : s.conn.bytesHaveSend = s.sent.length
  toSend : s.conn.bytesToSend = (h + f - s.sent.length : Nat)
  writeIdx : s.conn.writeIdx = h
  vectors : s.conn.ivCount = 1 ∧ f = 0 ∨ s.conn.ivCount = 2 ∧ s.conn.iv1 = ⟨.file 0, f⟩
  base : s.conn.iv0.base = .writeBuf s.sent.length
  len_le : s.sent.length + s.conn.iv0.len ≤ h

/-- After a second stop, `m_iv[0]` is shorter than the rest of the header. -/
structure Short (h f : Nat) (s : Sending) : Prop extends InHeader h f s where
  len_lt : s.sent.length + s.conn.iv0.len < h

theorem Sound.inHeader {h f : Nat} {s : Sending} (hs : Sound h f s)
    (hactive : ∀ e, s.phase ≠ .finished e) (hlt : s.sent.length < h) : InHeader h f s := by
  obtain ⟨ht, -⟩ := hs.live hactive
  obtain ⟨h0, h1⟩ := ht.head hlt
  refine ⟨hactive, hs.sent_eq, hlt, ht.haveSend, ht.toSend, ht.writeIdx, ?_, by rw [h0],
    by rw [h0]; simp only; omega⟩
  exact ht.count.imp id (fun hc => ⟨hc, h1 hc⟩)

/-- A step that makes `m_iv[0]` empty inside the header breaks the promise: the
second vector starts before the file, or there is none. -/
theorem not_sendOk_of_empty {h f n m : Nat} {c : HttpConn} {sent : List IovBase}
    (hlt : n < h) (h0 : c.iv0.len = 0) (h1 : c.iv1 = ⟨.file ((n : Int) - h), m⟩)
    (hc : c.ivCount = 1 ∨ c.ivCount = 2) : ¬ SendOk h f ⟨c, sent, .inLoop⟩ := by
  intro hok
  have hnil : c.iv0.locs = [] := by
    rw [Iovec.locs, h0]
    rfl
  rcases hc with hc | hc
  · refine hok.progress rfl ?_
    simp only [iovLocs, iovecs, hc, List.take_succ_cons, List.take_zero, List.flatMap_singleton,
      hnil]
  · have hb := hok.in_bounds c.iv1 (by simp [iovecs, hc])
    rw [h1] at hb
    simp only [InBounds] at hb
    omega

theorem response_getElem? {h f i : Nat} (hi : i < h) :
    (response h f)[i]? = some (.writeBuf i) := by
  rw [response, List.getElem?_append_left (by rw [locs_length]; exact hi)]
  simp [Iovec.locs, IovBase.shift, hi]

/-- What a step with an outcome of `writev` adds. -/
theorem sendStep_sent {s s' : Sending} {o : WritevOutcome}
    (h : sendStep s (.writev o) = some s') : s'.sent = s.sent ++ taken s.conn o := by
  rcases sendStep_inv h with _ | _ | _ | _ | _ | _
  · exact (List.append_nil _).symm
  · exact (List.append_nil _).symm
  · rfl
  · rfl

namespace InHeader

variable {h f : Nat} {s s' : Sending}

/-- The locations that the vectors describe start with those of `m_iv[0]`. -/
theorem iovLocs_eq (hs : InHeader h f s) :
    ∃ rest, iovLocs s.conn = s.conn.iv0.locs ++ rest ∧
      (rest = [] ∨ rest = Iovec.locs ⟨.file 0, f⟩) := by
  rcases hs.vectors with ⟨hc, -⟩ | ⟨hc, h1⟩
  · refine ⟨[], ?_, Or.inl rfl⟩
    rw [iovLocs, iovecs, hc, List.take_succ_cons, List.take_zero, List.flatMap_singleton,
      List.append_nil]
  · refine ⟨Iovec.locs ⟨.file 0, f⟩, ?_, Or.inr rfl⟩
    rw [iovLocs, iovecs, hc, List.take_of_length_le (by simp), List.flatMap_cons,
      List.flatMap_singleton, h1]

/-- A short enough outcome takes the next locations of the response. -/
theorem taken_eq (hs : InHeader h f s) {t : Nat} (ht : t ≤ s.conn.iv0.len) :
    s.sent ++ taken s.conn (.sent t) = (response h f).take (s.sent.length + t) := by
  obtain ⟨rest, hrest, -⟩ := hs.iovLocs_eq
  have hle := hs.len_le
  have hlocs : s.conn.iv0.locs = (Iovec.locs ⟨.writeBuf s.sent.length, h - s.sent.length⟩).take
      s.conn.iv0.len := by
    have hiv : s.conn.iv0 = ⟨.writeBuf s.sent.length, s.conn.iv0.len⟩ := by
      rw [← hs.base]
    rw [hiv]
    simp only [Iovec.locs, ← List.map_take, List.take_range]
    rw [Nat.min_eq_left (by omega)]
  have hdrop : (response h f).drop s.sent.length =
      Iovec.locs ⟨.writeBuf s.sent.length, h - s.sent.length⟩ ++ Iovec.locs ⟨.file 0, f⟩ := by
    rw [response, List.drop_append_of_le_length (by rw [locs_length]; simp only; omega), drop_locs]
    simp only [IovBase.shift, Int.zero_add]
  rw [List.take_add, ← hs.sent_eq, taken, hrest, hdrop,
    List.take_append_of_le_length (by rw [locs_length]; exact ht),
    List.take_append_of_le_length (by rw [locs_length]; simp only; omega), hlocs,
    List.take_take,
    Nat.min_eq_left ht]

/-- A stop inside the header that is not the first. -/
theorem stop (hs : InHeader h f s) (hint : ((h + f : Nat) : Int) ≤ INT_MAX) {t : Nat}
    (hlen : s.conn.iv0.len < h) (hlt : s.sent.length + t < h)
    (ht : t ≤ (iovLocs s.conn).length)
    (hstep : sendStep s (.writev (.sent t)) = some s') :
    Short h f s' ∨ ¬ SendOk h f s' := by
  obtain ⟨c, sent, phase⟩ := s
  simp only at hlen hlt ht
  have hhave : c.bytesHaveSend = sent.length := hs.haveSend
  have hto : c.bytesToSend = (h + f - sent.length : Nat) := hs.toSend
  have hw : c.writeIdx = h := hs.writeIdx
  have hvec : c.ivCount = 1 ∧ f = 0 ∨ c.ivCount = 2 ∧ c.iv1 = ⟨.file 0, f⟩ := hs.vectors
  rw [sendStep] at hstep
  split at hstep
  · have hadv := advance_eq (t := t) hhave hto (by omega) (by omega)
    by_cases hshort : c.iv0.len ≤ sent.length + t
    · -- the shrunk length is used up: `m_iv[0]` becomes empty
      rw [if_pos hshort] at hadv
      simp only [writeIter, hadv] at hstep
      rw [if_neg (by omega)] at hstep
      cases hstep
      refine Or.inr (not_sendOk_of_empty (m := h + f - sent.length - t) hlt rfl ?_
        (hvec.imp And.left And.left))
      simp only [hw]
    · rw [if_neg hshort] at hadv
      simp only [writeIter, hadv] at hstep
      rw [if_neg (by omega)] at hstep
      cases hstep
      have hnext : sent ++ taken c (.sent t) = (response h f).take (sent.length + t) :=
        hs.taken_eq (t := t) (by simp only; omega)
      have hcount : (sent ++ taken c (.sent t)).length = sent.length + t := by
        rw [hnext, List.length_take, response_length]
        omega
      refine Or.inl ⟨⟨by simp, by rw [hcount]; exact hnext, by rw [hcount]; exact hlt,
        by rw [hcount], ?_, hw, hvec, by rw [hcount], ?_⟩, ?_⟩
      · rw [hcount, Nat.sub_sub]
      · simp only [hcount]
        omega
      · simp only [hcount]
        omega
  · cases hstep

end InHeader

namespace Short

variable {h f : Nat} {s s' : Sending}

/-- An outcome that leaves the header from a short `m_iv[0]` jumps over bytes of
the header. -/
theorem leave (hs : Short h f s) {t : Nat} (hge : h ≤ s.sent.length + t)
    (ht : t ≤ (iovLocs s.conn).length)
    (hstep : sendStep s (.writev (.sent t)) = some s') : ¬ SendOk h f s' := by
  intro hok
  have hlt := hs.len_lt
  obtain ⟨rest, hrest, hcase⟩ := hs.iovLocs_eq
  have hpre := hok.sent_prefix
  rw [sendStep_sent hstep, taken, hrest] at hpre
  rw [hrest, List.length_append, locs_length] at ht
  rcases hcase with rfl | rfl
  · rw [List.length_nil] at ht
    omega
  · -- the byte behind `m_iv[0]` is the first byte of the file
    rw [locs_length] at ht
    simp only at ht
    have hfile : (s.sent ++ (s.conn.iv0.locs ++ Iovec.locs ⟨.file 0, f⟩).take t)[
        s.sent.length + s.conn.iv0.len]? = some (.file 0) := by
      rw [List.getElem?_append_right (by omega), Nat.add_sub_cancel_left,
        List.getElem?_take_of_lt (by omega),
        List.getElem?_append_right (by rw [locs_length]), locs_length, Nat.sub_self]
      simp [Iovec.locs, IovBase.shift, show 0 < f by omega]
    obtain ⟨tail, htail⟩ := hpre
    have hhead := response_getElem? (f := f) hlt
    rw [← htail, List.getElem?_append_left (List.getElem?_eq_some_iff.mp hfile).1, hfile] at hhead
    cases hhead

/-- An outcome of `writev` keeps `m_iv[0]` short, or breaks the promise. -/
theorem sent_step (hs : Short h f s) (hint : ((h + f : Nat) : Int) ≤ INT_MAX) {t : Nat}
    (ht : t ≤ (iovLocs s.conn).length) (hstep : sendStep s (.writev (.sent t)) = some s') :
    Short h f s' ∨ ¬ SendOk h f s' := by
  have hlen := hs.len_lt
  rcases Nat.lt_or_ge (s.sent.length + t) h with hin | hout
  · exact hs.toInHeader.stop hint (by omega) hin ht hstep
  · exact Or.inr (hs.leave hout ht hstep)

/-- A step from a short `m_iv[0]` stays in such a state, breaks the promise, or
fails. -/
theorem step (hs : Short h f s) (hint : ((h + f : Nat) : Int) ≤ INT_MAX) {a : SendAction}
    (hv : ValidOutcome s a) (hstep : sendStep s a = some s') :
    Short h f s' ∨ ¬ SendOk h f s' ∨ s'.phase = .finished .error := by
  have hlt := hs.lt
  have hlen := hs.len_lt
  rcases sendStep_inv hstep with ⟨-, hzero⟩ | _ | _ | _ | _ | _
  case idle =>
    have hto := hs.toSend
    omega
  case enter =>
    exact Or.inl ⟨⟨by simp, hs.sent_eq, hlt, hs.haveSend, hs.toSend, hs.writeIdx, hs.vectors,
      hs.base, hs.len_le⟩, hlen⟩
  case again =>
    exact Or.inl ⟨⟨by simp, hs.sent_eq, hlt, hs.haveSend, hs.toSend, hs.writeIdx, hs.vectors,
      hs.base, hs.len_le⟩, hlen⟩
  case error => exact Or.inr (Or.inr rfl)
  case more => exact (hs.sent_step hint hv.1 hstep).imp id Or.inl
  case done => exact (hs.sent_step hint hv.1 hstep).imp id Or.inl

end Short

/-! ## Runs that complete -/

/-- A run that has finished makes no further step. -/
theorem exec_finished {s s' : Sending} {e : WriteExit} (h : s.phase = .finished e)
    {as : List SendAction} (hexec : exec sendStep s as = some s') : s' = s := by
  cases as with
  | nil =>
    cases hexec
    rfl
  | cons a as =>
    obtain ⟨m, hm, -⟩ := exec_cons hexec
    cases a <;> · simp [sendStep, h] at hm

/-- A run that makes a step has not finished. -/
theorem active_of_step {s s' : Sending} {a : SendAction} (h : sendStep s a = some s')
    (e : WriteExit) : s.phase ≠ .finished e := by
  intro he
  cases a <;> · simp [sendStep, he] at h

/-- From a short `m_iv[0]` no run keeps the promise and completes. -/
theorem Short.run {h f : Nat} (hint : ((h + f : Nat) : Int) ≤ INT_MAX)
    {as : List SendAction} : ∀ {s s' : Sending} {e : WriteExit}, Short h f s →
      AllSteps sendStep ValidOutcome s as → Always sendStep (SendOk h f) s as →
      exec sendStep s as = some s' → s'.phase = .finished e → e = .error := by
  induction as with
  | nil =>
    intro s s' e hs _ _ hexec he
    cases hexec
    exact absurd he (hs.active e)
  | cons a as ih =>
    intro s s' e hs hall halways hexec he
    obtain ⟨m, hm, hrest⟩ := exec_cons hexec
    have hok := halways.2 m hm
    rcases hs.step hint hall.1 hm with h1 | h1 | h1
    · exact ih h1 (hall.2 m hm) hok hrest he
    · exact absurd hok.head h1
    · rw [exec_finished h1 hrest, h1] at he
      cases he
      rfl

theorem headerStops_of_le {h : Nat} {as : List SendAction} : ∀ {n : Nat}, h ≤ n →
    headerStops h n as = 0 := by
  induction as with
  | nil => intro n _; rfl
  | cons a as ih =>
    intro n hn
    rw [headerStops, if_neg (by omega), ih (by omega)]

/-- A run that keeps its promise in every state and completes has stopped at
most once inside the header. -/
theorem Sound.stops_le {h f : Nat} (hint : ((h + f : Nat) : Int) ≤ INT_MAX)
    {as : List SendAction} : ∀ {s s' : Sending} {e : WriteExit}, Sound h f s →
      AllSteps sendStep ValidOutcome s as → Always sendStep (SendOk h f) s as →
      exec sendStep s as = some s' → s'.phase = .finished e → e ≠ .error →
      stopped h s.sent.length + headerStops h s.sent.length as ≤ 1 := by
  induction as with
  | nil =>
    intro s s' e _ _ _ _ _ _
    rw [headerStops, stopped]
    split_ifs <;> omega
  | cons a as ih =>
    intro s s' e hs hall halways hexec he hne
    obtain ⟨m, hm, hrest⟩ := exec_cons hexec
    have hok := halways.2 m hm
    have hstop : 0 < a.count → s.sent.length + a.count < h → s.sent.length = 0 := by
      intro hpos hlt
      by_contra h0
      cases a with
      | call => exact absurd hpos (Nat.lt_irrefl 0)
      | writev o =>
        cases o with
        | again => exact absurd hpos (Nat.lt_irrefl 0)
        | error => exact absurd hpos (Nat.lt_irrefl 0)
        | sent t =>
          simp only [SendAction.count] at hlt
          have hin := hs.inHeader (active_of_step hm) (by omega)
          have hlen := hin.len_le
          rcases hin.stop hint (by omega) hlt hall.1.1 hm with h1 | h1
          · exact hne (h1.run hint (hall.2 m hm) hok hrest he)
          · exact h1 hok.head
    obtain ⟨hs', hlen⟩ := hs.step hint hall.1 hstop hm
    have hnext := ih hs' (hall.2 m hm) hok hrest he hne
    rw [hlen, stopped] at hnext
    rw [headerStops, stopped]
    by_cases hin : s.sent.length + a.count < h
    · split_ifs at hnext ⊢ <;> omega
    · rw [headerStops_of_le (by omega), if_neg (show ¬(0 < a.count ∧ _) from fun h1 => hin h1.2)]
      split_ifs <;> omega

/-! ## Prepared responses -/

theorem errorResponse_prepared {c : HttpConn} (status : Nat) (title form : Bytes)
    (h0 : c.writeIdx = 0) (hsend : c.bytesHaveSend = 0) (hstatus : status < 1000)
    (htitle : title.length ≤ 100) (hform : form.length < 100)
    (hnul : strlen form = form.length) :
    Prepared (errorText status title form c.linger).length 0
      (errorResponse c status title form).2 := by
  obtain ⟨heq, hlen⟩ := errorResponse_eq h0 hstatus htitle hform hnul
  have hbuf : WRITE_BUFFER_SIZE = 1024 := rfl
  have hmax : INT_MAX = 2147483647 := rfl
  have hline := statusLine_length status title
  have hpos : 1 ≤ (errorText status title form c.linger).length := by
    rw [errorText, List.length_append, List.length_append]
    omega
  rw [heq]
  refine ⟨hpos, ?_, ?_, ?_, ?_, Or.inl ⟨rfl, rfl⟩⟩
  · simp only [finishWrite, put_writeIdx, h0, Nat.zero_add]
  · simp only [finishWrite, put_bytesHaveSend, hsend]
  · rw [wrap32_of_range (by omega) (by omega)]
    simp only [finishWrite, put_writeIdx, h0]
    omega
  · simp only [finishWrite, put_writeIdx, h0, Nat.zero_add]

/-- The vectors of a response with a file, over any connection. -/
theorem prepared_file {c : HttpConn} {h f : Nat} {total : Int} (hpos : 1 ≤ h)
    (hw : c.writeIdx = h) (hsend : c.bytesHaveSend = 0) (htotal : total = wrap32 (h + f)) :
    Prepared h f { c with
      iv0 := ⟨.writeBuf 0, h⟩
      iv1 := ⟨.file 0, f⟩
      ivCount := 2
      bytesToSend := total } :=
  ⟨hpos, hw, hsend, htotal, rfl, Or.inr ⟨rfl, rfl⟩⟩

theorem fileResponse_prepared {c : HttpConn} (h0 : c.writeIdx = 0)
    (hsend : c.bytesHaveSend = 0) (hsize : c.fileStat.size ≠ 0) :
    Prepared (fileHeader c.fileStat.size c.linger).length c.fileStat.size
      (fileResponse c).2 := by
  have hlen := fileHeader_length c.fileStat.size c.linger
  have hw : (c.put (fileHeader c.fileStat.size c.linger)).writeIdx =
      (fileHeader c.fileStat.size c.linger).length := by
    rw [put_writeIdx, h0, Nat.zero_add]
  have hsend' : (c.put (fileHeader c.fileStat.size c.linger)).bytesHaveSend = 0 := by
    rw [put_bytesHaveSend, hsend]
  rw [fileResponse_eq h0 hsize]
  exact prepared_file (by omega) hw hsend' rfl

/-- `process_write` prepares a response. -/
theorem prepared_of_processWrite {c c' : HttpConn} {code : HttpCode}
    (h0 : c.writeIdx = 0) (hsend : c.bytesHaveSend = 0)
    (h : processWrite c code = (true, c')) : ∃ n f, Prepared n f c' := by
  have hc : (processWrite c code).2 = c' := by rw [h]
  have htrue : (processWrite c code).1 = true := by rw [h]
  subst hc
  cases code with
  | internalError =>
    rw [processWrite]
    exact ⟨_, 0, errorResponse_prepared 500 error500Title error500Form h0 hsend (by omega)
      (by decide) (by decide) (by decide)⟩
  | badRequest =>
    rw [processWrite]
    exact ⟨_, 0, errorResponse_prepared 404 error404Title error404Form h0 hsend (by omega)
      (by decide) (by decide) (by decide)⟩
  | forbiddenRequest =>
    rw [processWrite]
    exact ⟨_, 0, errorResponse_prepared 403 error403Title error403Form h0 hsend (by omega)
      (by decide) (by decide) (by decide)⟩
  | fileRequest =>
    by_cases hsize : c.fileStat.size = 0
    · rw [processWrite, fileResponse_empty hsize] at htrue
      cases htrue
    · exact ⟨_, _, fileResponse_prepared h0 hsend hsize⟩
  | noRequest => cases htrue
  | getRequest => cases htrue
  | noResource => cases htrue
  | closedConnection => cases htrue

/-- A prepared response is sent as promised when `writev` stops inside the header at most once. -/
theorem Prepared.always {h f : Nat} {c : HttpConn} {as : List SendAction}
    (hp : Prepared h f c) (hint : ((h + f : Nat) : Int) ≤ INT_MAX)
    (hvalid : AllSteps sendStep ValidOutcome (startSending c) as)
    (hstops : headerStops h 0 as ≤ 1) : Always sendStep (SendOk h f) (startSending c) as := by
  refine (hp.sound hint).always hint hvalid ?_
  simpa [stopped, startSending] using hstops

/-- Sending a response of `h` header bytes and `f` file bytes whose length is an
`int`.  A run keeps its promise in every state when `writev` stops strictly
inside the header at most once, and a run that completes keeps it in no other
case. -/
theorem always_sendOk_iff {h f : Nat} (c : HttpConn) (as : List SendAction)
    (hp : Prepared h f c) (hint : ((h + f : Nat) : Int) ≤ INT_MAX)
    (hvalid : AllSteps sendStep ValidOutcome (startSending c) as) :
    (headerStops h 0 as ≤ 1 → Always sendStep (SendOk h f) (startSending c) as) ∧
    ∀ s e, exec sendStep (startSending c) as = some s → s.phase = .finished e →
      e ≠ .error →
      (Always sendStep (SendOk h f) (startSending c) as ↔ headerStops h 0 as ≤ 1) := by
  have hkeep := hp.always hint hvalid
  refine ⟨hkeep, fun s e hexec he hne => ⟨fun halways => ?_, hkeep⟩⟩
  have hle := (hp.sound hint).stops_le hint hvalid halways hexec he hne
  simpa [stopped, startSending] using hle

/-- The answer to a request for a file without read permission, 120 bytes of
header and form. -/
def forbiddenResponse : HttpConn := (processWrite HttpConn.blank .forbiddenRequest).2

theorem forbiddenResponse_prepared : Prepared 120 0 forbiddenResponse :=
  ⟨by decide, by decide, by decide, by decide, by decide,
    by decide⟩

/-- The response is sent in two calls, the first of which stops inside it. -/
theorem always_sendOk_twoCalls :
    Always sendStep (SendOk 120 0) (startSending forbiddenResponse)
      [.call, .writev (.sent 60), .writev .again, .call, .writev (.sent 60)] :=
  (always_sendOk_iff (h := 120) (f := 0) forbiddenResponse
    [.call, .writev (.sent 60), .writev .again, .call, .writev (.sent 60)]
    forbiddenResponse_prepared (by decide) (by decide +kernel)).1 (by decide)

/-- The same response with two stops: behind the second one `writev` is called
on an empty vector, with fifty bytes left. -/
theorem not_always_sendOk_twoStops :
    (processWrite HttpConn.blank .forbiddenRequest).1 = true ∧
      Prepared 120 0 forbiddenResponse ∧
      AllSteps sendStep ValidOutcome (startSending forbiddenResponse)
        [.call, .writev (.sent 60), .writev (.sent 10)] ∧
      ¬ Always sendStep (SendOk 120 0) (startSending forbiddenResponse)
        [.call, .writev (.sent 60), .writev (.sent 10)] := by
  refine ⟨by decide, forbiddenResponse_prepared, by decide +kernel, fun h => ?_⟩
  obtain ⟨s, ⟨hphase, hnil⟩, hok⟩ :=
    h.exists_last (fun s : Sending => s.phase = .inLoop ∧ iovLocs s.conn = [])
      (by decide)
  exact hok.progress hphase hnil

end EasyWebServer.Post
