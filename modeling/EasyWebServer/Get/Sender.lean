import EasyWebServer.Get.Response
import EasyWebServer.Lib.Transition

/-!
# Sending a response of the GET server

`http_conn::write` of the GET server keeps its progress in local variables, starts every
call with `bytes_to_send = m_write_idx`, never moves the vectors, and leaves its loop when
the bytes it has sent are at least those it counts as left.

`Sending` adds to the connection the two local variables and the locations that `writev`
has taken.  A step of a run is a call of `write` or an outcome of `writev` inside a call,
and `SendOk` is what a run owes to the response.

`always_writeOk_iff` says which runs keep it: those in which `writev` takes bytes once, and
takes the whole response or less than half of the header.
-/

namespace EasyWebServer.Get

open CString CInt HttpConn Transition
open Post (WritevOutcome WriteExit SendPhase SendAction response phaseOf
  response_length)

/-! ## write -/

/-- `unmap`. -/
def unmap (c : HttpConn) : HttpConn :=
  if c.fileAddress = .null then c else { c with fileAddress := .null }

/-- The local variables of `write` in its loop. -/
structure WriteLocals where
  conn : HttpConn
  bytesToSend : Int
  bytesHaveSend : Int

/-- The body of the loop of `write`.  A count is an `int`: `writev` takes no more at
once. -/
def writeIter (l : WriteLocals) : WritevOutcome → WriteLocals ⊕ (WriteExit × HttpConn)
  | .again => .inr (.again, l.conn)
  | .error => .inr (.error, unmap l.conn)
  | .sent t =>
      let bytesToSend := wrap32 (l.bytesToSend - t)
      let bytesHaveSend := wrap32 (l.bytesHaveSend + t)
      if bytesToSend ≤ bytesHaveSend then
        let c := unmap l.conn
        if c.linger then .inr (.keepAlive, c.init) else .inr (.close, c)
      else .inl ⟨l.conn, bytesToSend, bytesHaveSend⟩

/-- The locations that `m_iv[0..m_iv_count)` describes. -/
def iovLocs (c : HttpConn) : List IovBase :=
  ([c.iv0, c.iv1].take c.ivCount).flatMap Iovec.locs

/-! ## Runs of write -/

/-- A run that sends a response: the connection with the local variables, the locations
that `writev` has taken, and the phase. -/
structure Sending where
  locals : WriteLocals
  sent : List IovBase
  phase : SendPhase

/-- `writev` may take `t` bytes. -/
def CanTake (s : Sending) (t : Nat) : Prop :=
  1 ≤ t ∧ t ≤ (iovLocs s.locals.conn).length ∧ (t : Int) ≤ INT_MAX

instance (s : Sending) (t : Nat) : Decidable (CanTake s t) :=
  inferInstanceAs (Decidable (_ ∧ _ ∧ _))

/-- The locations that an outcome of `writev` takes. -/
def taken (c : HttpConn) : WritevOutcome → List IovBase
  | .sent t => (iovLocs c).take t
  | _ => []

/-- `writev` may have this outcome. -/
def Possible (s : Sending) : WritevOutcome → Prop
  | .sent t => CanTake s t
  | _ => True

instance (s : Sending) (o : WritevOutcome) : Decidable (Possible s o) := by
  unfold Possible
  split <;> infer_instance

/-- One step of a run. -/
def sendStep (s : Sending) : SendAction → Option Sending
  | .call =>
      if s.phase = .between then
        if s.locals.conn.writeIdx = 0 then
          some ⟨⟨s.locals.conn.init, 0, 0⟩, s.sent, .finished .idle⟩
        else some ⟨⟨s.locals.conn, s.locals.conn.writeIdx, 0⟩, s.sent, .inLoop⟩
      else none
  | .writev o =>
      if s.phase = .inLoop ∧ Possible s o then
        match writeIter s.locals o with
        | .inl l => some ⟨l, s.sent ++ taken s.locals.conn o, .inLoop⟩
        | .inr (e, c) => some ⟨⟨c, 0, 0⟩, s.sent ++ taken s.locals.conn o, phaseOf e⟩
      else none

/-- The start of a run. -/
def startSending (c : HttpConn) : Sending := ⟨⟨c, 0, 0⟩, [], .between⟩

/-- What a run owes to a response of `h` header bytes and `f` file bytes. -/
structure SendOk (h f : Nat) (s : Sending) : Prop where
  /-- The bytes are sent in order, each at most once. -/
  sent_prefix : s.sent <+: response h f
  /-- When `write` reports the end, everything is sent. -/
  complete : ∀ e, s.phase = .finished e → e ≠ .error → s.sent = response h f

/-- When `writev` takes bytes, it has taken none before, and it takes the whole response
or less than half of the header. -/
def Undivided (h f : Nat) (s : Sending) : SendAction → Prop
  | .writev (.sent t) =>
      s.phase = .inLoop → CanTake s t → s.sent = [] ∧ (t = h + f ∨ 2 * t < h)
  | _ => True

instance (h f : Nat) (s : Sending) : (a : SendAction) → Decidable (Undivided h f s a)
  | .writev (.sent t) =>
      inferInstanceAs (Decidable
        (s.phase = .inLoop → CanTake s t → s.sent = [] ∧ (t = h + f ∨ 2 * t < h)))
  | .writev .again | .writev .error | .call => isTrue trivial

/-! ## The steps -/

/-- What a step of a run does. -/
inductive SendMove (s : Sending) : SendAction → Sending → Prop where
  | idle (hphase : s.phase = .between) (hzero : s.locals.conn.writeIdx = 0) :
      SendMove s .call ⟨⟨s.locals.conn.init, 0, 0⟩, s.sent, .finished .idle⟩
  | enter (hphase : s.phase = .between) (hne : s.locals.conn.writeIdx ≠ 0) :
      SendMove s .call ⟨⟨s.locals.conn, s.locals.conn.writeIdx, 0⟩, s.sent, .inLoop⟩
  | again (hphase : s.phase = .inLoop) :
      SendMove s (.writev .again) ⟨⟨s.locals.conn, 0, 0⟩, s.sent, .between⟩
  | error (hphase : s.phase = .inLoop) :
      SendMove s (.writev .error) ⟨⟨unmap s.locals.conn, 0, 0⟩, s.sent, .finished .error⟩
  /-- Less is sent than is counted as left. -/
  | more {t : Nat} (hphase : s.phase = .inLoop) (htake : CanTake s t)
      (hleft : wrap32 (s.locals.bytesHaveSend + t) < wrap32 (s.locals.bytesToSend - t)) :
      SendMove s (.writev (.sent t))
        ⟨⟨s.locals.conn, wrap32 (s.locals.bytesToSend - t), wrap32 (s.locals.bytesHaveSend + t)⟩,
          s.sent ++ (iovLocs s.locals.conn).take t, .inLoop⟩
  | done {t : Nat} {c : HttpConn} {e : WriteExit} (hphase : s.phase = .inLoop)
      (htake : CanTake s t)
      (hleft : wrap32 (s.locals.bytesToSend - t) ≤ wrap32 (s.locals.bytesHaveSend + t))
      (hend : e = .keepAlive ∨ e = .close) :
      SendMove s (.writev (.sent t))
        ⟨⟨c, 0, 0⟩, s.sent ++ (iovLocs s.locals.conn).take t, .finished e⟩

/-- Every step is one of these moves. -/
theorem sendStep_inv {s s' : Sending} {a : SendAction} (h : sendStep s a = some s') :
    SendMove s a s' := by
  cases a with
  | call =>
    rw [sendStep] at h
    split_ifs at h with hphase hzero
    · cases h
      exact .idle hphase hzero
    · cases h
      exact .enter hphase hzero
  | writev o =>
    rw [sendStep] at h
    split_ifs at h with hphase
    rcases o with _ | _ | t
    · cases h
      simp only [taken, List.append_nil]
      exact .again hphase.1
    · cases h
      simp only [taken, List.append_nil]
      exact .error hphase.1
    · simp only [writeIter] at h
      split_ifs at h with hleft hlinger
      · cases h
        exact .done hphase.1 hphase.2 hleft (Or.inl rfl)
      · cases h
        exact .done hphase.1 hphase.2 hleft (Or.inr rfl)
      · cases h
        exact .more hphase.1 hphase.2 (Int.not_le.mp hleft)

/-- In the loop, `writev` may take what it can take. -/
theorem exists_step {s : Sending} {t : Nat} (hphase : s.phase = .inLoop) (htake : CanTake s t) :
    ∃ s', sendStep s (.writev (.sent t)) = some s' := by
  rw [sendStep, if_pos ⟨hphase, htake⟩]
  rcases writeIter s.locals (.sent t) with l | ⟨e, c⟩
  · exact ⟨_, rfl⟩
  · exact ⟨_, rfl⟩

/-! ## The runs that keep the promise -/

/-- The vectors describe the whole response, and nothing or less than half of the header
is sent, until the run has ended well. -/
structure Started (h f : Nat) (s : Sending) : Prop where
  sent_prefix : s.sent <+: response h f
  complete : ∀ e, s.phase = .finished e → e ≠ .error → s.sent = response h f
  prepared : (∀ e, s.phase ≠ .finished e) → Prepared h f s.locals.conn
  short : (∀ e, s.phase ≠ .finished e) → 2 * s.sent.length < h
  fresh : s.phase = .inLoop → s.sent = [] →
    s.locals.bytesToSend = h ∧ s.locals.bytesHaveSend = 0

variable {h f : Nat} {s s' : Sending}

theorem Prepared.iovLocs_eq {c : HttpConn} (hp : Prepared h f c) :
    iovLocs c = response h f := by
  unfold iovLocs
  rw [hp.iv0]
  rcases hp.vectors with ⟨hcount, rfl⟩ | ⟨hcount, hiv⟩
  · rw [hcount, List.take_succ_cons, List.take_zero, List.flatMap_singleton, response,
      Post.locs_zero, List.append_nil]
  · rw [hcount, List.take_of_length_le (by simp), List.flatMap_cons, List.flatMap_singleton,
      hiv, response]

theorem Started.sendOk (hs : Started h f s) : SendOk h f s := ⟨hs.sent_prefix, hs.complete⟩

theorem started_start {c : HttpConn} (hp : Prepared h f c) : Started h f (startSending c) := by
  have hpos := hp.header_pos
  refine ⟨List.nil_prefix, nofun, fun _ => hp, fun _ => ?_, nofun⟩
  show 2 * 0 < h
  omega

/-- The counters of a call that has sent nothing before, behind `t` bytes. -/
theorem Started.counters (hs : Started h f s) (hphase : s.phase = .inLoop) (hnil : s.sent = [])
    {t : Nat} (htake : CanTake s t) :
    wrap32 (s.locals.bytesToSend - t) = (h : Int) - t ∧
      wrap32 (s.locals.bytesHaveSend + t) = t := by
  obtain ⟨hto, hhave⟩ := hs.fresh hphase hnil
  have hle := (hs.prepared (by simp [hphase])).header_le
  have hint := htake.2.2
  simp only [WRITE_BUFFER_SIZE] at hle
  rw [hto, hhave, Int.zero_add]
  simp only [INT_MAX] at hint
  exact ⟨wrap32_of_range (by omega) (by simp only [INT_MAX]; omega),
    wrap32_of_range (by omega) (by simp only [INT_MAX]; omega)⟩

/-- A step that meets the guard keeps the promise. -/
theorem Started.step (hs : Started h f s) {a : SendAction} (hguard : Undivided h f s a)
    (hstep : sendStep s a = some s') : Started h f s' := by
  cases sendStep_inv hstep with
  | idle hphase hzero =>
    have hp := hs.prepared (by simp [hphase])
    have hpos := hp.header_pos
    rw [hp.writeIdx] at hzero
    omega
  | enter hphase hne =>
    have hlive : ∀ e, s.phase ≠ .finished e := by simp [hphase]
    refine ⟨hs.sent_prefix, nofun, fun _ => hs.prepared hlive, fun _ => hs.short hlive,
      fun _ _ => ⟨?_, rfl⟩⟩
    rw [(hs.prepared hlive).writeIdx]
  | again hphase =>
    have hlive : ∀ e, s.phase ≠ .finished e := by simp [hphase]
    exact ⟨hs.sent_prefix, nofun, fun _ => hs.prepared hlive, fun _ => hs.short hlive, nofun⟩
  | error hphase =>
    refine ⟨hs.sent_prefix, fun e he hne => ?_, fun h => absurd rfl (h _),
      fun h => absurd rfl (h _), nofun⟩
    cases he
    exact absurd rfl hne
  | @more t hphase htake hleft =>
    have hlive : ∀ e, s.phase ≠ .finished e := by simp [hphase]
    obtain ⟨hnil, hsize⟩ := hguard hphase htake
    obtain ⟨hto, hhave⟩ := hs.counters hphase hnil htake
    have hlen : (s.sent ++ (iovLocs s.locals.conn).take t).length = t := by
      rw [hnil, List.nil_append, List.length_take]
      exact Nat.min_eq_left htake.2.1
    rw [hto, hhave] at hleft
    refine ⟨?_, nofun, fun _ => hs.prepared hlive, fun _ => ?_, fun _ hempty => ?_⟩
    · rw [hnil, List.nil_append, (hs.prepared hlive).iovLocs_eq]
      exact List.take_prefix _ _
    · rw [hlen]
      omega
    · have hpos := htake.1
      have hzero : t = 0 := hlen.symm.trans (congrArg List.length hempty)
      omega
  | @done t c e hphase htake hleft hend =>
    have hlive : ∀ e, s.phase ≠ .finished e := by simp [hphase]
    obtain ⟨hnil, hsize⟩ := hguard hphase htake
    obtain ⟨hto, hhave⟩ := hs.counters hphase hnil htake
    rw [hto, hhave] at hleft
    -- at least half of the header is sent, so it is the whole response
    have hall : s.sent ++ (iovLocs s.locals.conn).take t = response h f := by
      rw [hnil, List.nil_append, (hs.prepared hlive).iovLocs_eq]
      exact List.take_of_length_le (by rw [response_length]; omega)
    exact ⟨by rw [hall], fun _ _ _ => hall, fun h => absurd rfl (h _),
      fun h => absurd rfl (h _), nofun⟩

/-- The first bytes of a response, sent a second time, are not the next ones. -/
theorem not_prefix_twice {n t : Nat} (hn : 1 ≤ n) (hnh : n < h) (ht : 1 ≤ t) :
    ¬ (response h f).take n ++ (response h f).take t <+: response h f := by
  intro hpre
  have hlen : ((response h f).take n).length = n := by
    rw [List.length_take, response_length]
    omega
  have hlocs : ∀ i, i < h → (response h f)[i]? = some (.writeBuf i) := fun i hi =>
    Post.response_getElem? hi
  have hget : ((response h f).take n ++ (response h f).take t)[n]? = some (.writeBuf 0) := by
    rw [List.getElem?_append_right (by omega), hlen, Nat.sub_self,
      List.getElem?_take_of_lt (by omega)]
    exact hlocs 0 (by omega)
  obtain ⟨rest, hrest⟩ := hpre
  have hsame : (response h f)[n]? = some (.writeBuf 0) := by
    rw [← hrest, List.getElem?_append_left (List.getElem?_eq_some_iff.mp hget).choose]
    exact hget
  rw [hlocs n hnh] at hsame
  have hzero : (n : Int) = 0 := IovBase.writeBuf.inj (Option.some.inj hsame)
  omega

/-- A step without the guard breaks the promise. -/
theorem Started.undivided (hs : Started h f s) {a : SendAction}
    (hok : ∀ s', sendStep s a = some s' → SendOk h f s') : Undivided h f s a := by
  rcases a with _ | _ | _ | t
  · trivial
  · trivial
  · trivial
  intro hphase htake
  have hlive : ∀ e, s.phase ≠ .finished e := by simp [hphase]
  have hp := hs.prepared hlive
  have hshort := hs.short hlive
  obtain ⟨s', hs'⟩ := exists_step hphase htake
  have hok' := hok s' hs'
  have hsent : s'.sent = s.sent ++ (response h f).take t := by
    rw [← hp.iovLocs_eq]
    cases sendStep_inv hs' <;> rfl
  have hnil : s.sent = [] := by
    -- the vectors still begin at the first byte
    by_contra hne
    have hpos := List.length_pos_iff.mpr hne
    have hpre := hok'.sent_prefix
    rw [hsent, List.prefix_iff_eq_take.mp hs.sent_prefix] at hpre
    exact not_prefix_twice hpos (by omega) htake.1 hpre
  refine ⟨hnil, ?_⟩
  by_contra hsize
  -- the loop ends with a part of the response
  obtain ⟨hto, hhave⟩ := hs.counters hphase hnil htake
  have hlen := htake.2.1
  rw [hp.iovLocs_eq, response_length] at hlen
  have hpart : s'.sent.length = t := by
    rw [hsent, hnil, List.nil_append, List.length_take, response_length, Nat.min_eq_left hlen]
  have hall : s'.sent.length = h + f := by
    cases sendStep_inv hs' with
    | more _ _ hleft =>
      rw [hto, hhave] at hleft
      omega
    | done _ _ _ hend =>
      rw [hok'.complete _ rfl (by rcases hend with rfl | rfl <;> decide), response_length]
  omega

/-- Sending a prepared response keeps the promise in every state of a run exactly when
`writev` takes bytes once, the whole response or less than half of the header. -/
theorem always_writeOk_iff {h f : Nat} (c : HttpConn) (as : List SendAction)
    (hp : Prepared h f c) :
    Always sendStep (SendOk h f) (startSending c) as ↔
      AllSteps sendStep (Undivided h f) (startSending c) as :=
  always_iff_allSteps (Started h f) (Undivided h f) (fun _ hs => hs.sendOk)
    (fun _ _ _ hs hguard hstep => hs.step hguard hstep)
    (fun _ _ hs hok => hs.undivided hok) (started_start hp) as

/-- The answer to a request for a file of five bytes. -/
def pageResponse : HttpConn :=
  (processWrite { HttpConn.blank with fileStat := { HttpConn.blank.fileStat with size := 5 } }
    .fileRequest).2

theorem pageResponse_prepared : Prepared 57 5 pageResponse :=
  ⟨by decide, by decide, by decide, by decide, Or.inr (by decide)⟩

/-- The socket is full at first, and takes the whole response then. -/
theorem always_writeOk_again :
    Always sendStep (SendOk 57 5) (startSending pageResponse)
      [.call, .writev .again, .call, .writev (.sent 62)] :=
  (always_writeOk_iff pageResponse [.call, .writev .again, .call, .writev (.sent 62)]
    pageResponse_prepared).2 (by decide)

/-- The socket takes the header, and `write` leaves the page behind it unsent. -/
theorem not_always_writeOk_header :
    Prepared 57 5 pageResponse ∧
      ¬ Always sendStep (SendOk 57 5) (startSending pageResponse)
        [.call, .writev (.sent 57)] := by
  refine ⟨pageResponse_prepared, fun h => ?_⟩
  obtain ⟨s, ⟨hphase, hlen⟩, hok⟩ :=
    h.exists_last (fun s : Sending => s.phase = .finished .close ∧ s.sent.length = 57)
      (by decide)
  rw [hok.complete .close hphase (by decide), response_length] at hlen
  omega

end EasyWebServer.Get
