import EasyWebServer.Post.Segmentation

/-!
# The read buffer and the content length

`parse_content` adds `m_content_length`, which a client chooses, to
`m_checked_idx`, and stores a terminator at `text + m_content_length`.

`requestContentCalls` lists the calls of `parse_content` while one request is
read: each list of `recv` outcomes is one `read_once`, and a `read_once` that
succeeds is followed by one call of `process_read`.  Every request starts with
`init()`, so the runs below start in `c.init` for any `c`.

* `InBuffer` is the invariant of the scanner indices, whatever the
  segmentation: `m_start_line ≤ m_checked_idx ≤ m_read_idx ≤ READ_BUFFER_SIZE`.
* `contentOk_iff` is the step: under the indices of `InBuffer` one call is safe
  exactly when its content length is in `LengthInRange`.
-/

namespace EasyWebServer.Post

open CString CInt HttpConn Common

/-! ## The calls of parse_content -/

/-- A call of `parse_content`: the connection it is made on, and `text`. -/
structure ContentCall where
  conn : HttpConn
  text : Nat

/-- The call that `dispatchLine` makes in `CHECK_STATE_CONTENT`. -/
def contentCallOf (c : HttpConn) : ContentCall :=
  ⟨{ c with startLine := c.checkedIdx }, c.getLine⟩

/-- The call of `parse_content` in one execution of the loop condition and the
loop body of `process_read`. -/
def contentCall (s : ReadState) : Option ContentCall :=
  if s.conn.checkState = .content ∧ s.lineStatus = .lineOk then
    some (contentCallOf s.conn)
  else
    match parseLine s.conn with
    | (.lineOk, c) =>
        if c.checkState = .content then some (contentCallOf c) else none
    | _ => none

/-- The calls of `parse_content` in one call of `process_read`. -/
def contentCalls (c : HttpConn) : List ContentCall :=
  (Loop.states processReadBody (2 * (c.readIdx - c.checkedIdx) + 2)
    ⟨.lineOk, c⟩).filterMap contentCall

/-- One `read_once` and the call of `process_read` behind it, when both leave
the connection waiting for more bytes. -/
def readAgain (c : HttpConn) (os : List RecvOutcome) : Option HttpConn :=
  match readOnce c os with
  | some (true, c) =>
      match processReadLoop c with
      | .ok (.returned .noRequest c) => some c
      | _ => none
  | _ => none

/-- The calls of `parse_content` behind one `read_once`. -/
def readContentCalls (c : HttpConn) (os : List RecvOutcome) : List ContentCall :=
  match readOnce c os with
  | some (true, c) => contentCalls c
  | _ => []

/-- The calls of `parse_content` while a request is read. -/
def requestContentCalls (c : HttpConn) :
    List (List RecvOutcome) → List ContentCall
  | [] => []
  | os :: rest =>
      readContentCalls c os ++
        match readAgain c os with
        | some c => requestContentCalls c rest
        | none => []

/-- What `recv` may answer when `room` bytes of the buffer are free: a count is
positive and at most the length it was given. -/
def RecvFits : Nat → List RecvOutcome → Prop
  | room, .data d :: rest =>
      0 < d.length ∧ d.length ≤ room ∧ RecvFits (room - d.length) rest
  | _, _ => True

/-- Every `read_once` of the request has possible `recv` outcomes. -/
def ReadsFit (c : HttpConn) : List (List RecvOutcome) → Prop
  | [] => True
  | os :: rest =>
      RecvFits (READ_BUFFER_SIZE - c.readIdx) os ∧
        ∀ c' ∈ readAgain c os, ReadsFit c' rest

instance RecvFits.decide : ∀ (room : Nat) (os : List RecvOutcome),
    Decidable (RecvFits room os)
  | _, [] | _, .again :: _ | _, .error :: _ | _, .closed :: _ => .isTrue trivial
  | room, .data d :: rest =>
      haveI := RecvFits.decide (room - d.length) rest
      inferInstanceAs (Decidable (_ ∧ _ ∧ _))

instance ReadsFit.decide : ∀ (reads : List (List RecvOutcome)) (c : HttpConn),
    Decidable (ReadsFit c reads)
  | [], _ => .isTrue trivial
  | os :: rest, c =>
      haveI := ReadsFit.decide rest
      inferInstanceAs (Decidable (_ ∧ ∀ c' ∈ readAgain c os, ReadsFit c' rest))

/-- The call that `contentCall` names is the one the loop body makes. -/
theorem processReadBody_contentCall {s : ReadState} {call : ContentCall}
    (h : contentCall s = some call) :
    processReadBody s = afterContent (parseContent call.conn call.text) := by
  unfold contentCall at h
  rw [processReadBody_eq]
  split at h
  · rename_i hc
    rw [if_pos hc, dispatchLine_content hc.1, ← Option.some.inj h]
    rfl
  · rename_i hc
    rw [if_neg hc]
    split at h
    · rename_i c hline
      split at h
      · rename_i hstate
        rw [hline, ← Option.some.inj h]
        exact dispatchLine_content hstate
      · cases h
    · cases h

/-! ## What a call must do -/

/-- The sum of `parse_content` is a 32-bit sum without overflow, and the
terminator is stored at or behind `text`, inside the buffer. -/
def ContentCall.Ok (call : ContentCall) : Prop :=
  call.conn.contentLength + call.conn.checkedIdx ≤ INT_MAX ∧
  -2147483648 ≤ call.conn.contentLength + call.conn.checkedIdx ∧
  (wrap32 (call.conn.contentLength + call.conn.checkedIdx) ≤ call.conn.readIdx →
    (call.text : Int) ≤ call.text + call.conn.contentLength ∧
      call.text + call.conn.contentLength ≤ (READ_BUFFER_SIZE : Int) - 1)

/-- The content length is not negative, leaves room for `m_checked_idx` in an
`int`, and is not that of a body that ends with the last byte of the buffer. -/
def ContentCall.LengthInRange (call : ContentCall) : Prop :=
  0 ≤ call.conn.contentLength ∧
  call.conn.contentLength ≤ INT_MAX - call.conn.checkedIdx ∧
  ¬(call.text = call.conn.checkedIdx ∧
    call.text + call.conn.contentLength = READ_BUFFER_SIZE ∧
    call.conn.readIdx = READ_BUFFER_SIZE)

instance (call : ContentCall) : Decidable call.Ok := by
  unfold ContentCall.Ok
  infer_instance

instance (call : ContentCall) : Decidable call.LengthInRange := by
  unfold ContentCall.LengthInRange
  infer_instance

/-- The scanner indices are in order and inside the buffer, and
`m_content_length` is an `int`. -/
structure InBuffer (c : HttpConn) : Prop where
  start : c.startLine ≤ c.checkedIdx
  checked : c.checkedIdx ≤ c.readIdx
  read : c.readIdx ≤ READ_BUFFER_SIZE
  lengthLo : -2147483648 ≤ c.contentLength
  lengthHi : c.contentLength ≤ INT_MAX

/-- A call of `parse_content` is safe exactly when its content length is in
range. -/
theorem contentOk_iff {c : HttpConn} (h : InBuffer c) :
    (contentCallOf c).Ok ↔ (contentCallOf c).LengthInRange := by
  obtain ⟨hstart, hchecked, hread, hlo, hhi⟩ := h
  simp only [ContentCall.Ok, ContentCall.LengthInRange, contentCallOf, getLine]
  simp only [READ_BUFFER_SIZE, INT_MAX] at *
  constructor
  · rintro ⟨hmax, hmin, hstore⟩
    rw [wrap32_of_range hmin hmax] at hstore
    refine ⟨?_, by omega, ?_⟩
    · -- with a negative length the test always succeeds
      by_contra hneg
      have := hstore (by omega)
      omega
    · rintro ⟨htext, hend, hfull⟩
      have := hstore (by omega)
      omega
  · rintro ⟨hpos, hmax, hfull⟩
    refine ⟨by omega, by omega, ?_⟩
    rw [wrap32_of_range (by omega) (by simp only [INT_MAX]; omega)]
    intro htest
    refine ⟨by omega, ?_⟩
    by_contra hout
    exact hfull ⟨by omega, by omega, by omega⟩

/-! ## The invariant -/

theorem inBuffer_init (c : HttpConn) : InBuffer c.init :=
  ⟨Nat.le_refl _, Nat.le_refl _, Nat.zero_le _, by simp [init], by simp [init, INT_MAX]⟩

/-- Connections with the same indices and the same content length. -/
theorem InBuffer.congr {c c' : HttpConn} (h : InBuffer c) (hidx : SameIndices c c')
    (hlen : c'.contentLength = c.contentLength) : InBuffer c' := by
  obtain ⟨hread, hchecked, hstart⟩ := hidx
  exact ⟨by rw [hstart, hchecked]; exact h.start, by rw [hchecked, hread]; exact h.checked,
    by rw [hread]; exact h.read, by rw [hlen]; exact h.lengthLo,
    by rw [hlen]; exact h.lengthHi⟩

theorem InBuffer.setLine {c : HttpConn} (h : InBuffer c) :
    InBuffer { c with startLine := c.checkedIdx } :=
  ⟨Nat.le_refl _, h.checked, h.read, h.lengthLo, h.lengthHi⟩

theorem InBuffer.parseLine {c : HttpConn} (h : InBuffer c) :
    InBuffer (parseLine c).2 := by
  obtain ⟨hge, hle⟩ := LineBuf.parseLine_bounds (b := c.lineBuf) h.checked
  exact ⟨h.start.trans hge, hle, h.read, h.lengthLo, h.lengthHi⟩

theorem parseRequestLine_contentLength {c c' : HttpConn} {text : Nat}
    {code : HttpCode} (h : parseRequestLine c text = .ok (code, c')) :
    c'.contentLength = c.contentLength := by
  cases parseRequestLine_parsed h with
  | unknown b url => rfl
  | get ht => cases ht <;> rfl
  | post ht => cases ht <;> rfl

theorem parseContent_contentLength {c c' : HttpConn} {text : Nat} {code : HttpCode}
    (h : parseContent c text = .ok (code, c')) : c'.contentLength = c.contentLength := by
  unfold parseContent at h
  simp only at h
  split_ifs at h <;> cases h <;> rfl

theorem wrap32_range (x : Int) : -2147483648 ≤ wrap32 x ∧ wrap32 x ≤ INT_MAX := by
  simp only [wrap32, INT_MAX, Int.bmod_def]
  omega

theorem InBuffer.parseHeaders {c : HttpConn} (h : InBuffer c) (text : Nat) :
    InBuffer (parseHeaders c text).2 := by
  have hlength : ∀ mem, -2147483648 ≤ atoi mem ∧ atoi mem ≤ INT_MAX :=
    fun mem => wrap32_range _
  obtain ⟨hstart, hchecked, hread, hlo, hhi⟩ := h
  unfold Post.parseHeaders
  simp only
  split_ifs <;>
    first
    | exact ⟨hstart, hchecked, hread, hlo, hhi⟩
    | exact ⟨hstart, hchecked, hread, (hlength _).1, (hlength _).2⟩

theorem loopInv_inBuffer : LoopInv InBuffer where
  parseLine h := h.parseLine
  setLine h := h.setLine
  requestLine h _ hp _ := h.congr (parseRequestLine_indices hp) (parseRequestLine_contentLength hp)
  headers text h _ := h.parseHeaders text
  content h _ hp := h.congr (parseContent_indices hp) (parseContent_contentLength hp)

/-- A call of `process_read` that waits for more bytes keeps the invariant. -/
theorem InBuffer.processReadLoop {c c' : HttpConn} (h : InBuffer c)
    (hs : processReadLoop c = .ok (.returned .noRequest c')) : InBuffer c' :=
  loopInv_inBuffer.processReadLoop h hs (by decide)

/-- A `read_once` keeps the invariant: no byte is stored behind the buffer. -/
theorem InBuffer.readLoop (os : List RecvOutcome) : ∀ {c c' : HttpConn} {ok : Bool},
    InBuffer c → RecvFits (READ_BUFFER_SIZE - c.readIdx) os →
    readLoop c os = some (ok, c') → InBuffer c' := by
  induction os with
  | nil =>
      intro c c' ok _ _ hr
      cases hr
  | cons o os ih =>
      intro c c' ok h hfit hr
      unfold Post.readLoop at hr
      unfold RecvFits at hfit
      cases o with
      | data d =>
          obtain ⟨-, hroom, hfit⟩ := hfit
          have hread := h.read
          have hrecv : InBuffer (c.recv d) :=
            ⟨h.start, Nat.le_add_right_of_le h.checked,
              show c.readIdx + d.length ≤ _ by omega, h.lengthLo, h.lengthHi⟩
          have hrest : READ_BUFFER_SIZE - (c.recv d).readIdx =
              READ_BUFFER_SIZE - c.readIdx - d.length := by
            simp only [recv]
            omega
          exact ih hrecv (hrest ▸ hfit) hr
      | again => cases hr; exact h
      | error => cases hr; exact h
      | closed => cases hr; exact h

theorem InBuffer.readOnce {c c' : HttpConn} {os : List RecvOutcome} {ok : Bool}
    (h : InBuffer c) (hfit : RecvFits (READ_BUFFER_SIZE - c.readIdx) os)
    (hr : readOnce c os = some (ok, c')) : InBuffer c' := by
  unfold Post.readOnce at hr
  split at hr
  · cases hr
    exact h
  · exact h.readLoop os hfit hr

/-- Every call of `parse_content` is made on indices inside the buffer. -/
theorem InBuffer.contentCalls {c : HttpConn} (h : InBuffer c) :
    ∀ call ∈ contentCalls c, ∃ c', InBuffer c' ∧ call = contentCallOf c' := by
  intro call hcall
  obtain ⟨s, hs, hcall⟩ := List.mem_filterMap.mp hcall
  have hinv : InBuffer s.conn :=
    Loop.states_invariant (fun s => InBuffer s.conn)
      (fun _ _ hinv hb => loopInv_inBuffer.next hinv hb)
      (show InBuffer (Common.ReadState.mk .lineOk c).conn from h) s hs
  unfold contentCall at hcall
  split at hcall
  · cases hcall
    exact ⟨s.conn, hinv, rfl⟩
  · have hline := hinv.parseLine
    split at hcall
    · rename_i c' hp
      rw [hp] at hline
      split at hcall
      · cases hcall
        exact ⟨c', hline, rfl⟩
      · cases hcall
    · cases hcall

theorem InBuffer.readAgain {c c' : HttpConn} {os : List RecvOutcome} (h : InBuffer c)
    (hfit : RecvFits (READ_BUFFER_SIZE - c.readIdx) os)
    (hr : readAgain c os = some c') : InBuffer c' := by
  unfold Post.readAgain at hr
  split at hr
  · rename_i d hread
    split at hr
    · rename_i d' hp
      cases hr
      exact (h.readOnce hfit hread).processReadLoop hp
    · cases hr
  · cases hr

theorem InBuffer.readContentCalls {c : HttpConn} {os : List RecvOutcome} (h : InBuffer c)
    (hfit : RecvFits (READ_BUFFER_SIZE - c.readIdx) os) :
    ∀ call ∈ readContentCalls c os, ∃ c', InBuffer c' ∧ call = contentCallOf c' := by
  intro call hcall
  unfold Post.readContentCalls at hcall
  split at hcall
  · rename_i d hread
    exact (h.readOnce hfit hread).contentCalls call hcall
  · exact absurd hcall List.not_mem_nil

theorem InBuffer.requestContentCalls (reads : List (List RecvOutcome)) :
    ∀ {c : HttpConn}, InBuffer c → ReadsFit c reads →
    ∀ call ∈ requestContentCalls c reads, ∃ c', InBuffer c' ∧ call = contentCallOf c' := by
  induction reads with
  | nil =>
      intro c _ _ call hcall
      unfold Post.requestContentCalls at hcall
      exact absurd hcall List.not_mem_nil
  | cons os reads ih =>
      intro c h hfit call hcall
      unfold Post.requestContentCalls at hcall
      obtain ⟨hrecv, hrest⟩ := hfit
      rcases List.mem_append.mp hcall with hcall | hcall
      · exact h.readContentCalls hrecv call hcall
      · split at hcall
        · rename_i c' hr
          exact ih (h.readAgain hrecv hr) (hrest c' hr) call hcall
        · exact absurd hcall List.not_mem_nil

/-! ## All the calls of a request -/

/-- A form in two parts, cut in front of its body. -/
def formReads : List (List RecvOutcome) :=
  [[.data (ascii "POST /2 HTTP/1.1\r\nContent-length: 17\r\n\r\n"), .again],
    [.data (ascii "user=a&"), .data (ascii "password=b"), .again]]

/-- A request whose header announces a body of `-5` bytes. -/
def negativeReads : List (List RecvOutcome) :=
  [[.data (ascii "POST / HTTP/1.1\r\nContent-length: -5\r\n\r\n"), .again]]

/-- While a request is read, under every segmentation, the calls of
`parse_content` are safe exactly when every content length they are made with is
in range. -/
theorem requestContentCalls_ok_iff (c : HttpConn) (reads : List (List RecvOutcome))
    (hfit : ReadsFit c.init reads) :
    (∀ call ∈ requestContentCalls c.init reads, call.Ok) ↔
      ∀ call ∈ requestContentCalls c.init reads, call.LengthInRange := by
  have hinv := (inBuffer_init c).requestContentCalls reads hfit
  constructor <;> intro h call hcall
  · obtain ⟨c', hc', rfl⟩ := hinv call hcall
    exact (contentOk_iff hc').mp (h _ hcall)
  · obtain ⟨c', hc', rfl⟩ := hinv call hcall
    exact (contentOk_iff hc').mpr (h _ hcall)

theorem formReads_ok :
    (requestContentCalls HttpConn.blank.init formReads).length = 2 ∧
    ∀ call ∈ requestContentCalls HttpConn.blank.init formReads, call.Ok :=
  ⟨by decide,
    (requestContentCalls_ok_iff HttpConn.blank formReads (by decide)).mpr
      (by decide)⟩

/-- A negative content length puts the terminator before `text`. -/
theorem not_negativeReads_ok :
    ReadsFit HttpConn.blank.init negativeReads ∧
    ¬ ∀ call ∈ requestContentCalls HttpConn.blank.init negativeReads, call.Ok :=
  ⟨by decide, by decide⟩

end EasyWebServer.Post
