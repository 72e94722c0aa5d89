import EasyWebServer.Post.ContentLength
import EasyWebServer.Post.Frame
import EasyWebServer.Post.Process

/-!
# The scanner indices

`InBuffer`, the order of `m_start_line`, `m_checked_idx` and `m_read_idx`, through everything that
happens to a connection object: the calls of the main loop and of the workers, for every byte
stream and every segmentation of it.

`ParserHistory` lists these calls.  `inBuffer_of_history` is the invariant, and
`parserSafe_of_history` is what it means for a call of `process_read`: the loop ends, the indices
are in order around every iteration, and `parse_line` stays below `m_read_idx`
(`parseLineChecked`).
-/

namespace EasyWebServer.Post

open CString CInt HttpConn Common

/-! ## parse_line with checked accesses -/

/-- `m_read_buf[i]`, for an index below `m_read_idx` only. -/
def loadRead (c : HttpConn) (i : Nat) : Except Fault UInt8 :=
  if i < c.readIdx then .ok (c.readBuf.get i) else .error .outOfBounds

/-- `m_read_buf[i] = b`, for an index below `m_read_idx` only. -/
def storeRead (c : HttpConn) (i : Nat) (b : UInt8) : Except Fault HttpConn :=
  if i < c.readIdx then .ok (c.store i b) else .error .outOfBounds

/-- The loop of `parse_line` that stops at an access at or behind `m_read_idx`. -/
def parseLineCheckedFrom : Nat → HttpConn → Except Fault (LineStatus × HttpConn)
  | 0, c => .ok (.lineOpen, c)
  | n + 1, c => do
      let temp ← loadRead c c.checkedIdx
      if temp = CR then
        if c.checkedIdx + 1 = c.readIdx then .ok (.lineOpen, c)
        else do
          let following ← loadRead c (c.checkedIdx + 1)
          if following = LF then do
            let c' ← storeRead c c.checkedIdx NUL
            let c' ← storeRead c' (c.checkedIdx + 1) NUL
            .ok (.lineOk, { c' with checkedIdx := c.checkedIdx + 2 })
          else .ok (.lineBad, c)
      else if temp = LF then
        if 1 < c.checkedIdx then do
          let before ← loadRead c (c.checkedIdx - 1)
          if before = CR then do
            let c' ← storeRead c (c.checkedIdx - 1) NUL
            let c' ← storeRead c' c.checkedIdx NUL
            .ok (.lineOk, { c' with checkedIdx := c.checkedIdx + 1 })
          else .ok (.lineBad, c)
        else .ok (.lineBad, c)
      else parseLineCheckedFrom n { c with checkedIdx := c.checkedIdx + 1 }

/-- `parse_line` that stops at an access at or behind `m_read_idx`. -/
def parseLineChecked (c : HttpConn) : Except Fault (LineStatus × HttpConn) :=
  parseLineCheckedFrom (c.readIdx - c.checkedIdx) c

theorem loadRead_eq {c : HttpConn} {i : Nat} (h : i < c.readIdx) :
    loadRead c i = .ok (c.readBuf.get i) := if_pos h

theorem storeRead_eq {c : HttpConn} {i : Nat} (h : i < c.readIdx) (b : UInt8) :
    storeRead c i b = .ok (c.store i b) := if_pos h

theorem ok_bind {α β : Type} (a : α) (f : α → Except Fault β) : (Except.ok a >>= f) = f a := rfl

private theorem parseLineCheckedFrom_eq (n : Nat) : ∀ (c : HttpConn)
    (r : LineStatus × LineBuf READ_BUFFER_SIZE), c.checkedIdx + n = c.readIdx →
    LineBuf.parseLineFrom n c.lineBuf = r →
      parseLineCheckedFrom n c = .ok (r.1, c.withLine r.2) := by
  induction n with
  | zero =>
      intro c r _ hr
      subst hr
      rfl
  | succ n ih =>
      intro c r hn hr
      have hstore : ∀ {i j : Nat}, i < c.readIdx → j < c.readIdx → ∀ f : HttpConn → Except Fault _,
          (storeRead c i NUL >>= fun c' => storeRead c' j NUL >>= f) =
            (f ((c.store i NUL).store j NUL) : Except Fault (LineStatus × HttpConn)) := by
        intro i j hi hj f
        have hj' : j < (c.store i NUL).readIdx := hj
        rw [storeRead_eq hi, ok_bind, storeRead_eq hj', ok_bind]
      rw [parseLineCheckedFrom, loadRead_eq (by omega), ok_bind]
      rw [LineBuf.parseLineFrom] at hr
      dsimp only at hr ⊢
      by_cases hcr : c.readBuf.get c.checkedIdx = CR
      · replace hr := (if_pos hcr).symm.trans hr
        rw [if_pos hcr]
        by_cases hlast : c.checkedIdx + 1 = c.readIdx
        · replace hr := (if_pos hlast).symm.trans hr
          rw [if_pos hlast]
          subst hr
          rfl
        · replace hr := (if_neg hlast).symm.trans hr
          rw [if_neg hlast, loadRead_eq (by omega), ok_bind]
          by_cases hlf : c.readBuf.get (c.checkedIdx + 1) = LF
          · replace hr := (if_pos hlf).symm.trans hr
            rw [if_pos hlf, hstore (by omega) (by omega)]
            subst hr
            rfl
          · replace hr := (if_neg hlf).symm.trans hr
            rw [if_neg hlf]
            subst hr
            rfl
      · replace hr := (if_neg hcr).symm.trans hr
        rw [if_neg hcr]
        by_cases hlf : c.readBuf.get c.checkedIdx = LF
        · replace hr := (if_pos hlf).symm.trans hr
          rw [if_pos hlf]
          by_cases hpos : 1 < c.checkedIdx
          · rw [if_pos hpos, loadRead_eq (by omega), ok_bind]
            by_cases hbefore : c.readBuf.get (c.checkedIdx - 1) = CR
            · replace hr := (if_pos ⟨hpos, hbefore⟩).symm.trans hr
              rw [if_pos hbefore, hstore (by omega) (by omega)]
              subst hr
              rfl
            · replace hr := (if_neg (fun h => hbefore h.2)).symm.trans hr
              rw [if_neg hbefore]
              subst hr
              rfl
          · replace hr := (if_neg (fun h => hpos h.1)).symm.trans hr
            rw [if_neg hpos]
            subst hr
            rfl
        · replace hr := (if_neg hlf).symm.trans hr
          rw [if_neg hlf]
          exact ih { c with checkedIdx := c.checkedIdx + 1 } r (by dsimp only; omega) hr

/-- `parse_line` makes no access at or behind `m_read_idx`. -/
theorem parseLineChecked_eq {c : HttpConn} (h : c.checkedIdx ≤ c.readIdx) :
    parseLineChecked c = .ok (parseLine c) :=
  parseLineCheckedFrom_eq _ c _ (by omega) rfl

/-! ## An iteration of process_read -/

/-- The indices are in order behind an iteration, and also when it leaves the loop. -/
def StepInBuffer : ReadState ⊕ Except Fault ReadExit → Prop
  | .inl s => InBuffer s.conn
  | .inr (.ok e) => InBuffer e.conn
  | .inr (.error _) => True

theorem stepInBuffer_afterRequestLine (st : LineStatus) {p : Except Fault (HttpCode × HttpConn)}
    (h : ∀ code c, p = .ok (code, c) → InBuffer c) : StepInBuffer (afterRequestLine st p) := by
  rcases p with f | ⟨code, c⟩
  · trivial
  · have hc := h code c rfl
    cases code <;> exact hc

theorem stepInBuffer_afterHeaders (st : LineStatus) {p : HttpCode × HttpConn}
    (h : InBuffer p.2) : StepInBuffer (afterHeaders st p) := by
  obtain ⟨code, c⟩ := p
  cases code <;> exact h

theorem stepInBuffer_afterContent {p : Except Fault (HttpCode × HttpConn)}
    (h : ∀ code c, p = .ok (code, c) → InBuffer c) : StepInBuffer (afterContent p) := by
  rcases p with f | ⟨code, c⟩
  · trivial
  · have hc := h code c rfl
    cases code <;> exact hc

theorem InBuffer.dispatchLine {s : ReadState} (h : InBuffer s.conn) :
    StepInBuffer (dispatchLine s) := by
  have hline := h.setLine
  rcases hstate : s.conn.checkState with _ | _ | _
  · rw [dispatchLine_requestLine hstate]
    apply stepInBuffer_afterRequestLine
    intro code c hp
    exact hline.congr (parseRequestLine_indices hp) (parseRequestLine_contentLength hp)
  · rw [dispatchLine_header hstate]
    exact stepInBuffer_afterHeaders _ (hline.parseHeaders _)
  · rw [dispatchLine_content hstate]
    apply stepInBuffer_afterContent
    intro code c hp
    exact hline.congr (parseContent_indices hp) (parseContent_contentLength hp)

theorem InBuffer.processReadBody {s : ReadState} (h : InBuffer s.conn) :
    StepInBuffer (processReadBody s) := by
  rw [processReadBody_eq]
  split
  · exact h.dispatchLine
  · have hline := h.parseLine
    split
    · rename_i c hp
      rw [hp] at hline
      exact InBuffer.dispatchLine (s := ⟨.lineOk, c⟩) hline
    · rename_i c hne hp
      rw [hp] at hline
      exact hline

/-- The indices are in order when `process_read` leaves its loop, with whatever code. -/
theorem InBuffer.exit {c : HttpConn} {e : ReadExit} (h : InBuffer c)
    (he : Post.processReadLoop c = .ok e) : InBuffer e.conn := by
  have hret : Loop.Returns Post.processReadBody ⟨.lineOk, c⟩ (Post.processReadLoop c) :=
    readFrom_returns _
  refine hret.invariant (fun s => InBuffer s.conn) (fun r => ∀ e, r = .ok e → InBuffer e.conn) h
    ?_ ?_ e he
  · intro s s' hs hb
    have hstep := hs.processReadBody
    rw [hb] at hstep
    exact hstep
  · intro s r hs hb e hr
    have hstep := hs.processReadBody
    rw [hb, hr] at hstep
    exact hstep

/-! ## The calls behind the loop -/

theorem ResponseWritten.inBuffer {c c' : HttpConn} (h : ResponseWritten c c') (hc : InBuffer c) :
    InBuffer c' := by
  cases h
  exact ⟨hc.start, hc.checked, hc.read, hc.lengthLo, hc.lengthHi⟩

theorem InBuffer.doRequest {w w' : World} {c c' : HttpConn} {code : HttpCode} (h : InBuffer c)
    (hreq : doRequest w c = .ok (code, c', w')) : InBuffer c' := by
  cases doRequest_served hreq
  exact ⟨h.start, h.checked, h.read, h.lengthLo, h.lengthHi⟩

theorem InBuffer.processRead {w w' : World} {c c' : HttpConn} {code : HttpCode} (h : InBuffer c)
    (hread : processRead w c = .ok (code, c', w')) : InBuffer c' := by
  unfold Post.processRead at hread
  rcases hloop : Post.processReadLoop c with f | e
  · rw [hloop] at hread
    cases hread
  · have hexit := h.exit hloop
    rw [hloop] at hread
    cases e with
    | returned code₁ d =>
        cases hread
        exact hexit
    | request d => exact InBuffer.doRequest hexit hread

theorem InBuffer.process {w w' : World} {c c' : HttpConn} {ops : List SockOp} (h : InBuffer c)
    (hprocess : process w c = .ok (ops, c', w')) : InBuffer c' := by
  unfold Post.process at hprocess
  split at hprocess
  · cases hprocess
  · rename_i hread
    cases hprocess
    exact h.processRead hread
  · rename_i code d v hne hread
    cases hprocess
    exact (processWrite_written d code).inBuffer (h.processRead hread)

theorem InBuffer.unmap {c : HttpConn} (h : InBuffer c) : InBuffer (unmap c) := by
  obtain ⟨hstart, hchecked, hread, hlo, hhi⟩ := h
  unfold Post.unmap
  split_ifs <;> exact ⟨hstart, hchecked, hread, hlo, hhi⟩

theorem InBuffer.advance {c : HttpConn} (h : InBuffer c) (temp : Int) :
    InBuffer (advance c temp) := by
  obtain ⟨hstart, hchecked, hread, hlo, hhi⟩ := h
  unfold Post.advance
  simp only
  split_ifs <;> exact ⟨hstart, hchecked, hread, hlo, hhi⟩

/-- The indices are in order behind an iteration of the loop of `write`. -/
def WriteInBuffer : HttpConn ⊕ (WriteExit × HttpConn) → Prop
  | .inl c => InBuffer c
  | .inr r => InBuffer r.2

theorem InBuffer.writeIter {c : HttpConn} (h : InBuffer c) (o : WritevOutcome) :
    WriteInBuffer (writeIter c o) := by
  cases o with
  | again => exact h
  | error => exact h.unmap
  | sent t =>
      have hadvance := h.advance (wrap32 t)
      unfold Post.writeIter
      simp only
      split_ifs
      · exact inBuffer_init _
      · exact hadvance.unmap
      · exact hadvance

theorem InBuffer.writeLoop (os : List WritevOutcome) : ∀ {c c' : HttpConn} {e : WriteExit},
    InBuffer c → writeLoop c os = some (e, c') → InBuffer c' := by
  induction os with
  | nil =>
      intro c c' e h hloop
      cases hloop
  | cons o os ih =>
      intro c c' e h hloop
      have hiter := h.writeIter o
      rw [Post.writeLoop] at hloop
      split at hloop
      · rename_i c₁ hnext
        rw [hnext] at hiter
        exact ih hiter hloop
      · rename_i r hdone
        rw [hdone] at hiter
        cases hloop
        exact hiter

theorem InBuffer.write {c c' : HttpConn} {os : List WritevOutcome} {e : WriteExit}
    (h : InBuffer c) (hwrite : write c os = some (e, c')) : InBuffer c' := by
  unfold Post.write at hwrite
  split_ifs at hwrite
  · cases hwrite
    exact inBuffer_init c
  · exact h.writeLoop os hwrite

/-! ## Histories -/

/-- What an object has been through.  A `recv` answers with at most as many bytes as it was given
room for. -/
inductive ParserHistory : HttpConn → Prop where
  | new : ParserHistory HttpConn.blank
  | accept {c : HttpConn} (h : ParserHistory c) (sockfd : Nat) :
      ParserHistory (c.initSockfd sockfd)
  | read {c c' : HttpConn} {os : List RecvOutcome} {ok : Bool} (h : ParserHistory c)
      (hfit : RecvFits (READ_BUFFER_SIZE - c.readIdx) os)
      (hread : readOnce c os = some (ok, c')) : ParserHistory c'
  | process {w w' : World} {c c' : HttpConn} {ops : List SockOp} (h : ParserHistory c)
      (hprocess : process w c = .ok (ops, c', w')) : ParserHistory c'
  | write {c c' : HttpConn} {os : List WritevOutcome} {e : WriteExit} (h : ParserHistory c)
      (hwrite : write c os = some (e, c')) : ParserHistory c'
  | closeConn {c : HttpConn} (h : ParserHistory c) : ParserHistory { c with sockfd := none }

theorem inBuffer_of_history {c : HttpConn} (h : ParserHistory c) : InBuffer c := by
  induction h with
  | new => exact ⟨by decide, by decide, by decide, by decide, by decide⟩
  | accept _ sockfd _ => exact inBuffer_init _
  | read _ hfit hread ih => exact ih.readOnce hfit hread
  | process _ hprocess ih => exact ih.process hprocess
  | write _ hwrite ih => exact ih.write hwrite
  | closeConn _ ih => exact ⟨ih.start, ih.checked, ih.read, ih.lengthLo, ih.lengthHi⟩

/-- A call of `process_read` on the connection. -/
structure ParserSafe (c : HttpConn) : Prop where
  /-- The order of the indices before the call, hence also behind every `read_once`. -/
  indices : InBuffer c
  /-- The loop ends. -/
  terminates : Loop.Returns processReadBody ⟨.lineOk, c⟩ (processReadLoop c)
  /-- Every state in which the loop starts an iteration. -/
  before : ∀ s, Loop.Reaches processReadBody ⟨.lineOk, c⟩ s → InBuffer s.conn
  /-- What such an iteration leaves behind, also when it is the last one. -/
  after : ∀ s, Loop.Reaches processReadBody ⟨.lineOk, c⟩ s → StepInBuffer (processReadBody s)
  /-- The call of `parse_line` in such an iteration. -/
  accesses : ∀ s, Loop.Reaches processReadBody ⟨.lineOk, c⟩ s →
    parseLineChecked s.conn = .ok (parseLine s.conn)

/-- In every object that the server can have, after every byte stream in every segmentation. -/
theorem parserSafe_of_history {c : HttpConn} (h : ParserHistory c) : ParserSafe c := by
  have hc := inBuffer_of_history h
  have hreaches : ∀ s, Loop.Reaches processReadBody ⟨.lineOk, c⟩ s → InBuffer s.conn := by
    intro s hs
    refine hs.invariant (fun s => InBuffer s.conn) hc ?_
    intro s s' hinv hb
    have hstep := hinv.processReadBody
    rw [hb] at hstep
    exact hstep
  exact
    { indices := hc
      terminates := readFrom_returns _
      before := hreaches
      after := fun s hs => (hreaches s hs).processReadBody
      accesses := fun s hs => parseLineChecked_eq (hreaches s hs).checked }

/-- A request whose body is not complete, and holds a CR LF. -/
def formPart : Bytes := ascii "POST /2 HTTP/1.1\r\nContent-length: 17\r\n\r\nuser=a\r\n"

theorem parserSafe_form : ParserSafe ((HttpConn.blank.initSockfd 5).recv formPart) := by
  have hread : readOnce (HttpConn.blank.initSockfd 5) [.data formPart, .again] =
      some (true, (HttpConn.blank.initSockfd 5).recv formPart) := rfl
  exact parserSafe_of_history (.read (.accept .new 5) (by decide) hread)

end EasyWebServer.Post
