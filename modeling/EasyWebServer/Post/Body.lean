import EasyWebServer.Post.Segmentation

/-!
# The request body of the POST server

The body of a request may arrive in several chunks, the first of them together
with the headers.  `readCalls` is the run of the calls of `process_read` from
the moment `parse_headers` moves to `CHECK_STATE_CONTENT`: the rest of the call
that is running, and one call after each further chunk.

`parse_content` leaves `m_checked_idx` where the body starts, and compares
`m_content_length + m_checked_idx` with `m_read_idx`.  On a body that is not
complete, the condition of the loop then calls `parse_line`, which scans the
body as if it were a line and moves `m_checked_idx`.

* `Holds p` says that the scanner does not move on the received part `p` of a
  body: `parseLine_holds` and `parseLine_moves` are the two directions.
* `InBody` is the state of the parser while the scanner has not moved, and
  `Behind` is the state after it has.  From `Behind` no call reaches
  `do_request`, because the length test asks for bytes that never come.
* `readCalls_delivered` follows the two states over a whole run.
-/

namespace EasyWebServer.Post

open CString CInt HttpConn Common

/-! ## The calls for one body -/

/-- The calls of `process_read` up to `do_request`, from inside a call in the
state `c`: the rest of that call, and a call after each further chunk, until a
call does not return `NO_REQUEST`. -/
def readCalls (c : HttpConn) : List Bytes → Except Fault ReadExit
  | [] => processReadLoop c
  | d :: ds =>
      match processReadLoop c with
      | .ok (.returned .noRequest c') => readCalls (c'.recv d) ds
      | r => r

/-- The received bytes that the parser has not passed. -/
def pending (c : HttpConn) : Bytes :=
  c.readBuf.slice c.checkedIdx (c.readIdx - c.checkedIdx)

/-- One iteration of the loop of `process_read` moves the main state machine
from an earlier state to `CHECK_STATE_CONTENT`, in the state `c`. -/
def EntersBody (s : ReadState) (c : HttpConn) : Prop :=
  s.conn.checkState ≠ .content ∧ c.checkState = .content ∧
    processReadBody s = .inl ⟨.lineOk, c⟩

/-- The run delivers `body`, which starts at index `start`: every call before
the last chunk returns `NO_REQUEST`, and the last one calls `do_request` with
`m_string` at the body, its bytes unchanged, and a NUL behind them. -/
def BodyDelivered (start : Nat) (body : Bytes) (c : HttpConn) (ds : List Bytes) :
    Prop :=
  (∀ m, m < ds.length →
    ∃ c', readCalls c (ds.take m) = .ok (.returned .noRequest c')) ∧
  ∃ c', readCalls c ds = .ok (.request c') ∧ c'.string = some start ∧
    c'.readBuf.slice start body.length = body ∧
    c'.readBuf.get (start + body.length) = NUL

/-- `parse_line` does not move on the part `p` of a body.  Either nothing has
arrived, or the body starts with an LF, or it starts with a CR that no LF
follows in `p`. -/
def Holds : Bytes → Prop
  | [] => True
  | b :: rest => b = LF ∨ b = CR ∧ rest.head? ≠ some LF

instance (p : Bytes) : Decidable (Holds p) := by
  cases p <;> unfold Holds <;> infer_instance

/-- The calls for a body are the calls that `feed` makes. -/
theorem feed_eq_readCalls (w : World) (ds : List Bytes) : ∀ (c : HttpConn) (d : Bytes),
    feed w c (d :: ds) = finishRead w (readCalls (c.recv d) ds) := by
  induction ds with
  | nil =>
    intro c d
    rw [feed, readCalls, processRead]
    split
    · rename_i c' w' h
      obtain ⟨-, rfl⟩ := processRead_noRequest h
      exact h.symm
    · rfl
  | cons d' ds ih =>
    intro c d
    rw [feed, readCalls]
    split
    · rename_i c' w' h
      rw [(processRead_noRequest h).1, ih]
    · rename_i hno
      split
      · rename_i c' h
        exact absurd (by rw [processRead, h]; rfl) (hno c' w)
      · rfl

/-! ## Entering the body -/

/-- The parser while the scanner has not moved from the start of the body: `p`
has arrived, of `n` bytes. -/
structure InBody (n : Nat) (p : Bytes) (c : HttpConn) : Prop where
  state : c.checkState = .content
  line : c.startLine = c.checkedIdx
  length : c.contentLength = n
  read : c.readIdx = c.checkedIdx + p.length
  bytes : c.readBuf.slice c.checkedIdx p.length = p
  pos : 0 < c.checkedIdx
  before : c.readBuf.get (c.checkedIdx - 1) = NUL
  room : c.checkedIdx + n < READ_BUFFER_SIZE

/-- A complete line ends with two NULs, the second of them before
`m_checked_idx`. -/
theorem parseLine_ok_nul {c c' : HttpConn} (h : parseLine c = (.lineOk, c'))
    (hle : c.readIdx ≤ READ_BUFFER_SIZE) :
    c'.readBuf.get (c'.checkedIdx - 1) = NUL := by
  have hadv := parseLine_ok_advance h
  obtain ⟨i, h1, h2, -, hscan⟩ := parseLine_scan (c := c) (by omega)
  rw [h] at hscan
  cases hscan with
  | crlf hi _ _ =>
    simp only [store, show i + 2 - 1 = i + 1 by omega]
    exact CharBuf.get_set_self _ _ (by omega)
  | lfAfterCr hi _ _ =>
    simp only [store, Nat.add_sub_cancel]
    exact CharBuf.get_set_self _ _ (by omega)

/-- A request line that is accepted moves to `CHECK_STATE_HEADER`. -/
theorem parseRequestLine_state {c c' : HttpConn} {text : Nat} {code : HttpCode}
    (h : parseRequestLine c text = .ok (code, c')) :
    code = .badRequest ∨ c'.checkState = .header := by
  cases parseRequestLine_parsed h with
  | unknown b url => exact Or.inl rfl
  | get ht =>
    cases ht with
    | refused b url version => exact Or.inl rfl
    | accepted b url version => exact Or.inr rfl
  | post ht =>
    cases ht with
    | refused b url version => exact Or.inl rfl
    | accepted b url version => exact Or.inr rfl

/-- `parse_headers` moves to `CHECK_STATE_CONTENT` at a blank line, when the
length is not zero. -/
theorem parseHeaders_enters {c c' : HttpConn} {text : Nat} {code : HttpCode}
    (h : parseHeaders c text = (code, c')) (hs : c.checkState ≠ .content)
    (hs' : c'.checkState = .content) :
    c.contentLength ≠ 0 ∧ c' = { c with checkState := .content } := by
  unfold parseHeaders at h
  simp only at h
  split_ifs at h with h1 h2 <;> cases h
  · exact ⟨h2, rfl⟩
  all_goals exact absurd hs' hs

/-- Only `parse_headers` moves to `CHECK_STATE_CONTENT`. -/
theorem dispatchLine_enters {c c' : HttpConn} {st st' : LineStatus}
    (h : dispatchLine ⟨st, c⟩ = .inl ⟨st', c'⟩) (hs : c.checkState ≠ .content)
    (hs' : c'.checkState = .content) :
    c.contentLength ≠ 0 ∧
      c' = { c with startLine := c.checkedIdx, checkState := .content } := by
  cases hstate : c.checkState with
  | requestLine =>
    rw [dispatchLine_requestLine (s := ⟨st, c⟩) hstate] at h
    dsimp only at h
    rcases hp : parseRequestLine { c with startLine := c.checkedIdx } c.getLine with f | ⟨code, c₁⟩
    · rw [hp] at h
      cases h
    · rw [hp] at h
      rcases parseRequestLine_state hp with rfl | hhead
      · cases h
      · cases code <;> cases h <;> exact absurd (hhead.symm.trans hs') (by decide)
  | header =>
    rw [dispatchLine_header (s := ⟨st, c⟩) hstate] at h
    dsimp only at h
    rcases hp : parseHeaders { c with startLine := c.checkedIdx } c.getLine with ⟨code, c₁⟩
    rw [hp] at h
    cases code <;> cases h <;> exact parseHeaders_enters hp hs hs'
  | content => exact absurd hstate hs

/-- The parser that enters the body has not moved from its start. -/
theorem EntersBody.inBody {s : ReadState} {c : HttpConn} (h : EntersBody s c)
    {n : Nat} (hn : (pending c).length ≤ n) (hlen : c.contentLength = n)
    (hroom : c.checkedIdx + n < READ_BUFFER_SIZE) :
    InBody n (pending c) c ∧ 0 < n := by
  obtain ⟨hs, hs', hb⟩ := h
  rw [processReadBody_eq, if_neg (fun hc => hs hc.1)] at hb
  split at hb
  · rename_i c₁ hp
    have hstate : c₁.checkState ≠ .content := by
      have hkeep := parseLine_checkState s.conn
      rw [hp] at hkeep
      exact fun hc => hs (hkeep ▸ hc)
    obtain ⟨hpos, rfl⟩ := dispatchLine_enters hb hstate hs'
    obtain ⟨hadv, hck, hidx⟩ := parseLine_ok_advance hp
    have hpend : (pending { c₁ with startLine := c₁.checkedIdx, checkState := .content }).length =
        min (c₁.readIdx - c₁.checkedIdx) (READ_BUFFER_SIZE - c₁.checkedIdx) := by
      rw [pending, CharBuf.slice, List.length_take, CharBuf.view_length]
    simp only at hlen hroom
    have hread : (pending { c₁ with startLine := c₁.checkedIdx, checkState := .content }).length =
        c₁.readIdx - c₁.checkedIdx := by
      omega
    have hnul := parseLine_ok_nul hp (by omega)
    refine ⟨⟨rfl, rfl, hlen, by simp only; omega, ?_, by simp only; omega, hnul, hroom⟩,
      by omega⟩
    rw [hread]
    rfl
  · cases hb

/-! ## The scanner inside the body -/

namespace InBody

variable {n : Nat} {p : Bytes} {c : HttpConn}

/-- The received bytes of the body. -/
theorem get_body (h : InBody n p c) (hp : p.length ≤ n) {j : Nat} (hj : j < p.length) :
    c.readBuf.get (c.checkedIdx + j) = p[j] := by
  have hroom := h.room
  have hget := CharBuf.slice_getElem? c.readBuf (i := c.checkedIdx) (n := p.length) (j := j) hj
    (by omega)
  rw [h.bytes, List.getElem?_eq_getElem hj] at hget
  exact (Option.some.inj hget).symm

/-- On a part of a body where it holds, `parse_line` finds no line and changes
nothing. -/
theorem parseLine_holds (h : InBody n p c) (hp : p.length ≤ n) (hold : Holds p) :
    ∃ st, st ≠ LineStatus.lineOk ∧ parseLine c = (st, c) := by
  have hread := h.read
  obtain ⟨i, h1, h2, hplain, hscan⟩ := parseLine_scan (c := c) (by omega)
  -- the scan ends where it starts
  obtain rfl : i = c.checkedIdx := by
    by_contra hne
    have hfirst := hplain c.checkedIdx (Nat.le_refl _) (by omega)
    cases p with
    | nil =>
      rw [List.length_nil] at hread
      omega
    | cons b rest =>
      have hb := h.get_body hp (j := 0) (by simp)
      simp only [Nat.add_zero, List.getElem_cons_zero] at hb
      rw [hb] at hfirst
      rcases hold with rfl | ⟨rfl, -⟩
      · exact hfirst.2 rfl
      · exact hfirst.1 rfl
  generalize parseLine c = r at hscan
  cases hscan with
  | exhausted _ => exact ⟨.lineOpen, by decide, rfl⟩
  | lastCr _ _ => exact ⟨.lineOpen, by decide, rfl⟩
  | strayCr _ _ _ => exact ⟨.lineBad, by decide, rfl⟩
  | strayLf _ _ _ => exact ⟨.lineBad, by decide, rfl⟩
  | lfAfterCr _ _ hcr =>
    rw [h.before] at hcr
    exact absurd hcr.2 (by decide)
  | crlf hi hcr hlf =>
    obtain ⟨b, b', rest, rfl⟩ : ∃ b b' rest, p = b :: b' :: rest := by
      match p, hread with
      | [], hread | [_], hread => simp only [List.length_nil, List.length_singleton] at hread; omega
      | b :: b' :: rest, _ => exact ⟨b, b', rest, rfl⟩
    have hb := h.get_body hp (j := 0) (by simp)
    have hb' := h.get_body hp (j := 1) (by simp)
    simp only [Nat.add_zero, List.getElem_cons_succ, List.getElem_cons_zero] at hb hb'
    rw [hcr] at hb
    rw [hlf] at hb'
    subst hb hb'
    rcases hold with hlf | ⟨-, hrest⟩
    · exact absurd hlf (by decide)
    · exact absurd rfl hrest

/-- On every other part of a body, `parse_line` moves `m_checked_idx`. -/
theorem parseLine_moves (h : InBody n p c) (hp : p.length ≤ n) (hold : ¬Holds p) :
    c.checkedIdx < (parseLine c).2.checkedIdx := by
  have hread := h.read
  obtain ⟨i, h1, h2, -, hscan⟩ := parseLine_scan (c := c) (by omega)
  rcases Nat.eq_or_lt_of_le h1 with rfl | hlt
  · -- the body starts with a CR or an LF, or it is empty
    cases p with
    | nil => exact absurd trivial hold
    | cons b rest =>
      rw [List.length_cons] at hread
      have hb := h.get_body hp (j := 0) (by simp)
      simp only [Nat.add_zero, List.getElem_cons_zero] at hb
      generalize parseLine c = r at hscan ⊢
      cases hscan with
      | exhausted hi => omega
      | lastCr hi hcr =>
        have hrest : rest = [] := List.eq_nil_of_length_eq_zero (by omega)
        subst hrest
        exact absurd (Or.inr ⟨hb ▸ hcr, by simp⟩) hold
      | crlf _ _ _ => simp only; omega
      | strayCr hi hcr hlf =>
        refine absurd (Or.inr ⟨hb ▸ hcr, ?_⟩) hold
        cases rest with
        | nil => simp
        | cons b' rest =>
          have hb' := h.get_body hp (j := 1) (by simp)
          simp only [List.getElem_cons_succ, List.getElem_cons_zero] at hb'
          rw [hb'] at hlf
          simpa using hlf
      | lfAfterCr _ _ _ => simp only; omega
      | strayLf _ hlf _ => exact absurd (Or.inl (hb ▸ hlf)) hold
  · generalize parseLine c = r at hscan ⊢
    cases hscan <;> simp only <;> omega

end InBody

/-! ## A scanner that has moved -/

/-- The parser after the scanner has moved into the body: the length test asks
for bytes behind the body, which ends at `stop`. -/
structure Behind (n stop : Nat) (c : HttpConn) : Prop where
  state : c.checkState = .content
  length : c.contentLength = n
  missing : stop < c.checkedIdx + n
  checked_le : c.checkedIdx ≤ c.readIdx
  read_le : c.readIdx ≤ stop
  stop_lt : stop < READ_BUFFER_SIZE
  length_le : n ≤ stop

/-- The members that every exit of `parse_line` keeps. -/
theorem parseLine_frame {c : HttpConn} (h : c.checkedIdx ≤ c.readIdx) :
    (parseLine c).2.checkState = c.checkState ∧
      (parseLine c).2.contentLength = c.contentLength ∧
      (parseLine c).2.readIdx = c.readIdx ∧
      c.checkedIdx ≤ (parseLine c).2.checkedIdx ∧
      (parseLine c).2.checkedIdx ≤ c.readIdx :=
  ⟨rfl, rfl, rfl, LineBuf.parseLine_bounds (b := c.lineBuf) h⟩

/-- `parse_content` on a body that is not complete. -/
theorem dispatchLine_incomplete {c : HttpConn} {n : Nat} (st : LineStatus)
    (hs : c.checkState = .content) (hlen : c.contentLength = n)
    (hmiss : c.readIdx < n + c.checkedIdx)
    (hsmall : n + c.checkedIdx < 2 * READ_BUFFER_SIZE) :
    dispatchLine ⟨st, c⟩ = .inl ⟨.lineOpen, { c with startLine := c.checkedIdx }⟩ := by
  have hsum : wrap32 (c.contentLength + c.checkedIdx) = n + c.checkedIdx := by
    rw [hlen]
    apply wrap32_of_range
    · omega
    · simp only [READ_BUFFER_SIZE] at hsmall
      simp only [INT_MAX]
      omega
  have hcond : ¬ wrap32 (c.contentLength + c.checkedIdx) ≤ c.readIdx := by
    rw [hsum]
    omega
  rw [dispatchLine_content (s := ⟨st, c⟩) hs, parseContent, if_neg hcond]
  rfl

namespace Behind

variable {n stop : Nat} {c : HttpConn}

theorem recv (h : Behind n stop c) {d : Bytes} (hd : c.readIdx + d.length ≤ stop) :
    Behind n stop (c.recv d) :=
  ⟨h.state, h.length, h.missing, Nat.le_trans h.checked_le (Nat.le_add_right _ _), hd,
    h.stop_lt, h.length_le⟩

theorem parseLine (h : Behind n stop c) : Behind n stop (parseLine c).2 := by
  obtain ⟨hs, hl, hr, h1, h2⟩ := parseLine_frame h.checked_le
  have hmiss := h.missing
  exact ⟨hs.trans h.state, hl.trans h.length, by omega, by omega, hr ▸ h.read_le,
    h.stop_lt, h.length_le⟩

theorem dispatchLine (h : Behind n stop c) (st : LineStatus) :
    dispatchLine ⟨st, c⟩ = .inl ⟨.lineOpen, { c with startLine := c.checkedIdx }⟩ := by
  have h1 := h.missing
  have h2 := h.read_le
  have h3 := h.checked_le
  have h4 := h.stop_lt
  have h5 := h.length_le
  exact dispatchLine_incomplete st h.state h.length (by omega) (by omega)

/-- An iteration on a body that the scanner has moved into either goes on in
such a state, or returns `NO_REQUEST` in one. -/
theorem processReadBody {s : ReadState} (h : Behind n stop s.conn) :
    (∃ s', processReadBody s = .inl s' ∧ Behind n stop s'.conn ∧
      s'.conn.readIdx = s.conn.readIdx) ∨
    ∃ c', processReadBody s = .inr (.ok (.returned .noRequest c')) ∧
      Behind n stop c' ∧ c'.readIdx = s.conn.readIdx := by
  obtain ⟨st, c⟩ := s
  have hmove : ∀ {c : HttpConn}, Behind n stop c →
      Behind n stop { c with startLine := c.checkedIdx } := by
    intro c h
    exact ⟨h.state, h.length, h.missing, h.checked_le, h.read_le, h.stop_lt, h.length_le⟩
  rw [processReadBody_eq]
  split
  · exact Or.inl ⟨_, h.dispatchLine st, hmove h, rfl⟩
  · have hline := h.parseLine
    have hread := (parseLine_frame h.checked_le).2.2.1
    split
    · rename_i c₁ hp
      rw [hp] at hline hread
      exact Or.inl ⟨_, hline.dispatchLine _, hmove hline, hread⟩
    · rename_i st₁ c₁ _ hp
      rw [hp] at hline hread
      exact Or.inr ⟨c₁, rfl, hline, hread⟩

/-- Once the scanner has moved into the body, a call of `process_read` returns
`NO_REQUEST`. -/
theorem readFrom {s : ReadState} (h : Behind n stop s.conn) :
    ∃ c', readFrom s = .ok (.returned .noRequest c') ∧ Behind n stop c' ∧
      c'.readIdx = s.conn.readIdx := by
  refine (readFrom_returns s).invariant
    (fun s' => Behind n stop s'.conn ∧ s'.conn.readIdx = s.conn.readIdx)
    (fun r => ∃ c', r = .ok (.returned .noRequest c') ∧ Behind n stop c' ∧
      c'.readIdx = s.conn.readIdx) ⟨h, rfl⟩ ?_ ?_
  · rintro s₁ s₂ ⟨h₁, hr₁⟩ hb
    rcases h₁.processReadBody with ⟨s', hs', h', hr'⟩ | ⟨c', hc', -, -⟩
    · rw [hs'] at hb
      cases hb
      exact ⟨h', hr'.trans hr₁⟩
    · rw [hc'] at hb
      cases hb
  · rintro s₁ r ⟨h₁, hr₁⟩ hb
    rcases h₁.processReadBody with ⟨s', hs', -, -⟩ | ⟨c', hc', h', hr'⟩
    · rw [hs'] at hb
      cases hb
    · rw [hc'] at hb
      cases hb
      exact ⟨c', rfl, h', hr'.trans hr₁⟩

/-- No further call reaches `do_request`. -/
theorem readCalls (h : Behind n stop c) (ds : List Bytes)
    (hds : c.readIdx + ds.flatten.length ≤ stop) :
    ∃ c', readCalls c ds = .ok (.returned .noRequest c') := by
  induction ds generalizing c with
  | nil =>
    obtain ⟨c', hc', -, -⟩ := h.readFrom (s := ⟨.lineOk, c⟩)
    exact ⟨c', hc'⟩
  | cons d ds ih =>
    obtain ⟨c', hc', h', hr'⟩ := h.readFrom (s := ⟨.lineOk, c⟩)
    rw [List.flatten_cons, List.length_append] at hds
    simp only at hr'
    have hd := ih (h'.recv (d := d) (by omega)) (by simp only [HttpConn.recv]; omega)
    rw [Post.readCalls, processReadLoop, hc']
    exact hd

end Behind

/-! ## The call on a body that is not complete -/

namespace InBody

variable {n : Nat} {p : Bytes} {c : HttpConn}

theorem setLine (h : InBody n p c) : { c with startLine := c.checkedIdx } = c :=
  congrArg (fun i => { c with startLine := i }) h.line.symm

/-- The first iteration of a call on an incomplete body changes nothing but
`line_status`. -/
theorem dispatchLine (h : InBody n p c) (hp : p.length < n) :
    dispatchLine ⟨.lineOk, c⟩ = .inl ⟨.lineOpen, c⟩ := by
  have hread := h.read
  have hroom := h.room
  have hd := dispatchLine_incomplete .lineOk h.state h.length (by omega) (by omega)
  rwa [h.setLine] at hd

theorem readFrom_eq (h : InBody n p c) (hp : p.length < n) :
    processReadLoop c = readFrom ⟨.lineOpen, c⟩ := by
  refine readFrom_next ?_
  rw [processReadBody_eq, if_pos ⟨h.state, rfl⟩, h.dispatchLine hp]

/-- While the scanner holds, a call changes nothing. -/
theorem processReadLoop_holds (h : InBody n p c) (hp : p.length < n) (hold : Holds p) :
    processReadLoop c = .ok (.returned .noRequest c) := by
  obtain ⟨st, hst, hline⟩ := h.parseLine_holds (Nat.le_of_lt hp) hold
  rw [h.readFrom_eq hp]
  refine readFrom_done ?_
  rw [processReadBody_eq, if_neg (by simp), hline]
  cases st with
  | lineOk => exact absurd rfl hst
  | lineBad => rfl
  | lineOpen => rfl

/-- When the scanner does not hold, a call returns `NO_REQUEST` with the scanner
inside the body. -/
theorem processReadLoop_moves (h : InBody n p c) (hp : p.length < n) (hold : ¬Holds p) :
    ∃ c', processReadLoop c = .ok (.returned .noRequest c') ∧
      Behind n (c.checkedIdx + n) c' ∧ c'.readIdx = c.readIdx := by
  have hread := h.read
  have hmove := h.parseLine_moves (Nat.le_of_lt hp) hold
  obtain ⟨hs, hl, hr, h1, h2⟩ := parseLine_frame (c := c) (by omega)
  have hbehind : Behind n (c.checkedIdx + n) (parseLine c).2 :=
    ⟨hs.trans h.state, hl.trans h.length, by omega, by omega, by omega, h.room, by omega⟩
  rw [h.readFrom_eq hp]
  cases hline : parseLine c with
  | mk st c₁ =>
    rw [hline] at hbehind hr
    simp only at hbehind hr
    cases st with
    | lineOk =>
      obtain ⟨c', hc', hb', hr'⟩ := hbehind.readFrom (s := ⟨.lineOk, c₁⟩)
      refine ⟨c', ?_, hb', hr'.trans hr⟩
      -- the body holds a line: the loop goes on as if it started behind it
      rw [← hc']
      refine readFrom_congr ?_
      rw [processReadBody_eq, processReadBody_eq, if_neg (by simp), hline,
        if_pos ⟨hbehind.state, rfl⟩]
    | lineBad =>
      refine ⟨c₁, readFrom_done ?_, hbehind, hr⟩
      rw [processReadBody_eq, if_neg (by simp), hline]
    | lineOpen =>
      refine ⟨c₁, readFrom_done ?_, hbehind, hr⟩
      rw [processReadBody_eq, if_neg (by simp), hline]

/-! ## The call on a complete body -/

/-- A call on a complete body calls `do_request` with `m_string` at the body. -/
theorem processReadLoop_complete (h : InBody n p c) (hp : p.length = n) :
    processReadLoop c = .ok (.request
      { c.store (c.checkedIdx + n) NUL with string := some c.checkedIdx }) := by
  have hread := h.read
  have hroom := h.room
  have hsum : wrap32 (c.contentLength + c.checkedIdx) = n + c.checkedIdx := by
    rw [h.length]
    apply wrap32_of_range
    · omega
    · simp only [READ_BUFFER_SIZE] at hroom
      simp only [INT_MAX]
      omega
  have hcond : wrap32 (c.contentLength + c.checkedIdx) ≤ c.readIdx := by
    rw [hsum]
    omega
  have hidx : (c.checkedIdx : Int) + c.contentLength = ((c.checkedIdx + n : Nat) : Int) := by
    rw [h.length]
    omega
  have hcontent : parseContent c c.checkedIdx = .ok (.getRequest,
      { c.store (c.checkedIdx + n) NUL with string := some c.checkedIdx }) := by
    simp only [parseContent, hidx]
    rw [if_pos hcond, if_pos (by omega), Int.toNat_natCast]
  refine readFrom_done ?_
  rw [processReadBody_eq, if_pos ⟨h.state, rfl⟩]
  rw [dispatchLine_content (s := ⟨.lineOk, c⟩) h.state]
  dsimp only
  rw [h.setLine, getLine, h.line, hcontent]
  rfl

/-- Receiving more bytes of the body. -/
theorem recv (h : InBody n p c) {d : Bytes} (hd : (p ++ d).length ≤ n) :
    InBody n (p ++ d) (c.recv d) := by
  have hread := h.read
  have hroom := h.room
  rw [List.length_append] at hd
  refine ⟨h.state, h.line, h.length, ?_, ?_, h.pos, ?_, h.room⟩
  · simp only [HttpConn.recv, List.length_append]
    omega
  · have hslice : (c.readBuf.write c.readIdx d).slice c.checkedIdx p.length = p := by
      refine Eq.trans (CharBuf.slice_congr (by omega) ?_) h.bytes
      intro k _ hk
      exact CharBuf.get_write_lt _ _ (by omega)
    simp only [HttpConn.recv, List.length_append, CharBuf.slice_append, hslice]
    rw [← hread, CharBuf.slice_write _ _ (by omega)]
  · have hpos := h.pos
    exact (get_recv c d (show c.checkedIdx - 1 < c.readIdx by omega)).trans h.before

end InBody

/-! ## Whole runs -/

/-- One more chunk, behind a call that returned `NO_REQUEST`. -/
theorem bodyDelivered_cons {start : Nat} {body d : Bytes} {c c' : HttpConn}
    {ds : List Bytes} (h : processReadLoop c = .ok (.returned .noRequest c')) :
    BodyDelivered start body c (d :: ds) ↔ BodyDelivered start body (c'.recv d) ds := by
  have hcalls : ∀ ds', readCalls c (d :: ds') = readCalls (c'.recv d) ds' := by
    intro ds'
    rw [readCalls, h]
  unfold BodyDelivered
  rw [hcalls]
  refine and_congr_left fun _ => ⟨fun hall m hm => ?_, fun hall m hm => ?_⟩
  · have hcall := hall (m + 1) (Nat.succ_lt_succ hm)
    rwa [List.take_succ_cons, hcalls] at hcall
  · cases m with
    | zero => exact ⟨c', h⟩
    | succ m =>
      rw [List.take_succ_cons, hcalls]
      exact hall m (Nat.lt_of_succ_lt_succ hm)

/-- A run over a whole body delivers it exactly when the scanner holds at every
call before the last one. -/
theorem readCalls_delivered {n : Nat} (ds : List Bytes) : ∀ {p : Bytes} {c : HttpConn},
    InBody n p c → (p ++ ds.flatten).length = n →
    (∀ m, m < ds.length → (p ++ (ds.take m).flatten).length < n) →
    (BodyDelivered c.checkedIdx (p ++ ds.flatten) c ds ↔
      ∀ m, m < ds.length → Holds (p ++ (ds.take m).flatten)) := by
  induction ds with
  | nil =>
    intro p c h hlen _
    rw [List.flatten_nil, List.append_nil] at hlen ⊢
    refine iff_of_true ⟨fun m hm => absurd hm (Nat.not_lt_zero m), ?_⟩
      (fun m hm => absurd hm (Nat.not_lt_zero m))
    refine ⟨_, h.processReadLoop_complete hlen, rfl, ?_, ?_⟩
    · refine Eq.trans (CharBuf.slice_congr ?_ ?_) h.bytes
      · have hroom := h.room
        omega
      · intro k _ hk
        exact CharBuf.get_set_ne _ _ (by omega)
    · rw [hlen]
      exact CharBuf.get_set_self _ _ h.room
  | cons d ds ih =>
    intro p c h hlen hcut
    have hp : p.length < n := by
      have h0 := hcut 0 (by simp)
      rwa [List.take_zero, List.flatten_nil, List.append_nil] at h0
    rw [List.flatten_cons, ← List.append_assoc] at hlen ⊢
    have htake : ∀ m, p ++ ((d :: ds).take (m + 1)).flatten = p ++ d ++ (ds.take m).flatten := by
      intro m
      rw [List.take_succ_cons, List.flatten_cons, List.append_assoc]
    by_cases hold : Holds p
    · have hcall := h.processReadLoop_holds hp hold
      have hrecv := h.recv (d := d) (by rw [List.length_append] at hlen; omega)
      rw [bodyDelivered_cons hcall]
      have hrest := ih hrecv hlen (fun m hm => by
        have hm' := hcut (m + 1) (Nat.succ_lt_succ hm)
        rwa [htake] at hm')
      refine hrest.trans ⟨fun hall m hm => ?_, fun hall m hm => ?_⟩
      · cases m with
        | zero => rwa [List.take_zero, List.flatten_nil, List.append_nil]
        | succ m =>
          rw [htake]
          exact hall m (Nat.lt_of_succ_lt_succ hm)
      · rw [← htake]
        exact hall (m + 1) (Nat.succ_lt_succ hm)
    · obtain ⟨c', hcall, hbehind, hidx⟩ := h.processReadLoop_moves hp hold
      have hread := h.read
      have hsum : p.length + d.length + ds.flatten.length = n := by
        rw [← hlen, List.length_append, List.length_append]
      have hrecv := hbehind.recv (d := d) (by omega)
      refine iff_of_false ?_ (fun hall => hold ?_)
      · rw [bodyDelivered_cons hcall]
        rintro ⟨-, c₁, hreq, -⟩
        obtain ⟨c₂, hno⟩ := hrecv.readCalls ds (by simp only [HttpConn.recv]; omega)
        rw [hno] at hreq
        cases hreq
      · have h0 := hall 0 (by simp)
        rwa [List.take_zero, List.flatten_nil, List.append_nil] at h0

/-- A body of `n` bytes is delivered exactly when the scanner of lines holds at
every call before the last one.  `c` is the state in which `parse_headers` has
just moved to `CHECK_STATE_CONTENT`, with the first bytes of the body possibly
there, and `ds` are the chunks that follow. -/
theorem bodyDelivered_iff (s : ReadState) (c : HttpConn) (ds : List Bytes)
    (henter : EntersBody s c)
    (hlen : c.contentLength = (pending c ++ ds.flatten).length)
    (hroom : c.checkedIdx + (pending c ++ ds.flatten).length < READ_BUFFER_SIZE)
    (hcut : ∀ m, m < ds.length → (pending c ++ (ds.take m).flatten).length <
      (pending c ++ ds.flatten).length) :
    BodyDelivered c.checkedIdx (pending c ++ ds.flatten) c ds ↔
      ∀ m, m < ds.length → Holds (pending c ++ (ds.take m).flatten) := by
  have hle : (pending c).length ≤ (pending c ++ ds.flatten).length := by
    rw [List.length_append]
    omega
  exact readCalls_delivered ds (henter.inBody hle hlen hroom).1 rfl hcut

/-- The state of the loop of the first call, on a request with one header, after
the request line and the header. -/
def headerState (text : Bytes) : ReadState :=
  let next := fun s => match processReadBody s with
    | .inl s' => s'
    | .inr _ => s
  next (next ⟨.lineOk, HttpConn.blank.init.recv text⟩)

/-- The state behind the blank line of such a request. -/
def bodyState (text : Bytes) : HttpConn :=
  match processReadBody (headerState text) with
  | .inl s => s.conn
  | .inr _ => HttpConn.blank

/-- A form that arrives behind its headers. -/
theorem bodyDelivered_form :
    let c := bodyState (ascii "POST /2 HTTP/1.1\r\nContent-length: 17\r\n\r\n")
    BodyDelivered c.checkedIdx (pending c ++ [ascii "user=a&password=b"].flatten) c
      [ascii "user=a&password=b"] :=
  (bodyDelivered_iff
    (headerState (ascii "POST /2 HTTP/1.1\r\nContent-length: 17\r\n\r\n"))
    (bodyState (ascii "POST /2 HTTP/1.1\r\nContent-length: 17\r\n\r\n"))
    [ascii "user=a&password=b"] ⟨by decide, by decide, rfl⟩
    (by decide) (by decide) (by decide)).mpr (by decide)

/-- The run did not reach `do_request`. -/
def stillReading : Except Fault ReadExit → Bool
  | .ok (.returned .noRequest _) => true
  | _ => false

/-- A form that is cut behind its first byte is not delivered: the last call
returns `NO_REQUEST` with the whole body received. -/
theorem not_bodyDelivered_cut :
    ∃ s c ds, EntersBody s c ∧
      c.contentLength = (pending c ++ ds.flatten).length ∧
      c.checkedIdx + (pending c ++ ds.flatten).length < READ_BUFFER_SIZE ∧
      (∀ m, m < ds.length → (pending c ++ (ds.take m).flatten).length <
        (pending c ++ ds.flatten).length) ∧
      ¬ BodyDelivered c.checkedIdx (pending c ++ ds.flatten) c ds := by
  refine ⟨headerState (ascii "POST /2 HTTP/1.1\r\nContent-length: 17\r\n\r\nu"),
    bodyState (ascii "POST /2 HTTP/1.1\r\nContent-length: 17\r\n\r\nu"),
    [ascii "ser=a&password=b"], ⟨by decide, by decide, rfl⟩,
    by decide, by decide, by decide, ?_⟩
  rintro ⟨-, c', hreq, -⟩
  have hstill : stillReading (readCalls
      (bodyState (ascii "POST /2 HTTP/1.1\r\nContent-length: 17\r\n\r\nu"))
      [ascii "ser=a&password=b"]) = true := by
    decide
  rw [hreq] at hstill
  cases hstill

end EasyWebServer.Post
