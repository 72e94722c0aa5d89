import EasyWebServer.Common.Conn
import EasyWebServer.Lib.Loop

/-!
# process_read

The two servers have the same `process_read`: a loop around `parse_line`, `parse_request_line`,
`parse_headers` and `parse_content`, which each of them has its own versions of.  `Parser` lists
these functions and the members that the loop uses, with what the loop relies on, so that
everything here holds of both.

`process_read` leaves its loop in one of two ways: it returns a code, or it
calls `do_request`.  `ReadExit` keeps the two apart.

* `readFrom_returns` shows that the loop terminates, so that proofs can use the relation
  `Loop.Returns` in place of the bounded loop.
* `processReadLoop_code` lists the codes that it returns.
* `LoopInv.processReadLoop` is the rule for a property of the connection: when each of the
  functions keeps it, `process_read` does.
-/

namespace EasyWebServer

namespace Common

/-! ## The loop -/

/-- The variables of the loop of `process_read` that live across iterations. -/
structure ReadState (χ : Type) where
  lineStatus : LineStatus
  conn : χ

/-- How `process_read` ends: it returns a code, or it calls `do_request`. -/
inductive ReadExit (χ : Type) where
  | returned (code : HttpCode) (c : χ)
  | request (c : χ)

/-- The connection that the loop of `process_read` ends with. -/
def ReadExit.conn {χ : Type} : ReadExit χ → χ
  | .returned _ c => c
  | .request c => c

/-- The members that the loop shares with the functions that it calls. -/
structure Members (χ : Type) where
  readIdx : χ → Nat
  checkedIdx : χ → Nat
  startLine : χ → Nat
  checkState : χ → CheckState

/-- Two connections with the same scanner indices. -/
def Members.SameIndices {χ : Type} (m : Members χ) (c c' : χ) : Prop :=
  m.readIdx c' = m.readIdx c ∧ m.checkedIdx c' = m.checkedIdx c ∧ m.startLine c' = m.startLine c

/-- The functions that `process_read` calls, and what it relies on. -/
structure Parser (χ : Type) extends Members χ where
  /-- `m_start_line = m_checked_idx`. -/
  nextLine : χ → χ
  parseLine : χ → LineStatus × χ
  parseRequestLine : χ → Nat → Except Fault (HttpCode × χ)
  parseHeaders : χ → Nat → HttpCode × χ
  parseContent : χ → Nat → Except Fault (HttpCode × χ)
  nextLine_members : ∀ c, readIdx (nextLine c) = readIdx c ∧
    checkedIdx (nextLine c) = checkedIdx c ∧ startLine (nextLine c) = checkedIdx c ∧
    checkState (nextLine c) = checkState c
  /-- A complete line moves `m_checked_idx` forward, inside the received bytes. -/
  parseLine_ok : ∀ {c c' : χ}, parseLine c = (.lineOk, c') →
    checkedIdx c < checkedIdx c' ∧ checkedIdx c' ≤ readIdx c' ∧ readIdx c' = readIdx c
  requestLine_indices : ∀ {c c' : χ} {text : Nat} {code : HttpCode},
    parseRequestLine c text = .ok (code, c') → toMembers.SameIndices c c'
  headers_indices : ∀ (c : χ) (text : Nat), toMembers.SameIndices c (parseHeaders c text).2
  content_indices : ∀ {c c' : χ} {text : Nat} {code : HttpCode},
    parseContent c text = .ok (code, c') → toMembers.SameIndices c c'
  headers_checkState : ∀ (c : χ) (text : Nat),
    checkState (parseHeaders c text).2 = checkState c ∨
      checkState (parseHeaders c text).2 = .content
  content_checkState : ∀ {c c' : χ} {text : Nat} {code : HttpCode},
    parseContent c text = .ok (code, c') → checkState c' = checkState c

section

variable {χ : Type}

/-- What the loop body does with the answer of `parse_request_line`. -/
def afterRequestLine (st : LineStatus) : Except Fault (HttpCode × χ) →
    ReadState χ ⊕ Except Fault (ReadExit χ)
  | .error f => .inr (.error f)
  | .ok (.badRequest, c) => .inr (.ok (.returned .badRequest c))
  | .ok (_, c) => .inl ⟨st, c⟩

/-- What it does with the answer of `parse_headers`. -/
def afterHeaders (st : LineStatus) : HttpCode × χ → ReadState χ ⊕ Except Fault (ReadExit χ)
  | (.badRequest, c) => .inr (.ok (.returned .badRequest c))
  | (.getRequest, c) => .inr (.ok (.request c))
  | (_, c) => .inl ⟨st, c⟩

/-- What it does with the answer of `parse_content`. -/
def afterContent : Except Fault (HttpCode × χ) → ReadState χ ⊕ Except Fault (ReadExit χ)
  | .error f => .inr (.error f)
  | .ok (.getRequest, c) => .inr (.ok (.request c))
  | .ok (_, c) => .inl ⟨.lineOpen, c⟩

end

namespace Parser

variable {χ : Type} (p : Parser χ)

/-- The body of the loop: take the line, move `m_start_line`, and call the
parser of the current state. -/
def dispatchLine (s : ReadState χ) : ReadState χ ⊕ Except Fault (ReadExit χ) :=
  let text := p.startLine s.conn
  let c := p.nextLine s.conn
  match p.checkState s.conn with
  | .requestLine => afterRequestLine s.lineStatus (p.parseRequestLine c text)
  | .header => afterHeaders s.lineStatus (p.parseHeaders c text)
  | .content => afterContent (p.parseContent c text)

/-- What the loop does with the answer of `parse_line`: it executes the body when a line is
complete, and otherwise `process_read` returns `NO_REQUEST`. -/
def afterLine : LineStatus × χ → ReadState χ ⊕ Except Fault (ReadExit χ)
  | (.lineOk, c) => p.dispatchLine ⟨.lineOk, c⟩
  | (_, c) => .inr (.ok (.returned .noRequest c))

/-- The loop condition of `process_read`, with the call of `parse_line` in it,
and the body. -/
def processReadBody (s : ReadState χ) : ReadState χ ⊕ Except Fault (ReadExit χ) :=
  if p.checkState s.conn = .content ∧ s.lineStatus = .lineOk then p.dispatchLine s
  else p.afterLine (p.parseLine s.conn)

/-- The loop of `process_read` from a given `line_status` on. -/
def readFrom (s : ReadState χ) : Except Fault (ReadExit χ) :=
  (Loop.run p.processReadBody (2 * (p.readIdx s.conn - p.checkedIdx s.conn) + 2) s).getD
    (.error .outOfFuel)

/-- `process_read` up to the call of `do_request`. -/
def processReadLoop (c : χ) : Except Fault (ReadExit χ) := p.readFrom ⟨.lineOk, c⟩

/-! ## Iterations -/

variable {p}

theorem dispatchLine_requestLine {s : ReadState χ} (h : p.checkState s.conn = .requestLine) :
    p.dispatchLine s = afterRequestLine s.lineStatus
      (p.parseRequestLine (p.nextLine s.conn) (p.startLine s.conn)) := by
  unfold dispatchLine
  rw [h]

theorem dispatchLine_header {s : ReadState χ} (h : p.checkState s.conn = .header) :
    p.dispatchLine s = afterHeaders s.lineStatus
      (p.parseHeaders (p.nextLine s.conn) (p.startLine s.conn)) := by
  unfold dispatchLine
  rw [h]

theorem dispatchLine_content {s : ReadState χ} (h : p.checkState s.conn = .content) :
    p.dispatchLine s = afterContent
      (p.parseContent (p.nextLine s.conn) (p.startLine s.conn)) := by
  unfold dispatchLine
  rw [h]

/-- The outcomes of an iteration, `c₀` being the connection behind `m_start_line = m_checked_idx`
and `text` the start of the line. -/
inductive Dispatched (p : Parser χ) (st : LineStatus) (c₀ : χ) (text : Nat) :
    ReadState χ ⊕ Except Fault (ReadExit χ) → Prop where
  | lineFault {f : Fault} (hstate : p.checkState c₀ = .requestLine)
      (hp : p.parseRequestLine c₀ text = .error f) : Dispatched p st c₀ text (.inr (.error f))
  | lineRejected {c : χ} (hstate : p.checkState c₀ = .requestLine)
      (hp : p.parseRequestLine c₀ text = .ok (.badRequest, c)) :
      Dispatched p st c₀ text (.inr (.ok (.returned .badRequest c)))
  | lineAccepted {code : HttpCode} {c : χ} (hstate : p.checkState c₀ = .requestLine)
      (hp : p.parseRequestLine c₀ text = .ok (code, c)) (hcode : code ≠ .badRequest) :
      Dispatched p st c₀ text (.inl ⟨st, c⟩)
  | headerRejected {c : χ} (hstate : p.checkState c₀ = .header)
      (hp : p.parseHeaders c₀ text = (.badRequest, c)) :
      Dispatched p st c₀ text (.inr (.ok (.returned .badRequest c)))
  | headerRequest {c : χ} (hstate : p.checkState c₀ = .header)
      (hp : p.parseHeaders c₀ text = (.getRequest, c)) :
      Dispatched p st c₀ text (.inr (.ok (.request c)))
  | headerNext {code : HttpCode} {c : χ} (hstate : p.checkState c₀ = .header)
      (hp : p.parseHeaders c₀ text = (code, c)) : Dispatched p st c₀ text (.inl ⟨st, c⟩)
  | contentFault {f : Fault} (hstate : p.checkState c₀ = .content)
      (hp : p.parseContent c₀ text = .error f) : Dispatched p st c₀ text (.inr (.error f))
  | contentRequest {c : χ} (hstate : p.checkState c₀ = .content)
      (hp : p.parseContent c₀ text = .ok (.getRequest, c)) :
      Dispatched p st c₀ text (.inr (.ok (.request c)))
  | contentNext {code : HttpCode} {c : χ} (hstate : p.checkState c₀ = .content)
      (hp : p.parseContent c₀ text = .ok (code, c)) :
      Dispatched p st c₀ text (.inl ⟨.lineOpen, c⟩)

/-- Every iteration has one of these outcomes. -/
theorem dispatchLine_dispatched (p : Parser χ) (s : ReadState χ) :
    Dispatched p s.lineStatus (p.nextLine s.conn) (p.startLine s.conn) (p.dispatchLine s) := by
  have hkept := (p.nextLine_members s.conn).2.2.2
  rcases hstate : p.checkState s.conn with _ | _ | _
  · rw [dispatchLine_requestLine hstate]
    rcases hp : p.parseRequestLine (p.nextLine s.conn) (p.startLine s.conn) with f | ⟨code, c⟩
    · exact .lineFault (hkept.trans hstate) hp
    · cases code with
      | badRequest => exact .lineRejected (hkept.trans hstate) hp
      | _ => exact .lineAccepted (hkept.trans hstate) hp (by decide)
  · rw [dispatchLine_header hstate]
    rcases hp : p.parseHeaders (p.nextLine s.conn) (p.startLine s.conn) with ⟨code, c⟩
    cases code with
    | badRequest => exact .headerRejected (hkept.trans hstate) hp
    | getRequest => exact .headerRequest (hkept.trans hstate) hp
    | _ => exact .headerNext (hkept.trans hstate) hp
  · rw [dispatchLine_content hstate]
    rcases hp : p.parseContent (p.nextLine s.conn) (p.startLine s.conn) with f | ⟨code, c⟩
    · exact .contentFault (hkept.trans hstate) hp
    · cases code with
      | getRequest => exact .contentRequest (hkept.trans hstate) hp
      | _ => exact .contentNext (hkept.trans hstate) hp

/-- An iteration that goes on keeps `m_read_idx` and `m_checked_idx`, and a
content iteration leaves `line_status` at `LINE_OPEN`. -/
theorem dispatchLine_inl {s s' : ReadState χ} (h : p.dispatchLine s = .inl s') :
    p.readIdx s'.conn = p.readIdx s.conn ∧ p.checkedIdx s'.conn = p.checkedIdx s.conn ∧
      p.startLine s'.conn = p.checkedIdx s.conn ∧
      (p.checkState s.conn = .content → s'.lineStatus = .lineOpen) := by
  obtain ⟨hread, hchecked, hstart, hstate'⟩ := p.nextLine_members s.conn
  have hkept : ∀ {c : χ}, p.SameIndices (p.nextLine s.conn) c →
      p.readIdx c = p.readIdx s.conn ∧ p.checkedIdx c = p.checkedIdx s.conn ∧
        p.startLine c = p.checkedIdx s.conn :=
    fun hidx => ⟨hidx.1.trans hread, hidx.2.1.trans hchecked, hidx.2.2.trans hstart⟩
  have hdispatched := p.dispatchLine_dispatched s
  rw [h] at hdispatched
  cases hdispatched with
  | lineAccepted hstate hp _ =>
      obtain ⟨h1, h2, h3⟩ := hkept (p.requestLine_indices hp)
      rw [hstate'] at hstate
      exact ⟨h1, h2, h3, fun hc => absurd (hstate.symm.trans hc) (by decide)⟩
  | headerNext hstate hp =>
      have hidx := p.headers_indices (p.nextLine s.conn) (p.startLine s.conn)
      rw [hp] at hidx
      obtain ⟨h1, h2, h3⟩ := hkept hidx
      rw [hstate'] at hstate
      exact ⟨h1, h2, h3, fun hc => absurd (hstate.symm.trans hc) (by decide)⟩
  | contentNext _ hp =>
      obtain ⟨h1, h2, h3⟩ := hkept (p.content_indices hp)
      exact ⟨h1, h2, h3, fun _ => rfl⟩

/-! ## Termination -/

/-- The variant of the loop of `process_read`: every iteration either consumes
received bytes or leaves `line_status` at `LINE_OPEN`. -/
def readVariant (p : Parser χ) (s : ReadState χ) : Nat :=
  2 * (p.readIdx s.conn - p.checkedIdx s.conn) + (if s.lineStatus = .lineOpen then 0 else 1)

theorem readVariant_lt {s s' : ReadState χ} (h : p.processReadBody s = .inl s') :
    p.readVariant s' < p.readVariant s := by
  unfold processReadBody afterLine at h
  split at h
  · rename_i hc
    obtain ⟨h1, h2, -, h4⟩ := dispatchLine_inl h
    simp only [readVariant, h1, h2, h4 hc.1, hc.2, if_true]
    simp
  · split at h
    · rename_i c hp
      obtain ⟨ha, hb, hr⟩ := p.parseLine_ok hp
      obtain ⟨h1, h2, -, -⟩ := dispatchLine_inl h
      simp only [readVariant, h1, h2]
      split <;> split <;> omega
    · cases h

/-- The loop of `process_read` terminates within its bound, and its result is
the one the unbounded loop gives. -/
theorem readFrom_returns (p : Parser χ) (s : ReadState χ) :
    Loop.Returns p.processReadBody s (p.readFrom s) := by
  obtain ⟨r, hr⟩ := Loop.exists_run_of_variant p.processReadBody
    (fun _ => True) p.readVariant
    (fun s s' _ h => ⟨trivial, readVariant_lt h⟩)
    (2 * (p.readIdx s.conn - p.checkedIdx s.conn) + 2) s trivial
    (by unfold readVariant; split <;> omega)
  rw [readFrom, hr]
  exact Loop.returns_of_run hr

theorem readFrom_eq {s : ReadState χ} {r : Except Fault (ReadExit χ)}
    (h : Loop.Returns p.processReadBody s r) : p.readFrom s = r :=
  (p.readFrom_returns s).det h

/-- One iteration that goes on may be taken off the front of the loop. -/
theorem readFrom_next {s s' : ReadState χ} (h : p.processReadBody s = .inl s') :
    p.readFrom s = p.readFrom s' :=
  readFrom_eq (.next h (p.readFrom_returns s'))

theorem readFrom_done {s : ReadState χ} {r : Except Fault (ReadExit χ)}
    (h : p.processReadBody s = .inr r) : p.readFrom s = r :=
  readFrom_eq (.done h)

/-! ## The codes of the loop -/

theorem dispatchLine_code {s : ReadState χ} {code : HttpCode} {c : χ}
    (h : p.dispatchLine s = .inr (.ok (.returned code c))) : code = .badRequest := by
  have hdispatched := p.dispatchLine_dispatched s
  rw [h] at hdispatched
  cases hdispatched <;> rfl

theorem processReadBody_code {s : ReadState χ} {code : HttpCode} {c : χ}
    (h : p.processReadBody s = .inr (.ok (.returned code c))) :
    code = .noRequest ∨ code = .badRequest := by
  unfold processReadBody afterLine at h
  split at h
  · exact .inr (dispatchLine_code h)
  · split at h
    · exact .inr (dispatchLine_code h)
    · cases h
      exact .inl rfl

/-- The loop of `process_read` returns `NO_REQUEST` or `BAD_REQUEST`. -/
theorem processReadLoop_code {c c' : χ} {code : HttpCode}
    (h : p.processReadLoop c = .ok (.returned code c')) :
    code = .noRequest ∨ code = .badRequest := by
  have hret : Loop.Returns p.processReadBody ⟨.lineOk, c⟩ (p.processReadLoop c) :=
    p.readFrom_returns _
  refine hret.invariant (fun _ => True)
    (fun r => ∀ code c', r = .ok (.returned code c') → code = .noRequest ∨ code = .badRequest)
    trivial (fun _ _ _ _ => trivial) ?_ code c' h
  intro s r _ hb code c' hr
  subst hr
  exact processReadBody_code hb

end Parser

/-! ## Invariants -/

section

variable {χ : Type} {p : Parser χ} {inv : χ → Prop}

/-- Every function of the parser keeps the property.  A request line that is rejected ends the
request, so nothing is asked of it. -/
structure LoopInv (p : Parser χ) (inv : χ → Prop) : Prop where
  parseLine : ∀ {c : χ}, inv c → inv (p.parseLine c).2
  setLine : ∀ {c : χ}, inv c → inv (p.nextLine c)
  requestLine : ∀ {c c' : χ} {text : Nat} {code : HttpCode},
    inv c → p.checkState c = .requestLine → p.parseRequestLine c text = .ok (code, c') →
      code ≠ .badRequest → inv c'
  headers : ∀ {c : χ} (text : Nat), inv c → p.checkState c = .header →
    inv (p.parseHeaders c text).2
  content : ∀ {c c' : χ} {text : Nat} {code : HttpCode},
    inv c → p.checkState c = .content → p.parseContent c text = .ok (code, c') → inv c'

/-- What is known of the connection at the end of `process_read`. -/
def ReadExit.Keeps (p : Parser χ) (inv : χ → Prop) : ReadExit χ → Prop
  | .returned code c => code ≠ .badRequest → inv c
  | .request c => inv c ∧ p.checkState c ≠ .requestLine

/-- What is known of it at the end of an iteration. -/
def StepKeeps (p : Parser χ) (inv : χ → Prop) : ReadState χ ⊕ Except Fault (ReadExit χ) → Prop
  | .inl s => inv s.conn
  | .inr (.ok e) => e.Keeps p inv
  | .inr (.error _) => True

namespace LoopInv

theorem dispatchLine (h : LoopInv p inv) {s : ReadState χ} (hs : inv s.conn) :
    StepKeeps p inv (p.dispatchLine s) := by
  have hline := h.setLine hs
  have hdispatched := p.dispatchLine_dispatched s
  generalize p.dispatchLine s = r at hdispatched
  cases hdispatched with
  | lineFault _ _ | contentFault _ _ => trivial
  | lineRejected _ _ | headerRejected _ _ => exact fun hcode => absurd rfl hcode
  | lineAccepted hstate hp hcode => exact h.requestLine hline hstate hp hcode
  | headerRequest hstate hp =>
      have hkeeps := h.headers (p.startLine s.conn) hline hstate
      have hnext := p.headers_checkState (p.nextLine s.conn) (p.startLine s.conn)
      rw [hp] at hkeeps hnext
      refine ⟨hkeeps, ?_⟩
      rcases hnext with hnext | hnext
      · rw [hnext, hstate]
        decide
      · rw [hnext]
        decide
  | headerNext hstate hp =>
      have hkeeps := h.headers (p.startLine s.conn) hline hstate
      rw [hp] at hkeeps
      exact hkeeps
  | contentRequest hstate hp =>
      refine ⟨h.content hline hstate hp, ?_⟩
      rw [p.content_checkState hp, hstate]
      decide
  | contentNext hstate hp => exact h.content hline hstate hp

theorem processReadBody (h : LoopInv p inv) {s : ReadState χ} (hs : inv s.conn) :
    StepKeeps p inv (p.processReadBody s) := by
  unfold Parser.processReadBody Parser.afterLine
  split
  · exact h.dispatchLine hs
  · have hline := h.parseLine hs
    split
    · rename_i c hp
      rw [hp] at hline
      exact h.dispatchLine (s := ⟨.lineOk, c⟩) hline
    · rename_i c hne hp
      rw [hp] at hline
      exact fun _ => hline

/-- An iteration that goes on keeps the property. -/
theorem next (h : LoopInv p inv) {s s' : ReadState χ} (hs : inv s.conn)
    (hb : p.processReadBody s = .inl s') : inv s'.conn := by
  have hstep := h.processReadBody hs
  rw [hb] at hstep
  exact hstep

/-- The rule: `process_read` keeps the property. -/
theorem processReadLoop (h : LoopInv p inv) {c : χ} {e : ReadExit χ} (hc : inv c)
    (he : p.processReadLoop c = .ok e) : e.Keeps p inv := by
  have hret : Loop.Returns p.processReadBody ⟨.lineOk, c⟩ (p.processReadLoop c) :=
    p.readFrom_returns _
  refine hret.invariant (fun s => inv s.conn) (fun r => ∀ e, r = .ok e → e.Keeps p inv) hc
    (fun s s' hs hb => h.next hs hb) ?_ e he
  intro s r hs hb e hr
  have hstep := h.processReadBody hs
  rw [hb, hr] at hstep
  exact hstep

end LoopInv

end

end Common

end EasyWebServer
