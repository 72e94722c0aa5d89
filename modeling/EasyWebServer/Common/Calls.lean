import EasyWebServer.Common.ProcessRead

/-!
# The calls for one request

A request arrives in several reads, and each is followed by a call of `process_read`, until one
of them reaches `do_request` or returns another code than `NO_REQUEST`.  `requestOf` is the
connection with which `do_request` is called, and `answerOf` what the calls answer.

`Requested` is `requestOf` as a relation, for inductions over the reads: `requested_iff` connects
the two.
-/

namespace EasyWebServer

namespace Common

namespace Parser

variable {χ ρ : Type}

/-- The connection with which the calls of `process_read` reach `do_request`, when
each list of outcomes is one `read`. -/
def requestOf (p : Parser χ) (read : χ → List RecvOutcome → Option (Bool × χ)) (c : χ) :
    List (List RecvOutcome) → Option χ
  | [] => none
  | os :: rest =>
      match read c os with
      | some (true, c) =>
          match p.processReadLoop c with
          | .ok (.request c) => some c
          | .ok (.returned .noRequest c) => requestOf p read c rest
          | _ => none
      | _ => none

/-- What follows the loop of `process_read`, `back` being what a call returns beside its code. -/
def finishRead (back : χ → ρ) (doRequest : χ → Except Fault (HttpCode × ρ)) :
    Except Fault (ReadExit χ) → Except Fault (HttpCode × ρ)
  | .error f => .error f
  | .ok (.returned code c) => .ok (code, back c)
  | .ok (.request c) => doRequest c

/-- `process_read`. -/
def processRead (p : Parser χ) (back : χ → ρ) (doRequest : χ → Except Fault (HttpCode × ρ))
    (c : χ) : Except Fault (HttpCode × ρ) :=
  finishRead back doRequest (p.processReadLoop c)

/-- The answer of the first call of `process_read` that does not return
`NO_REQUEST`, `conn` being the connection in what a call returns. -/
def answerOf (read : χ → List RecvOutcome → Option (Bool × χ))
    (processRead : χ → Except Fault (HttpCode × ρ)) (conn : ρ → χ) (c : χ) :
    List (List RecvOutcome) → Option (Except Fault (HttpCode × ρ))
  | [] => none
  | os :: rest =>
      match read c os with
      | some (true, c) =>
          match processRead c with
          | .ok (.noRequest, r) => answerOf read processRead conn (conn r) rest
          | r => some r
      | _ => none

/-- The calls reach `do_request` with `d`. -/
inductive Requested (p : Parser χ) (read : χ → List RecvOutcome → Option (Bool × χ)) :
    χ → List (List RecvOutcome) → χ → Prop where
  | here {c c₁ d : χ} {os : List RecvOutcome} {rest : List (List RecvOutcome)}
      (hread : read c os = some (true, c₁)) (hloop : p.processReadLoop c₁ = .ok (.request d)) :
      Requested p read c (os :: rest) d
  | later {c c₁ c₂ d : χ} {os : List RecvOutcome} {rest : List (List RecvOutcome)}
      (hread : read c os = some (true, c₁))
      (hloop : p.processReadLoop c₁ = .ok (.returned .noRequest c₂))
      (tail : Requested p read c₂ rest d) : Requested p read c (os :: rest) d

variable {p : Parser χ} {read : χ → List RecvOutcome → Option (Bool × χ)}

theorem requestOf_here {c c₁ d : χ} {os : List RecvOutcome} (rest : List (List RecvOutcome))
    (hread : read c os = some (true, c₁)) (hloop : p.processReadLoop c₁ = .ok (.request d)) :
    p.requestOf read c (os :: rest) = some d := by
  rw [requestOf, hread]
  simp only [hloop]

theorem requestOf_later {c c₁ c₂ : χ} {os : List RecvOutcome} (rest : List (List RecvOutcome))
    (hread : read c os = some (true, c₁))
    (hloop : p.processReadLoop c₁ = .ok (.returned .noRequest c₂)) :
    p.requestOf read c (os :: rest) = p.requestOf read c₂ rest := by
  rw [requestOf, hread]
  simp only [hloop]

theorem requested_iff {d : χ} (reads : List (List RecvOutcome)) : ∀ {c : χ},
    p.requestOf read c reads = some d ↔ Requested p read c reads d := by
  induction reads with
  | nil =>
      intro c
      exact ⟨nofun, nofun⟩
  | cons os rest ih =>
      intro c
      constructor
      · intro h
        rw [requestOf] at h
        split at h
        · rename_i c₁ hread
          split at h
          · rename_i c₂ hloop
            cases h
            exact .here hread hloop
          · rename_i c₂ hloop
            exact .later hread hloop (ih.mp h)
          · cases h
        · cases h
      · intro h
        cases h with
        | here hread hloop => exact requestOf_here rest hread hloop
        | later hread hloop tail => exact (requestOf_later rest hread hloop).trans (ih.mpr tail)

/-- What the reads and the parser keep holds when the calls reach `do_request`. -/
theorem Requested.inv {inv : χ → Prop} (hinv : LoopInv p inv)
    (hread : ∀ {c c' : χ} {os : List RecvOutcome} {ok : Bool},
      inv c → read c os = some (ok, c') → inv c')
    {c d : χ} {reads : List (List RecvOutcome)} (h : Requested p read c reads d) (hc : inv c) :
    inv d ∧ p.checkState d ≠ .requestLine := by
  induction h with
  | here hr hloop => exact hinv.processReadLoop (hread hc hr) hloop
  | later hr hloop _ ih => exact ih (hinv.processReadLoop (hread hc hr) hloop (by decide))

section

variable {back : χ → ρ} {conn : ρ → χ} {doRequest : χ → Except Fault (HttpCode × ρ)}

theorem processRead_returned {c c' : χ} {code : HttpCode}
    (h : p.processReadLoop c = .ok (.returned code c')) :
    p.processRead back doRequest c = .ok (code, back c') := by
  rw [processRead, h, finishRead]

theorem processRead_request {c d : χ} (h : p.processReadLoop c = .ok (.request d)) :
    p.processRead back doRequest c = doRequest d := by
  rw [processRead, h, finishRead]

theorem processRead_error {c : χ} {f : Fault} (h : p.processReadLoop c = .error f) :
    p.processRead back doRequest c = .error f := by
  rw [processRead, h, finishRead]

/-- `process_read` returns `NO_REQUEST` or a code that ends the request. -/
theorem processRead_code {c : χ} {code : HttpCode} {r : ρ}
    (hcode : ∀ {c : χ} {code : HttpCode} {r : ρ}, doRequest c = .ok (code, r) → FinalCode code)
    (h : p.processRead back doRequest c = .ok (code, r)) :
    code = .noRequest ∨ FinalCode code := by
  rcases hloop : p.processReadLoop c with f | ⟨code', c'⟩ | d
  · rw [processRead_error hloop] at h
    cases h
  · rw [processRead_returned hloop] at h
    cases h
    rcases processReadLoop_code hloop with hno | hbad
    · exact .inl hno
    · exact .inr (.inl hbad)
  · rw [processRead_request hloop] at h
    exact .inr (hcode h)

/-- The call that reaches `do_request` gives its answer. -/
theorem Requested.answerOf (hback : ∀ c, conn (back c) = c)
    (hcode : ∀ {c : χ} {r : ρ}, doRequest c ≠ .ok (.noRequest, r)) {c d : χ}
    {reads : List (List RecvOutcome)} (h : Requested p read c reads d) :
    answerOf read (p.processRead back doRequest) conn c reads = some (doRequest d) := by
  induction h with
  | here hr hloop =>
      rw [Parser.answerOf, hr]
      simp only [processRead_request hloop]
      split
      · rename_i hdo
        exact absurd hdo hcode
      · rfl
  | later hr hloop _ ih =>
      rw [Parser.answerOf, hr]
      simp only [processRead_returned hloop, hback]
      exact ih

/-- An answer with another code than `BAD_REQUEST` is the one of `do_request`. -/
theorem requested_of_answerOf (hback : ∀ c, conn (back c) = c)
    (hcode : ∀ {c : χ} {r : ρ}, doRequest c ≠ .ok (.noRequest, r)) {code : HttpCode} {r : ρ}
    (hne : code ≠ .badRequest) (reads : List (List RecvOutcome)) : ∀ {c : χ},
    answerOf read (p.processRead back doRequest) conn c reads = some (.ok (code, r)) →
    ∃ d, Requested p read c reads d ∧ doRequest d = .ok (code, r) := by
  induction reads with
  | nil =>
      intro c h
      cases h
  | cons os rest ih =>
      intro c h
      rw [Parser.answerOf] at h
      split at h
      · rename_i c₁ hread
        rcases hloop : p.processReadLoop c₁ with f | ⟨code', c₂⟩ | d
        · rw [processRead_error hloop] at h
          cases h
        · rw [processRead_returned hloop] at h
          rcases processReadLoop_code hloop with rfl | rfl
          · simp only [hback] at h
            obtain ⟨d, hd, hdo⟩ := ih h
            exact ⟨d, .later hread hloop hd, hdo⟩
          · cases h
            exact absurd rfl hne
        · rw [processRead_request hloop] at h
          split at h
          · rename_i hdo
            exact absurd hdo hcode
          · exact ⟨d, .here hread hloop, Option.some.inj h⟩
      · cases h

end

end Parser

end Common

end EasyWebServer
