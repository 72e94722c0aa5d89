import EasyWebServer.Post.Stream

/-!
# Malformed lines

`parse_line` reports a stray CR or LF as `LINE_BAD`.  The loop of `process_read` ends then as it
does for an unfinished line, with `NO_REQUEST`, and a later call finds `m_checked_idx` at the
same byte.  Nothing leads out of this state.

`LineErrorsAnswered` is the property for the bytes of a connection: a stray CR or LF in front of
the blank line is answered, and a call waits only for bytes that can complete the request.
`lineErrorsAnswered_iff` says for which bytes it holds.  There is a second way into a dead state:
a line that is known to crash the parser and waits for its LF (`Doomed`).
-/

namespace EasyWebServer.Post

open CString CInt HttpConn CharBuf Http CrlfScan

/-! ## The property -/

/-- In front of the blank line there is a CR that no LF follows, or an LF that no CR precedes:
`ls` are the lines before it, and `l` is the part of its own line before it. -/
def Offends (t : Bytes) : Prop :=
  ∃ ls l rest, t = CrlfScan.text ls ++ (l ++ rest) ∧ (∀ h ∈ ls, OneLine h) ∧ OneLine l ∧
    (∀ h ∈ ls.tail, cstr h ≠ []) ∧ StartsStray rest

/-- The scan of `received` bytes is behind a request that is complete or rejected.  The
terminator of a complete body is not stored in front of the buffer. -/
def Complete (received : Nat) : Scan Awaits HeadEnd → Prop
  | .left .rejected _ => True
  | .left (.body n) k => n ≤ k ∧ 0 ≤ (received : Int) - k + n
  | _ => False

/-- The parser ends the request, in a buffer of any size. -/
def Completes (t : Bytes) : Prop := Complete t.length (parseScan t)

/-- Behind the chunks, a stray CR or LF in front of the blank line has been answered with
`BAD_REQUEST`, and `NO_REQUEST` has been returned only if the bytes go on to a request that
the parser ends. -/
def LineErrorsAnswered (w : World) (c : HttpConn) (ds : List Bytes) : Prop :=
  (Offends ds.flatten → ∃ c' w', feed w c.init ds = .ok (.badRequest, c', w')) ∧
    ∀ c' w', feed w c.init ds = .ok (.noRequest, c', w') → ∃ e, Completes (ds.flatten ++ e)

/-! ## The condition -/

/-- The first line is complete, and is no request. -/
def Rejected (t : Bytes) : Prop :=
  ∃ l rest, t = l ++ crlf ++ rest ∧ OneLine l ∧ ¬ HostOnly (cstr l) ∧
    ¬ ∃ m path, Accepts (cstr l) m path

/-- The line that is not finished crashes the parser: a request line whose text is known and
has a host and no path, or a blank line under a content length that puts the terminator of the
body in front of the buffer. -/
inductive Doomed (t : Bytes) : Prop where
  | host (l : Bytes) (hline : OneLine l) (hbytes : t = l ++ [CR] ∨ t = l ∧ NUL ∈ l)
      (hhost : HostOnly (cstr l))
  | length (n : Int) (l : Bytes) (hline : OneLine l) (hblank : cstr l = [])
      (hread : ReadTo nextLine .requestLine t (.header n) (l ++ [CR]))
      (hnegative : (t.length : Int) + 1 + n < 0)

/-! ## The lines of a request -/

theorem nextLine_header {n : Int} {l : Bytes} (h : cstr l ≠ []) :
    nextLine (.header n) l = .inl (.header (lengthAfter n (cstr l))) := if_neg h

theorem nextLine_blank {n : Int} {l : Bytes} (h : cstr l = []) :
    nextLine (.header n) l = .inr (.body n) := if_pos h

theorem nextLine_crashed {l : Bytes} (h : HostOnly (cstr l)) :
    nextLine .requestLine l = .inr .crashed := if_pos h

theorem nextLine_rejected {l : Bytes} (hhost : ¬ HostOnly (cstr l))
    (h : ¬ ∃ m path, Accepts (cstr l) m path) : nextLine .requestLine l = .inr .rejected := by
  rw [nextLine, if_neg hhost, if_neg h]

/-- The request line leads to the headers, or ends the lines without a body. -/
theorem nextLine_requestLine (l : Bytes) :
    nextLine .requestLine l = .inl (.header 0) ∨ nextLine .requestLine l = .inr .rejected ∨
      nextLine .requestLine l = .inr .crashed := by
  rw [nextLine]
  split
  · exact .inr (.inr rfl)
  · split
    · exact .inl rfl
    · exact .inr (.inl rfl)

/-- A line leads to a header line, if it leads to one at all. -/
theorem nextLine_ne_requestLine {q q' : Awaits} {l : Bytes} (h : nextLine q l = .inl q') :
    q' ≠ .requestLine := by
  rintro rfl
  cases q with
  | requestLine =>
      rcases nextLine_requestLine l with heq | heq | heq
      · rw [heq] at h
        cases h
      · rw [heq] at h
        cases h
      · rw [heq] at h
        cases h
  | header n =>
      rw [nextLine] at h
      split at h
      · cases h
      · cases h

/-- Header lines that are not blank lead to the next one. -/
theorem after_header {ls : List Bytes} (h : ∀ l ∈ ls, cstr l ≠ []) (n : Int) :
    ∃ m, after nextLine (.header n) ls = some (.header m) := by
  induction ls generalizing n with
  | nil => exact ⟨n, rfl⟩
  | cons l ls ih =>
      rw [after_cons nextLine (nextLine_header (h l List.mem_cons_self))]
      exact ih (fun l' hl' => h l' (List.mem_cons_of_mem l hl')) _

/-- No line leads back to the request line. -/
theorem after_requestLine {ls : List Bytes} {q : Awaits}
    (h : after nextLine q ls = some .requestLine) : ls = [] ∧ q = .requestLine := by
  induction ls generalizing q with
  | nil =>
      cases h
      exact ⟨rfl, rfl⟩
  | cons l ls ih =>
      rw [after] at h
      split at h
      · rename_i q₁ hq
        exact absurd (ih h).2 (nextLine_ne_requestLine hq)
      · cases h

theorem readTo_requestLine {t rest : Bytes}
    (h : ReadTo nextLine .requestLine t .requestLine rest) : t = rest := by
  obtain ⟨ls, rfl, -, hafter⟩ := h
  rw [(after_requestLine hafter).1]
  rfl

/-- The header lines that have led to a line are not blank. -/
theorem after_not_blank {ls : List Bytes} {q q' : Awaits} (hq : q ≠ .requestLine)
    (h : after nextLine q ls = some q') : ∀ l ∈ ls, cstr l ≠ [] := by
  induction ls generalizing q with
  | nil => exact List.forall_mem_nil _
  | cons l ls ih =>
      rw [after] at h
      split at h
      · rename_i q₁ hnext
        intro l' hl'
        rcases List.mem_cons.mp hl' with rfl | hmem
        · cases q with
          | requestLine => exact absurd rfl hq
          | header n =>
              intro hblank
              rw [nextLine_blank hblank] at hnext
              cases hnext
        · exact ih (nextLine_ne_requestLine hnext) h l' hmem
      · cases h

/-! ## What the scan says about the bytes -/

/-- Where a scan is behind a stray CR or LF. -/
def OffendsScan : Scan Awaits HeadEnd → Prop
  | .stray => True
  | .left .rejected _ => True
  | .left .crashed _ => True
  | _ => False

/-- A stray CR or LF is where the scan ends, unless the first line has ended it. -/
theorem Offends.scan {t : Bytes} (h : Offends t) : OffendsScan (parseScan t) := by
  obtain ⟨ls, l, rest, rfl, hls, hl, hblank, hstray⟩ := h
  have hend : ∀ q, CrlfScan.scan nextLine (.line q []) (l ++ rest) = .stray := by
    intro q
    rw [scan_append, scan_oneLine _ _ _ hl, scan_startsStray _ _ _ hstray]
  rcases ls with _ | ⟨first, ls⟩
  · rw [parseScan, CrlfScan.text, List.flatMap_nil, List.nil_append, hend .requestLine]
    trivial
  · have hfirst := hls first List.mem_cons_self
    have hsplit : CrlfScan.text (first :: ls) ++ (l ++ rest) =
        first ++ crlf ++ (CrlfScan.text ls ++ (l ++ rest)) := by
      rw [CrlfScan.text, List.flatMap_cons, List.append_assoc]
      rfl
    rw [parseScan, hsplit, scan_line _ _ hfirst, endLine]
    rcases nextLine_requestLine first with heq | heq | heq
    · obtain ⟨m, hafter⟩ := after_header hblank 0
      have htext := scan_text nextLine (fun h hh => hls h (List.mem_cons_of_mem first hh)) hafter
        (l ++ rest)
      rw [heq]
      dsimp only
      rw [htext, hend]
      trivial
    · rw [heq]
      dsimp only
      rw [scan_left]
      trivial
    · rw [heq]
      dsimp only
      rw [scan_left]
      trivial

theorem offends_of_scan {t : Bytes} (h : parseScan t = .stray) : Offends t := by
  have hdescribes := describes_scan nextLine .requestLine t
  rw [← parseScan, h] at hdescribes
  obtain ⟨q, l, rest, hl, hstray, ls, rfl, hls, hafter⟩ := hdescribes
  refine ⟨ls, l, rest, rfl, hls, hl, ?_, hstray⟩
  rcases ls with _ | ⟨first, ls⟩
  · exact List.forall_mem_nil _
  · rw [after] at hafter
    split at hafter
    · rename_i q₁ hq
      exact after_not_blank (nextLine_ne_requestLine hq) hafter
    · cases hafter

theorem rejected_iff {t : Bytes} : Rejected t ↔ ∃ k, parseScan t = .left .rejected k := by
  constructor
  · rintro ⟨l, rest, rfl, hl, hhost, haccepts⟩
    refine ⟨0 + rest.length, ?_⟩
    rw [parseScan, scan_line _ _ hl, endLine, nextLine_rejected hhost haccepts]
    exact scan_left _ _ _ _
  · rintro ⟨k, h⟩
    have hdescribes := describes_scan nextLine .requestLine t
    rw [← parseScan, h] at hdescribes
    obtain ⟨q, l, rest, hl, hnext, -, hread⟩ := hdescribes
    cases q with
    | requestLine =>
        rw [nextLine] at hnext
        split at hnext
        · cases hnext
        · rename_i hhost
          split at hnext
          · cases hnext
          · rename_i haccepts
            exact ⟨l, rest, readTo_requestLine hread, hl, hhost, haccepts⟩
    | header n =>
        rw [nextLine] at hnext
        split at hnext
        · cases hnext
        · cases hnext

/-- `Doomed` in terms of the scan of `received` bytes. -/
def DoomedScan (received : Nat) : Scan Awaits HeadEnd → Prop
  | .line .requestLine l => NUL ∈ l ∧ HostOnly (cstr l)
  | .cr .requestLine l => HostOnly (cstr l)
  | .cr (.header n) l => cstr l = [] ∧ (received : Int) + 1 + n < 0
  | _ => False

theorem doomed_iff {t : Bytes} : Doomed t ↔ DoomedScan t.length (parseScan t) := by
  constructor
  · rintro (⟨l, hl, rfl | ⟨rfl, hnul⟩, hhost⟩ | ⟨n, l, hl, hblank, hread, hnegative⟩)
    · rw [parseScan, scan_append, scan_oneLine _ _ _ hl]
      exact hhost
    · rw [parseScan, scan_oneLine _ _ _ hl]
      exact ⟨hnul, hhost⟩
    · rw [parseScan, hread.scan, scan_append, scan_oneLine _ _ _ hl]
      exact ⟨hblank, hnegative⟩
  · intro h
    have hdescribes := describes_scan nextLine .requestLine t
    rw [← parseScan] at hdescribes
    rcases hz : parseScan t with ⟨_ | n, l⟩ | ⟨_ | n, l⟩ | _ | ⟨r, k⟩
    · rw [hz] at h hdescribes
      exact .host l hdescribes.1 (.inr ⟨readTo_requestLine hdescribes.2, h.1⟩) h.2
    · rw [hz] at h
      exact absurd h id
    · rw [hz] at h hdescribes
      exact .host l hdescribes.1 (.inl (readTo_requestLine hdescribes.2)) h
    · rw [hz] at h hdescribes
      exact .length n l hdescribes.1 h.1 hdescribes.2 h.2
    · rw [hz] at h
      exact absurd h id
    · rw [hz] at h
      exact absurd h id

/-! ## Bytes that go on to a request -/

/-- A byte that is in no version. -/
def filler : UInt8 := 120

theorem oneLine_replicate (n : Nat) : OneLine (List.replicate n filler) := by
  intro b hb
  rw [List.eq_of_mem_replicate hb]
  decide

/-- A line that ends with it is no request. -/
theorem not_requests_filler (l : Bytes) (m : Method) (target : Bytes) :
    ¬ Requests (l ++ [filler]) m target := by
  have hnot : ∀ method, ¬ RequestLine.WellFormed method (l ++ [filler]) target := by
    rintro method ⟨m', w, rest, hline, -, -, -, w', v, rfl, -, -, -, -, hversion⟩
    -- the version ends with the byte `1`
    have hne := hversion.ne_nil (by decide)
    obtain ⟨v', b, rfl⟩ : ∃ v' b, v = v' ++ [b] :=
      ⟨v.dropLast, v.getLast hne, (List.dropLast_append_getLast hne).symm⟩
    have hlast := congrArg List.getLast? hline
    have hversion' := congrArg List.getLast? hversion
    simp only [← List.append_assoc, List.getLast?_concat, List.map_append, List.map_cons,
      List.map_nil] at hlast hversion'
    rw [← Option.some.inj hlast] at hversion'
    exact absurd hversion' (by decide)
  rintro (⟨-, h⟩ | ⟨-, h⟩)
  · exact hnot _ h
  · exact hnot _ h

/-- At the start of a header line, the headers can be ended with an empty body. -/
theorem completes_header {t : Bytes} {n : Int} (h : parseScan t = .line (.header n) []) :
    Completes (t ++ (ascii "Content-length:0" ++ crlf ++ crlf)) := by
  have hzero : lengthAfter n (cstr (ascii "Content-length:0")) = 0 := by
    rw [lengthAfter, if_neg (by decide), if_pos (by decide)]
    decide
  have hscan : parseScan (t ++ (ascii "Content-length:0" ++ crlf ++ crlf)) =
      .left (.body 0) 0 := by
    rw [parseScan_append, h, scan_line _ _ (by decide), endLine, nextLine_header (by decide), hzero]
    show endLine nextLine (.header 0) [] = _
    rw [endLine, nextLine_blank rfl]
  rw [Completes, hscan]
  exact ⟨le_refl _, by omega⟩

/-- Behind the CR of a line that does not crash, the request goes on. -/
theorem completes_cr {t : Bytes} {q : Awaits} {l : Bytes} (h : parseScan t = .cr q l)
    (hnot : ¬ DoomedScan t.length (.cr q l)) : ∃ e, Completes (t ++ e) := by
  have hlf : parseScan (t ++ [LF]) = endLine nextLine q l := by
    rw [parseScan_append, h]
    rfl
  rcases hq : nextLine q l with q' | r
  · -- the next line is a header line
    have hstart : parseScan (t ++ [LF]) = .line q' [] := by
      rw [hlf, endLine, hq]
    cases q' with
    | requestLine => exact absurd rfl (nextLine_ne_requestLine hq)
    | header n =>
        have hcompletes := completes_header hstart
        rw [List.append_assoc] at hcompletes
        exact ⟨_, hcompletes⟩
  · have hend : parseScan (t ++ [LF]) = .left r 0 := by
      rw [hlf, endLine, hq]
    cases q with
    | requestLine =>
        rcases nextLine_requestLine l with heq | heq | heq
        · rw [heq] at hq
          cases hq
        · rw [heq] at hq
          cases hq
          refine ⟨[LF], ?_⟩
          rw [Completes, hend]
          trivial
        · -- a request line that crashes is doomed
          have hhost : HostOnly (cstr l) := by
            by_contra hhost
            rw [nextLine, if_neg hhost] at heq
            split at heq
            · cases heq
            · cases heq
          exact absurd hhost hnot
    | header n =>
        have hblank : cstr l = [] := by
          by_contra hblank
          rw [nextLine_header hblank] at hq
          cases hq
        rw [nextLine_blank hblank] at hq
        cases hq
        have hlow : ¬ (t.length : Int) + 1 + n < 0 := fun hneg => hnot ⟨hblank, hneg⟩
        refine ⟨[LF] ++ List.replicate n.natAbs filler, ?_⟩
        rw [Completes, ← List.append_assoc, parseScan_append, hend, scan_left,
          List.length_replicate, List.length_append, List.length_append, List.length_replicate,
          List.length_singleton]
        exact ⟨by omega, by omega⟩

/-- In a line that is not known to crash, the request goes on. -/
theorem completes_line {t : Bytes} {q : Awaits} {l : Bytes} (h : parseScan t = .line q l)
    (hnot : ¬ DoomedScan t.length (.line q l)) : ∃ e, Completes (t ++ e) := by
  -- More bytes of the line, and the CR, lead to a line that does not crash.
  have hcr : ∀ s, OneLine s → ¬ DoomedScan (t ++ (s ++ [CR])).length (.cr q (l ++ s)) →
      ∃ e, Completes (t ++ e) := by
    intro s hs hnot'
    have hscan : parseScan (t ++ (s ++ [CR])) = .cr q (l ++ s) := by
      rw [parseScan_append, h, scan_append, scan_oneLine _ _ _ hs]
      rfl
    obtain ⟨e, he⟩ := completes_cr hscan hnot'
    rw [List.append_assoc] at he
    exact ⟨_, he⟩
  cases q with
  | requestLine =>
      by_cases hhost : HostOnly (cstr l)
      · have hnul : NUL ∉ l ++ [filler] := by
          intro hmem
          rcases List.mem_append.mp hmem with hmem | hmem
          · exact hnot ⟨hmem, hhost⟩
          · exact absurd (List.mem_singleton.mp hmem) (by decide)
        apply hcr [filler] (by decide)
        rintro ⟨m, target, hrequests, -⟩
        rw [cstr_eq_self hnul] at hrequests
        exact not_requests_filler l m target hrequests
      · apply hcr [] (by decide)
        rw [List.append_nil]
        exact hhost
  | header n =>
      apply hcr (List.replicate n.natAbs filler) (oneLine_replicate _)
      rintro ⟨-, hneg⟩
      rw [List.length_append, List.length_append, List.length_replicate] at hneg
      omega

/-- A body that is to come can come. -/
theorem completes_body {t : Bytes} {n : Int} {k : Nat} (h : parseScan t = .left (.body n) k)
    (hn : 0 < n) : ∃ e, Completes (t ++ e) := by
  have hdescribes := describes_scan nextLine .requestLine t
  rw [← parseScan, h] at hdescribes
  obtain ⟨q, l, rest, -, -, hlen, ls, hbytes, -⟩ := hdescribes
  have hle : k ≤ t.length := by
    rw [hbytes, List.length_append, List.length_append, hlen]
    omega
  refine ⟨List.replicate n.natAbs filler, ?_⟩
  rw [Completes, parseScan_append, h, scan_left, List.length_append, List.length_replicate]
  exact ⟨by omega, by omega⟩

/-! ## Dead states -/

/-- Behind a stray CR or LF, nothing completes the request. -/
theorem not_completes_stray {t : Bytes} (h : parseScan t = .stray) (e : Bytes) :
    ¬ Completes (t ++ e) := by
  rw [Completes, parseScan_append, h, scan_stray]
  exact id

theorem not_completes_cr {t : Bytes} {q : Awaits} {l : Bytes} (h : parseScan t = .cr q l)
    (hdoomed : DoomedScan t.length (.cr q l)) (e : Bytes) : ¬ Completes (t ++ e) := by
  rw [Completes, parseScan_append, h]
  rcases e with _ | ⟨b, e⟩
  · exact id
  · rw [scan_cons, CrlfScan.step]
    split
    · rw [endLine]
      cases q with
      | requestLine =>
          rw [nextLine_crashed hdoomed]
          dsimp only
          rw [scan_left]
          exact id
      | header n =>
          rw [nextLine_blank hdoomed.1]
          dsimp only
          rw [scan_left, List.length_append, List.length_cons]
          rintro ⟨-, hlow⟩
          have hneg := hdoomed.2
          omega
    · rw [scan_stray]
      exact id

/-- The text of the line is known, whatever follows. -/
theorem not_completes_line {t : Bytes} {q : Awaits} {l : Bytes} (h : parseScan t = .line q l)
    (hdoomed : DoomedScan t.length (.line q l)) (e : Bytes) : ¬ Completes (t ++ e) := by
  cases q with
  | header n => exact absurd hdoomed id
  | requestLine =>
      induction e generalizing t l with
      | nil =>
          rw [List.append_nil, Completes, h]
          exact id
      | cons b e ih =>
          have hstep : parseScan (t ++ [b]) = CrlfScan.step nextLine (.line .requestLine l) b := by
            rw [parseScan_append, h]
            rfl
          rw [← List.singleton_append, ← List.append_assoc]
          rw [CrlfScan.step] at hstep
          split at hstep
          · exact not_completes_cr hstep hdoomed.2 e
          · split at hstep
            · exact not_completes_stray hstep e
            · apply ih hstep
              refine ⟨List.mem_append_left _ hdoomed.1, ?_⟩
              rw [cstr_append _ hdoomed.1]
              exact hdoomed.2

/-- A line that is not finished goes on to a request exactly when it is not doomed. -/
theorem completes_iff {t : Bytes} {q : Awaits} {l : Bytes}
    (h : parseScan t = .line q l ∨ parseScan t = .cr q l) :
    (∃ e, Completes (t ++ e)) ↔ ¬ Doomed t := by
  rw [doomed_iff]
  rcases h with hz | hz
  · rw [hz]
    constructor
    · rintro ⟨e, he⟩ hdoomed
      exact not_completes_line hz hdoomed e he
    · exact completes_line hz
  · rw [hz]
    constructor
    · rintro ⟨e, he⟩ hdoomed
      exact not_completes_cr hz hdoomed e he
    · exact completes_cr hz

/-! ## When the property holds -/

/-- A parser that waits for the rest of a line. -/
theorem lineErrorsAnswered_waiting {w : World} {c : HttpConn} {ds : List Bytes} {q : Awaits}
    {l : Bytes} (hz : parseScan ds.flatten = .line q l ∨ parseScan ds.flatten = .cr q l)
    (hwait : waiting (feed w c.init ds) = true) (hnone : ¬ Offends ds.flatten) :
    LineErrorsAnswered w c ds ↔
      (Offends ds.flatten → Rejected ds.flatten) ∧ ¬ Doomed ds.flatten := by
  obtain ⟨c', w', hfeed, -⟩ := (waiting_iff _).mp hwait
  rw [← completes_iff hz]
  constructor
  · rintro ⟨-, hextend⟩
    exact ⟨fun hoffends => absurd hoffends hnone, hextend c' w' hfeed⟩
  · rintro ⟨-, hextends⟩
    exact ⟨fun hoffends => absurd hoffends hnone, fun _ _ _ => hextends⟩

/-- A stray CR or LF in front of the blank line is answered, and `NO_REQUEST` is returned only
for bytes that go on to a request that the parser ends, exactly when each stray CR or LF comes
behind a first line that is no request, and the line that is not finished does not lead to a
crash.  A request whose first line is rejected counts as ended, like one that is complete. -/
theorem lineErrorsAnswered_iff (w : World) (c : HttpConn) (ds : List Bytes)
    (hfits : ds.flatten.length ≤ READ_BUFFER_SIZE) :
    LineErrorsAnswered w c ds ↔
      (Offends ds.flatten → Rejected ds.flatten) ∧ ¬ Doomed ds.flatten := by
  have hanswer := feed_scan w c ds hfits
  have hoffends : Offends ds.flatten → OffendsScan (parseScan ds.flatten) := Offends.scan
  rcases hz : parseScan ds.flatten with ⟨q, l⟩ | ⟨q, l⟩ | _ | ⟨_ | _ | n, k⟩
  all_goals rw [hz] at hanswer hoffends
  case line => exact lineErrorsAnswered_waiting (.inl hz) hanswer hoffends
  case cr => exact lineErrorsAnswered_waiting (.inr hz) hanswer hoffends
  all_goals rw [doomed_iff, rejected_iff, hz]
  case stray =>
    have hstray := offends_of_scan hz
    obtain ⟨c', w', hfeed, -⟩ := (waiting_iff _).mp hanswer
    apply iff_of_false
    · rintro ⟨hbad, -⟩
      obtain ⟨c₁, w₁, h⟩ := hbad hstray
      rw [hfeed] at h
      cases h
    · rintro ⟨hrejected, -⟩
      obtain ⟨k, h⟩ := hrejected hstray
      cases h
  case left.rejected =>
    obtain ⟨c', w', hbad⟩ := hanswer
    apply iff_of_true
    · refine ⟨fun _ => ⟨c', w', hbad⟩, fun c₁ w₁ h => ?_⟩
      rw [hbad] at h
      cases h
    · exact ⟨fun _ => ⟨k, rfl⟩, id⟩
  case left.crashed =>
    have hcrash : feed w c.init ds = .error .nullPointer := hanswer
    rw [LineErrorsAnswered, hcrash]
    constructor
    · rintro ⟨hbad, -⟩
      refine ⟨fun h => ?_, id⟩
      obtain ⟨c', w', h⟩ := hbad h
      cases h
    · rintro ⟨hrejected, -⟩
      refine ⟨fun h => ?_, fun c' w' h => by cases h⟩
      obtain ⟨k', h⟩ := hrejected h
      cases h
  case left.body =>
    have hnone : ¬ Offends ds.flatten := hoffends
    apply iff_of_true
    · exact ⟨fun h => absurd h hnone, fun c' w' h => completes_body hz (hanswer c' w' h)⟩
    · exact ⟨fun h => absurd h hnone, id⟩

theorem lineErrorsAnswered_iff_cut :
    LineErrorsAnswered emptyWorld HttpConn.blank [ascii "GET / HT", ascii "TP/1.1\r"] ↔
      (Offends (ascii "GET / HTTP/1.1\r") → Rejected (ascii "GET / HTTP/1.1\r")) ∧
        ¬ Doomed (ascii "GET / HTTP/1.1\r") :=
  lineErrorsAnswered_iff emptyWorld HttpConn.blank [ascii "GET / HT", ascii "TP/1.1\r"]
    (by decide)

/-- A bare LF behind the request line. -/
theorem not_lineErrorsAnswered_bareLf :
    ¬ LineErrorsAnswered emptyWorld HttpConn.blank [ascii "GET / HTTP/1.1\n"] := by
  rintro ⟨hbad, -⟩
  have hoffends : Offends [ascii "GET / HTTP/1.1\n"].flatten :=
    ⟨[], ascii "GET / HTTP/1.1", [LF], by decide, List.forall_mem_nil _, by decide,
      List.forall_mem_nil _, .inl ⟨[], rfl⟩⟩
  have hwait : waiting (feed emptyWorld HttpConn.blank.init [ascii "GET / HTTP/1.1\n"]) = true := by
    decide
  obtain ⟨c, w, hfeed, -⟩ := (waiting_iff _).mp hwait
  obtain ⟨c', w', h⟩ := hbad hoffends
  rw [hfeed] at h
  cases h

end EasyWebServer.Post
