import EasyWebServer.Lib.CrlfScan
import EasyWebServer.Post.Body

/-!
# The line scanner

`parse_line` in terms of the bytes it has not passed.  `parseLine_read` says what it does with
them: it finds no CR or LF, a CR at the end, a CR LF, or a stray CR or LF.  The branch for an LF
behind a CR is dead, because the scanner never stops between the two.

`scanLines` is the loop that calls `parse_line` until a call delivers no line, and
`scansLine_of_lineStart` puts together what a user of the scanner relies on.
-/

namespace EasyWebServer.Post

open CString HttpConn CharBuf Http CrlfScan

/-! ## The property -/

/-- `m_checked_idx` is at the start of a line: at the start of the buffer, or behind a CR LF that
has been consumed, the LF of which is a NUL now. -/
def LineStart (c : HttpConn) : Prop :=
  c.checkedIdx = 0 ∨ c.readBuf.get (c.checkedIdx - 1) = NUL

/-- The connection behind a line of `n` bytes that `parse_line` has delivered. -/
def lineConsumed (c : HttpConn) (n : Nat) : HttpConn :=
  { (c.store (c.checkedIdx + n) NUL).store (c.checkedIdx + n + 1) NUL with
    checkedIdx := c.checkedIdx + n + 2 }

/-- What the answer of `parse_line` says about the bytes it has not passed. -/
def Finds (s : Bytes) : LineStatus → Prop
  | .lineOk => ∃ l rest, OneLine l ∧ s = l ++ crlf ++ rest
  | .lineBad => ∃ l rest, OneLine l ∧ StartsStray rest ∧ s = l ++ rest
  | .lineOpen => ∃ l, OneLine l ∧ (s = l ∨ s = l ++ [CR])

/-- One call, with the lines so far. -/
def scanLinesBody (s : HttpConn × List Bytes) :
    (HttpConn × List Bytes) ⊕ (List Bytes × LineStatus) :=
  match parseLine s.1 with
  | (.lineOk, c) =>
      let line := c.readBuf.slice s.1.checkedIdx (c.checkedIdx - 2 - s.1.checkedIdx)
      .inl (c, s.2 ++ [line])
  | (st, _) => .inr (s.2, st)

/-- The lines that `parse_line` delivers when it is called again and again, and the answer of
the last call. -/
def scanLines (c : HttpConn) : Option (List Bytes × LineStatus) :=
  Loop.run scanLinesBody (c.readIdx - c.checkedIdx + 1) (c, [])

/-- What a user of the scanner relies on. -/
structure ScansLine (c : HttpConn) : Prop where
  answer : ∀ st, (parseLine c).1 = st ↔ Finds (pending c) st
  consumed : ∀ l rest, OneLine l → pending c = l ++ crlf ++ rest →
    (parseLine c).2 = lineConsumed c l.length
  kept : (parseLine c).1 ≠ .lineOk →
    (parseLine c).2 = { c with checkedIdx := (parseLine c).2.checkedIdx }
  resumed : (parseLine c).1 ≠ .lineOk →
    ∀ d, parseLine ((parseLine c).2.recv d) = parseLine (c.recv d)
  lines : ∃ ls st rest, scanLines c = some (ls, st) ∧ pending c = CrlfScan.text ls ++ rest ∧
    (∀ l ∈ ls, OneLine l) ∧ st ≠ .lineOk ∧ Finds rest st

/-! ## The bytes in front of a CR or LF -/

theorem oneLine_slice {c : HttpConn} {i n : Nat} (h : Plain c i (i + n))
    (hn : i + n ≤ READ_BUFFER_SIZE) : OneLine (c.readBuf.slice i n) := by
  intro b hb
  obtain ⟨j, hj⟩ := List.mem_iff_getElem?.mp hb
  have hlt : j < n := by
    have hlen := (List.getElem?_eq_some_iff.mp hj).1
    rwa [slice_length _ hn] at hlen
  rw [slice_getElem? _ hlt hn] at hj
  rw [← Option.some.inj hj]
  exact h (i + j) (by omega) (by omega)

/-- Where the scanner may start: the indices are in order, and no CR is before
`m_checked_idx`. -/
structure ScanStart (c : HttpConn) : Prop where
  checked_le : c.checkedIdx ≤ c.readIdx
  read_le : c.readIdx ≤ READ_BUFFER_SIZE
  no_cr : c.checkedIdx = 0 ∨ c.readBuf.get (c.checkedIdx - 1) ≠ CR

theorem Scanned.scanStart {c : HttpConn} (h : Scanned c) : ScanStart c :=
  ⟨h.checked_le, h.read_le, h.no_cr⟩

theorem LineStart.scanStart {c : HttpConn} (h : LineStart c) (hchecked : c.checkedIdx ≤ c.readIdx)
    (hread : c.readIdx ≤ READ_BUFFER_SIZE) : ScanStart c where
  checked_le := hchecked
  read_le := hread
  no_cr := by
    rcases h with hzero | hnul
    · exact .inl hzero
    · right
      rw [hnul]
      decide

/-- What a call of `parse_line` finds in the bytes it has not passed. -/
inductive LineFound (c : HttpConn) : LineStatus × HttpConn → Prop where
  | exhausted (l : Bytes) (hl : OneLine l) (hs : pending c = l) :
      LineFound c (.lineOpen, { c with checkedIdx := c.checkedIdx + l.length })
  | lastCr (l : Bytes) (hl : OneLine l) (hs : pending c = l ++ [CR]) :
      LineFound c (.lineOpen, { c with checkedIdx := c.checkedIdx + l.length })
  | crlf (l rest : Bytes) (hl : OneLine l) (hs : pending c = l ++ crlf ++ rest) :
      LineFound c (.lineOk, lineConsumed c l.length)
  | stray (l rest : Bytes) (hl : OneLine l) (hstray : StartsStray rest)
      (hs : pending c = l ++ rest) :
      LineFound c (.lineBad, { c with checkedIdx := c.checkedIdx + l.length })

theorem parseLine_read {c : HttpConn} (h : ScanStart c) : LineFound c (parseLine c) := by
  obtain ⟨i, hge, hle, hplain, hscan⟩ := parseLine_scan h.checked_le
  have hread := h.read_le
  obtain ⟨n, rfl⟩ := Nat.exists_eq_add_of_le hge
  have hline := oneLine_slice hplain (by omega)
  have hlen : (c.readBuf.slice c.checkedIdx n).length = n := slice_length _ (by omega)
  -- The bytes up to the first CR or LF, and the bytes from there on.
  have hsplit : pending c = c.readBuf.slice c.checkedIdx n ++
      c.readBuf.slice (c.checkedIdx + n) (c.readIdx - (c.checkedIdx + n)) := by
    rw [← slice_append, pending]
    congr 1
    omega
  have hhead : c.checkedIdx + n < c.readIdx →
      c.readBuf.slice (c.checkedIdx + n) (c.readIdx - (c.checkedIdx + n)) =
        c.readBuf.get (c.checkedIdx + n) ::
          c.readBuf.slice (c.checkedIdx + n + 1) (c.readIdx - (c.checkedIdx + n + 1)) := by
    intro hlt
    rw [show c.readIdx - (c.checkedIdx + n) = c.readIdx - (c.checkedIdx + n + 1) + 1 by omega,
      slice_succ _ _ (by omega)]
  have hhead' : c.checkedIdx + n + 1 < c.readIdx →
      c.readBuf.slice (c.checkedIdx + n + 1) (c.readIdx - (c.checkedIdx + n + 1)) =
        c.readBuf.get (c.checkedIdx + n + 1) ::
          c.readBuf.slice (c.checkedIdx + n + 2) (c.readIdx - (c.checkedIdx + n + 2)) := by
    intro hlt
    rw [show c.readIdx - (c.checkedIdx + n + 1) = c.readIdx - (c.checkedIdx + n + 2) + 1 by omega,
      slice_succ _ _ (by omega)]
  generalize hp : parseLine c = p at hscan
  cases hscan with
  | exhausted hi =>
      rw [hi, Nat.sub_self] at hsplit
      have hfound := LineFound.exhausted (c := c) _ hline (hsplit.trans (List.append_nil _))
      rwa [hlen] at hfound
  | lastCr hi hcr =>
      rw [hhead (by omega), hcr, hi, Nat.sub_self] at hsplit
      have hfound := LineFound.lastCr (c := c) _ hline hsplit
      rwa [hlen] at hfound
  | strayCr hi hcr hlf =>
      rw [hhead (by omega), hcr, hhead' hi] at hsplit
      have hfound := LineFound.stray (c := c) _ _ hline (.inr ⟨_, _, rfl, hlf⟩) hsplit
      rwa [hlen] at hfound
  | strayLf hi hlf hcr =>
      rw [hhead hi, hlf] at hsplit
      have hfound := LineFound.stray (c := c) _ _ hline (.inl ⟨_, rfl⟩) hsplit
      rwa [hlen] at hfound
  | lfAfterCr hi hlf hcr =>
      -- the byte before an LF has been passed, or is the one before `m_checked_idx`
      exfalso
      rcases Nat.eq_zero_or_pos n with rfl | hpos
      · rcases h.no_cr with hzero | hne
        · omega
        · exact hne hcr.2
      · exact (hplain (c.checkedIdx + n - 1) (by omega) (by omega)).1 hcr.2
  | crlf hi hcr hlf =>
      rw [hhead (by omega), hcr, hhead' hi, hlf] at hsplit
      have hfound := LineFound.crlf (c := c) _ _ hline (by
        rw [List.append_assoc]
        exact hsplit)
      rwa [hlen] at hfound

/-! ## One answer for the bytes -/

/-- Where a scan for the first line is when `parse_line` answers. -/
def Found : LineStatus → Scan Unit Bytes → Prop
  | .lineOk, .left _ _ => True
  | .lineBad, .stray => True
  | .lineOpen, .line _ _ => True
  | .lineOpen, .cr _ _ => True
  | _, _ => False

/-- The scan that ends with the first line. -/
def firstLine (s : Bytes) : Scan Unit Bytes := scan (fun _ l => .inr l) (.line () []) s

theorem firstLine_crlf {l : Bytes} (hl : OneLine l) (rest : Bytes) :
    firstLine (l ++ crlf ++ rest) = .left l rest.length := by
  rw [firstLine, scan_line _ _ hl, endLine]
  exact (scan_left _ l 0 rest).trans (by rw [Nat.zero_add])

theorem Finds.found {s : Bytes} {st : LineStatus} (h : Finds s st) : Found st (firstLine s) := by
  cases st with
  | lineOk =>
      obtain ⟨l, rest, hl, rfl⟩ := h
      rw [firstLine_crlf hl]
      trivial
  | lineBad =>
      obtain ⟨l, rest, hl, hstray, rfl⟩ := h
      rw [firstLine, scan_append, scan_oneLine _ _ _ hl, scan_startsStray _ _ _ hstray]
      trivial
  | lineOpen =>
      obtain ⟨l, hl, rfl | rfl⟩ := h
      · rw [firstLine, scan_oneLine _ _ _ hl]
        trivial
      · rw [firstLine, scan_append, scan_oneLine _ _ _ hl]
        trivial

theorem Finds.unique {s : Bytes} {st st' : LineStatus} (h : Finds s st) (h' : Finds s st') :
    st = st' := by
  have hfound := h.found
  have hfound' := h'.found
  generalize firstLine s = z at hfound hfound'
  cases st <;> cases st' <;> cases z <;> first | rfl | exact absurd hfound id | exact absurd hfound' id

/-! ## One call -/

theorem LineFound.finds {c : HttpConn} {r : LineStatus × HttpConn} (h : LineFound c r) :
    Finds (pending c) r.1 := by
  cases h with
  | exhausted l hl hs => exact ⟨l, hl, .inl hs⟩
  | lastCr l hl hs => exact ⟨l, hl, .inr hs⟩
  | crlf l rest hl hs => exact ⟨l, rest, hl, hs⟩
  | stray l rest hl hstray hs => exact ⟨l, rest, hl, hstray, hs⟩

/-- The line in front of the first CR LF is delivered. -/
theorem parseLine_crlf {c : HttpConn} (hc : ScanStart c) {l rest : Bytes} (hl : OneLine l)
    (hs : pending c = l ++ crlf ++ rest) : parseLine c = (.lineOk, lineConsumed c l.length) := by
  have hfound := parseLine_read hc
  have hok : (parseLine c).1 = .lineOk := hfound.finds.unique ⟨l, rest, hl, hs⟩
  generalize parseLine c = r at hfound hok
  cases hfound with
  | exhausted _ _ _ => cases hok
  | lastCr _ _ _ => cases hok
  | stray _ _ _ _ _ => cases hok
  | crlf l' rest' hl' hs' =>
      -- the first line is unique
      have hfirst := firstLine_crlf hl rest
      rw [← hs, hs', firstLine_crlf hl' rest', Scan.left.injEq] at hfirst
      rw [hfirst.1]

/-- The bytes that have not been passed are those behind `m_checked_idx`. -/
theorem pending_getElem? {c : HttpConn} (hread : c.readIdx ≤ READ_BUFFER_SIZE) {j : Nat}
    (hj : c.checkedIdx + j < c.readIdx) :
    (pending c)[j]? = some (c.readBuf.get (c.checkedIdx + j)) :=
  slice_getElem? _ (by omega) (by omega)

theorem pending_length {c : HttpConn} (h : ScanStart c) :
    (pending c).length = c.readIdx - c.checkedIdx := by
  have hchecked := h.checked_le
  have hread := h.read_le
  exact slice_length _ (by omega)

theorem plain_of_pending {c : HttpConn} (h : ScanStart c) {l r : Bytes} (hl : OneLine l)
    (hs : pending c = l ++ r) :
    c.checkedIdx + l.length ≤ c.readIdx ∧ Plain c c.checkedIdx (c.checkedIdx + l.length) := by
  have hlen := pending_length h
  rw [hs, List.length_append] at hlen
  have hchecked := h.checked_le
  refine ⟨by omega, fun k h₁ h₂ => ?_⟩
  obtain ⟨j, rfl⟩ := Nat.exists_eq_add_of_le h₁
  have hget := pending_getElem? h.read_le (c := c) (j := j) (by omega)
  rw [hs, List.getElem?_append_left (by omega)] at hget
  exact hl _ (List.mem_of_getElem? hget)

/-- A call that delivers no line moves `m_checked_idx` over bytes that are neither CR nor LF. -/
theorem LineFound.moved {c : HttpConn} {r : LineStatus × HttpConn} (hc : ScanStart c)
    (h : LineFound c r) (hst : r.1 ≠ .lineOk) :
    ∃ i, c.checkedIdx ≤ i ∧ i ≤ c.readIdx ∧ Plain c c.checkedIdx i ∧
      r.2 = { c with checkedIdx := i } := by
  cases h with
  | exhausted l hl hs =>
      obtain ⟨hle, hplain⟩ := plain_of_pending hc hl (hs.trans (List.append_nil l).symm)
      exact ⟨_, Nat.le_add_right _ _, hle, hplain, rfl⟩
  | lastCr l hl hs =>
      obtain ⟨hle, hplain⟩ := plain_of_pending hc hl hs
      exact ⟨_, Nat.le_add_right _ _, hle, hplain, rfl⟩
  | crlf l rest hl hs => exact absurd rfl hst
  | stray l rest hl hstray hs =>
      obtain ⟨hle, hplain⟩ := plain_of_pending hc hl hs
      exact ⟨_, Nat.le_add_right _ _, hle, hplain, rfl⟩

/-- Behind a call that delivers no line, a call on more bytes goes on where it ended. -/
theorem parseLine_resumed {c : HttpConn} (hc : ScanStart c) (hst : (parseLine c).1 ≠ .lineOk)
    (d : Bytes) : parseLine ((parseLine c).2.recv d) = parseLine (c.recv d) := by
  obtain ⟨i, hge, hle, hplain, hmoved⟩ := (parseLine_read hc).moved hc hst
  have hread : i ≤ (c.recv d).readIdx := Nat.le_trans hle (Nat.le_add_right _ _)
  rw [parseLine_skip (c := c.recv d) hge hread (hplain.recv hle d), hmoved]
  rfl

/-- What a delivered line leaves behind. -/
theorem lineConsumed_spec {c : HttpConn} (hc : ScanStart c) {l rest : Bytes}
    (hs : pending c = l ++ crlf ++ rest) :
    ScanStart (lineConsumed c l.length) ∧ pending (lineConsumed c l.length) = rest ∧
      (lineConsumed c l.length).readBuf.slice c.checkedIdx l.length = l := by
  have hlen := pending_length hc
  have hread := hc.read_le
  have hchecked := hc.checked_le
  rw [hs, List.length_append, List.length_append, show crlf.length = 2 from rfl] at hlen
  have hother : ∀ j, j ≠ c.checkedIdx + l.length → j ≠ c.checkedIdx + l.length + 1 →
      (lineConsumed c l.length).readBuf.get j = c.readBuf.get j := by
    intro j h₁ h₂
    exact (get_set_ne _ _ (Ne.symm h₂)).trans (get_set_ne _ _ (Ne.symm h₁))
  have hlast : (lineConsumed c l.length).readBuf.get (c.checkedIdx + l.length + 1) = NUL :=
    get_set_self _ _ (by omega)
  have hsplit : pending c = c.readBuf.slice c.checkedIdx l.length ++
      c.readBuf.slice (c.checkedIdx + l.length) 2 ++
        c.readBuf.slice (c.checkedIdx + l.length + 2) (c.readIdx - (c.checkedIdx + l.length + 2)) := by
    rw [← slice_append, Nat.add_assoc c.checkedIdx, ← slice_append, pending]
    congr 1
    omega
  rw [hs] at hsplit
  have hfirst : (l ++ crlf).length = (c.readBuf.slice c.checkedIdx l.length ++
      c.readBuf.slice (c.checkedIdx + l.length) 2).length := by
    rw [List.length_append, List.length_append, slice_length _ (by omega),
      slice_length _ (by omega)]
    rfl
  obtain ⟨hline, hrest⟩ := List.append_inj hsplit hfirst
  have hl := (List.append_inj hline (slice_length _ (by omega)).symm).1
  refine ⟨⟨?_, hread, .inr ?_⟩, ?_, ?_⟩
  · show c.checkedIdx + l.length + 2 ≤ c.readIdx
    omega
  · rw [show (lineConsumed c l.length).checkedIdx - 1 = c.checkedIdx + l.length + 1 from rfl, hlast]
    decide
  · rw [hrest]
    apply slice_congr
    · show c.checkedIdx + l.length + 2 + (c.readIdx - (c.checkedIdx + l.length + 2)) ≤
        READ_BUFFER_SIZE
      omega
    · intro k h₁ h₂
      have hk : c.checkedIdx + l.length + 2 ≤ k := h₁
      exact hother k (by omega) (by omega)
  · refine Eq.trans ?_ hl.symm
    exact slice_congr (by omega) (fun k h₁ h₂ => hother k (by omega) (by omega))

/-! ## The lines -/

/-- The loop delivers the lines of the bytes, up to the first CR or LF that does not end one. -/
theorem scanLines_returns {c : HttpConn} (hc : ScanStart c) (acc : List Bytes) :
    ∃ ls st rest, Loop.Returns scanLinesBody (c, acc) (acc ++ ls, st) ∧
      pending c = CrlfScan.text ls ++ rest ∧ (∀ l ∈ ls, OneLine l) ∧ st ≠ .lineOk ∧
        Finds rest st := by
  -- induction on the bytes that are left: a line takes some of them
  induction hlen : (pending c).length using Nat.strongRecOn generalizing c acc with
  | ind len ih =>
      have hfound := parseLine_read hc
      generalize hp : parseLine c = r at hfound
      have hfinds := hfound.finds
      obtain ⟨st, c'⟩ := r
      by_cases hst : st = .lineOk
      · subst hst
        cases hfound with
        | crlf l rest hl hs =>
            obtain ⟨hc', hrest, hline⟩ := lineConsumed_spec hc hs
            have hshort : (pending (lineConsumed c l.length)).length < len := by
              rw [hrest, ← hlen, hs, List.length_append, List.length_append,
                show crlf.length = 2 from rfl]
              omega
            obtain ⟨ls, st, rest', hret, htext, hls, hne, hfinds'⟩ := ih _ hshort hc' (acc ++ [l]) rfl
            have hbody : scanLinesBody (c, acc) = .inl (lineConsumed c l.length, acc ++ [l]) := by
              have hn : (lineConsumed c l.length).checkedIdx - 2 - c.checkedIdx = l.length := by
                show c.checkedIdx + l.length + 2 - 2 - c.checkedIdx = l.length
                omega
              rw [scanLinesBody, hp]
              dsimp only
              rw [hn, hline]
            refine ⟨l :: ls, st, rest', ?_, ?_, ?_, hne, hfinds'⟩
            · rw [List.append_assoc] at hret
              exact .next hbody hret
            · rw [hs, ← hrest, htext, CrlfScan.text, CrlfScan.text, List.flatMap_cons,
                List.append_assoc (l ++ crlf)]
            · exact List.forall_mem_cons.mpr ⟨hl, hls⟩
      · have hbody : scanLinesBody (c, acc) = .inr (acc, st) := by
          rw [scanLinesBody, hp]
          cases st with
          | lineOk => exact absurd rfl hst
          | lineBad => rfl
          | lineOpen => rfl
        refine ⟨[], st, pending c, ?_, rfl, List.forall_mem_nil _, hst, hfinds⟩
        rw [List.append_nil]
        exact .done hbody

/-- The loop ends: a line takes at least the two bytes that end it. -/
theorem scanLines_eq {c : HttpConn} {r : List Bytes × LineStatus}
    (h : Loop.Returns scanLinesBody (c, []) r) : scanLines c = some r := by
  obtain ⟨r', hrun⟩ := Loop.exists_run_of_variant scanLinesBody (fun _ => True)
    (fun s => s.1.readIdx - s.1.checkedIdx) (by
      rintro ⟨c, acc⟩ s' - hbody
      rw [scanLinesBody] at hbody
      split at hbody
      · rename_i c' hp
        cases hbody
        obtain ⟨hlt, hle, hread⟩ := parseLine_ok_advance hp
        refine ⟨trivial, ?_⟩
        dsimp only at hlt hread ⊢
        omega
      · cases hbody) (c.readIdx - c.checkedIdx + 1) (c, []) trivial (Nat.lt_succ_self _)
  rw [scanLines, hrun, (Loop.returns_of_run hrun).det h]

/-- At the start of a line, for every content of the buffer: the answer of `parse_line` says
where the first CR or LF is and what it is.  A line is consumed and its CR LF becomes two NULs;
otherwise nothing changes but `m_checked_idx`, and with more bytes the scan goes on where it
ended.  Called again and again, `parse_line` delivers the lines in front of the first stray CR or
LF. -/
theorem scansLine_of_lineStart {c : HttpConn} (hstart : LineStart c)
    (hchecked : c.checkedIdx ≤ c.readIdx) (hread : c.readIdx ≤ READ_BUFFER_SIZE) :
    ScansLine c := by
  have hc := hstart.scanStart hchecked hread
  have hfound := parseLine_read hc
  have hfinds := hfound.finds
  constructor
  · intro st
    constructor
    · rintro rfl
      exact hfinds
    · exact fun h => hfinds.unique h
  · exact fun l rest hl hs => congrArg Prod.snd (parseLine_crlf hc hl hs)
  · intro hst
    obtain ⟨i, -, -, -, hmoved⟩ := hfound.moved hc hst
    rw [hmoved]
  · exact fun hst d => parseLine_resumed hc hst d
  · obtain ⟨ls, st, rest, hret, htext, hls, hne, hfinds'⟩ := scanLines_returns hc []
    exact ⟨ls, st, rest, scanLines_eq hret, htext, hls, hne, hfinds'⟩

theorem scansLine_recv : ScansLine (HttpConn.blank.init.recv (ascii "a\r\nb")) :=
  scansLine_of_lineStart (.inl rfl) (by decide) (by decide)

end EasyWebServer.Post
