import EasyWebServer.Common.Conn
import EasyWebServer.Lib.CharBuf

/-!
# parse_line

The two servers have the same `parse_line`.  `LineBuf` is the part of a connection that it
reads and writes.

* `LineScan` lists its exits, and `parseLine_scan` is the only place where the loop is unfolded
  to find them.
* `parseLine_skip` starts it behind bytes that do not matter.
* `parseLine_nulStores` says what it does to the buffer: it stores NULs.
* `SameFrom.parseLine` compares it on two buffers that are the same from an index on.
-/

namespace EasyWebServer

open CString CharBuf

namespace Common

/-! ## The loop -/

/-- The members that `parse_line` works on. -/
structure LineBuf (cap : Nat) where
  readBuf : CharBuf cap
  readIdx : Nat
  checkedIdx : Nat

namespace LineBuf

variable {cap : Nat}

/-- `m_read_buf[i] = x`. -/
def store (b : LineBuf cap) (i : Nat) (x : UInt8) : LineBuf cap :=
  { b with readBuf := b.readBuf.set i x }

/-- The `for` loop of `parse_line`, with the number of iterations it has left,
`m_read_idx - m_checked_idx`. -/
def parseLineFrom : Nat → LineBuf cap → LineStatus × LineBuf cap
  | 0, b => (.lineOpen, b)
  | n + 1, b =>
      let temp := b.readBuf.get b.checkedIdx
      if temp = CR then
        if b.checkedIdx + 1 = b.readIdx then (.lineOpen, b)
        else if b.readBuf.get (b.checkedIdx + 1) = LF then
          let b' := (b.store b.checkedIdx NUL).store (b.checkedIdx + 1) NUL
          (.lineOk, { b' with checkedIdx := b.checkedIdx + 2 })
        else (.lineBad, b)
      else if temp = LF then
        if 1 < b.checkedIdx ∧ b.readBuf.get (b.checkedIdx - 1) = CR then
          let b' := (b.store (b.checkedIdx - 1) NUL).store b.checkedIdx NUL
          (.lineOk, { b' with checkedIdx := b.checkedIdx + 1 })
        else (.lineBad, b)
      else parseLineFrom n { b with checkedIdx := b.checkedIdx + 1 }

/-- `parse_line`. -/
def parseLine (b : LineBuf cap) : LineStatus × LineBuf cap :=
  parseLineFrom (b.readIdx - b.checkedIdx) b

/-! ## Its exits -/

/-- No byte of `[i, j)` is a CR or an LF. -/
def Plain (buf : CharBuf cap) (i j : Nat) : Prop :=
  ∀ k, i ≤ k → k < j → buf.get k ≠ CR ∧ buf.get k ≠ LF

/-- The exits of `parse_line`, when the first CR or LF is at index `i`, or `i`
is `m_read_idx` and there is none. -/
inductive LineScan (b : LineBuf cap) (i : Nat) : LineStatus × LineBuf cap → Prop where
  | exhausted (hi : i = b.readIdx) :
      LineScan b i (.lineOpen, { b with checkedIdx := i })
  | lastCr (hi : i + 1 = b.readIdx) (hcr : b.readBuf.get i = CR) :
      LineScan b i (.lineOpen, { b with checkedIdx := i })
  | crlf (hi : i + 1 < b.readIdx) (hcr : b.readBuf.get i = CR)
      (hlf : b.readBuf.get (i + 1) = LF) :
      LineScan b i (.lineOk,
        { (b.store i NUL).store (i + 1) NUL with checkedIdx := i + 2 })
  | strayCr (hi : i + 1 < b.readIdx) (hcr : b.readBuf.get i = CR)
      (hlf : b.readBuf.get (i + 1) ≠ LF) :
      LineScan b i (.lineBad, { b with checkedIdx := i })
  | lfAfterCr (hi : i < b.readIdx) (hlf : b.readBuf.get i = LF)
      (hcr : 1 < i ∧ b.readBuf.get (i - 1) = CR) :
      LineScan b i (.lineOk,
        { (b.store (i - 1) NUL).store i NUL with checkedIdx := i + 1 })
  | strayLf (hi : i < b.readIdx) (hlf : b.readBuf.get i = LF)
      (hcr : ¬(1 < i ∧ b.readBuf.get (i - 1) = CR)) :
      LineScan b i (.lineBad, { b with checkedIdx := i })

private theorem parseLineFrom_scan (n : Nat) : ∀ (b : LineBuf cap),
    b.checkedIdx + n = b.readIdx →
    ∃ i, b.checkedIdx ≤ i ∧ i ≤ b.readIdx ∧ Plain b.readBuf b.checkedIdx i ∧
      LineScan b i (parseLineFrom n b) := by
  induction n with
  | zero =>
      intro b hn
      refine ⟨b.checkedIdx, Nat.le_refl _, by omega, ?_, ?_⟩
      · intro k h1 h2
        omega
      · rw [parseLineFrom]
        exact .exhausted (by omega)
  | succ n ih =>
      intro b hn
      have hself : Plain b.readBuf b.checkedIdx b.checkedIdx := by
        intro k h1 h2
        omega
      rw [parseLineFrom]
      split
      · rename_i hcr
        refine ⟨b.checkedIdx, Nat.le_refl _, by omega, hself, ?_⟩
        split
        · exact .lastCr ‹_› hcr
        · split
          · exact .crlf (by omega) hcr ‹_›
          · exact .strayCr (by omega) hcr ‹_›
      · rename_i hcr
        split
        · rename_i hlf
          refine ⟨b.checkedIdx, Nat.le_refl _, by omega, hself, ?_⟩
          split
          · exact .lfAfterCr (by omega) hlf ‹_›
          · exact .strayLf (by omega) hlf ‹_›
        · rename_i hlf
          obtain ⟨i, h1, h2, hplain, hscan⟩ :=
            ih { b with checkedIdx := b.checkedIdx + 1 } (by simp only; omega)
          refine ⟨i, Nat.le_of_succ_le h1, h2, ?_, ?_⟩
          · intro k hk1 hk2
            rcases Nat.eq_or_lt_of_le hk1 with rfl | hlt
            · exact ⟨hcr, hlf⟩
            · exact hplain k hlt hk2
          · generalize parseLineFrom n _ = r at hscan
            cases hscan with
            | exhausted hi => exact .exhausted hi
            | lastCr hi hcr => exact .lastCr hi hcr
            | crlf hi hcr hlf => exact .crlf hi hcr hlf
            | strayCr hi hcr hlf => exact .strayCr hi hcr hlf
            | lfAfterCr hi hlf hcr => exact .lfAfterCr hi hlf hcr
            | strayLf hi hlf hcr => exact .strayLf hi hlf hcr

/-- What `parse_line` does, on every buffer. -/
theorem parseLine_scan {b : LineBuf cap} (h : b.checkedIdx ≤ b.readIdx) :
    ∃ i, b.checkedIdx ≤ i ∧ i ≤ b.readIdx ∧ Plain b.readBuf b.checkedIdx i ∧
      LineScan b i (parseLine b) :=
  parseLineFrom_scan _ b (by omega)

/-- Behind the received bytes, it finds nothing. -/
theorem parseLine_behind {b : LineBuf cap} (h : b.readIdx ≤ b.checkedIdx) :
    parseLine b = (.lineOpen, b) := by
  rw [parseLine, Nat.sub_eq_zero_of_le h, parseLineFrom]

/-- `m_checked_idx` moves forward, inside the received bytes. -/
theorem parseLine_bounds {b : LineBuf cap} (h : b.checkedIdx ≤ b.readIdx) :
    b.checkedIdx ≤ (parseLine b).2.checkedIdx ∧ (parseLine b).2.checkedIdx ≤ b.readIdx := by
  obtain ⟨i, h1, h2, -, hscan⟩ := parseLine_scan h
  generalize parseLine b = r at hscan
  cases hscan with
  | crlf hi _ _ => exact ⟨Nat.le_add_right_of_le h1, hi⟩
  | lfAfterCr hi _ _ => exact ⟨Nat.le_add_right_of_le h1, hi⟩
  | exhausted _ | lastCr _ _ | strayCr _ _ _ | strayLf _ _ _ => exact ⟨h1, h2⟩

/-- A complete line moves it at least by one. -/
theorem parseLine_ok_advance {b b' : LineBuf cap} (h : parseLine b = (.lineOk, b')) :
    b.checkedIdx < b'.checkedIdx ∧ b'.checkedIdx ≤ b'.readIdx ∧ b'.readIdx = b.readIdx := by
  rcases Nat.le_total b.readIdx b.checkedIdx with hge | hle
  · rw [parseLine_behind hge] at h
    cases h
  · obtain ⟨i, h1, h2, -, hscan⟩ := parseLine_scan hle
    rw [h] at hscan
    cases hscan with
    | crlf hi _ _ => exact ⟨by simp only; omega, by simp only [store]; omega, rfl⟩
    | lfAfterCr hi _ _ => exact ⟨by simp only; omega, by simp only [store]; omega, rfl⟩

/-- The same for a connection, `f` being what it takes over. -/
theorem parseLine_ok_of {χ : Type} {b : LineBuf cap} {f : LineBuf cap → χ} {c : χ}
    (h : (b.parseLine.1, f b.parseLine.2) = (.lineOk, c)) :
    ∃ b', c = f b' ∧ b.checkedIdx < b'.checkedIdx ∧ b'.checkedIdx ≤ b.readIdx := by
  rcases hp : b.parseLine with ⟨st, b'⟩
  rw [hp] at h
  cases h
  obtain ⟨h1, h2, h3⟩ := parseLine_ok_advance hp
  exact ⟨b', rfl, h1, h2.trans h3.le⟩

private theorem parseLineFrom_skip (n : Nat) : ∀ (b : LineBuf cap) (i : Nat),
    b.checkedIdx ≤ i → i - b.checkedIdx ≤ n → Plain b.readBuf b.checkedIdx i →
    parseLineFrom n b =
      parseLineFrom (n - (i - b.checkedIdx)) { b with checkedIdx := i } := by
  induction n with
  | zero =>
      intro b i h1 h2 _
      have hi : i = b.checkedIdx := by omega
      subst hi
      rw [Nat.zero_sub]
  | succ n ih =>
      intro b i h1 h2 hplain
      rcases Nat.eq_or_lt_of_le h1 with rfl | hlt
      · rw [Nat.sub_self, Nat.sub_zero]
      · obtain ⟨hcr, hlf⟩ := hplain b.checkedIdx (Nat.le_refl _) hlt
        rw [parseLineFrom, if_neg hcr, if_neg hlf]
        have hrest := ih { b with checkedIdx := b.checkedIdx + 1 } i hlt
          (by simp only; omega) (fun k hk1 hk2 => hplain k (Nat.le_of_succ_le hk1) hk2)
        rw [hrest, show n + 1 - (i - b.checkedIdx) = n - (i - (b.checkedIdx + 1)) by omega]

/-- `parse_line` may start behind bytes that are neither CR nor LF. -/
theorem parseLine_skip {b : LineBuf cap} {i : Nat} (h1 : b.checkedIdx ≤ i)
    (h2 : i ≤ b.readIdx) (hplain : Plain b.readBuf b.checkedIdx i) :
    parseLine b = parseLine { b with checkedIdx := i } := by
  rw [parseLine, parseLineFrom_skip _ b i h1 (by omega) hplain, parseLine]
  congr 1
  simp only
  omega

/-- The CR LF behind such bytes is consumed. -/
theorem parseLine_crlf {b : LineBuf cap} {i : Nat} (h1 : b.checkedIdx ≤ i)
    (hi : i + 1 < b.readIdx) (hplain : Plain b.readBuf b.checkedIdx i)
    (hcr : b.readBuf.get i = CR) (hlf : b.readBuf.get (i + 1) = LF) :
    parseLine b = (.lineOk,
      { (b.store i NUL).store (i + 1) NUL with checkedIdx := i + 2 }) := by
  obtain ⟨n, hn⟩ : ∃ n, b.readIdx - i = n + 1 := ⟨b.readIdx - i - 1, by omega⟩
  rw [parseLine_skip h1 (by omega) hplain, parseLine]
  dsimp only
  rw [hn, parseLineFrom]
  dsimp only
  rw [if_pos hcr, if_neg (by omega), if_pos hlf]
  rfl

/-! ## Its stores -/

/-- `parse_line` stores nothing but NULs. -/
theorem parseLine_nulStores (b : LineBuf cap) :
    NulStores b.readBuf (parseLine b).2.readBuf := by
  rcases Nat.le_total b.readIdx b.checkedIdx with hge | hle
  · rw [parseLine_behind hge]
    exact .refl _
  · obtain ⟨i, -, -, -, hscan⟩ := parseLine_scan hle
    generalize parseLine b = r at hscan
    cases hscan with
    | crlf _ _ _ => exact (NulStores.set _ _).trans (.set _ _)
    | lfAfterCr _ _ _ => exact (NulStores.set _ _).trans (.set _ _)
    | exhausted _ | lastCr _ _ | strayCr _ _ _ | strayLf _ _ _ => exact .refl _

/-! ## Two buffers -/

/-- The scanners are at the same place, and see the same bytes from `i` on.  Neither finds a CR
in front of `i`. -/
structure SameFrom (i : Nat) (a b : LineBuf cap) : Prop where
  readIdx : b.readIdx = a.readIdx
  checkedIdx : b.checkedIdx = a.checkedIdx
  bytes : ∀ j, i ≤ j → b.readBuf.get j = a.readBuf.get j
  le : i ≤ a.checkedIdx
  front : i = 0 ∨ a.readBuf.get (i - 1) ≠ CR ∧ b.readBuf.get (i - 1) ≠ CR

/-- What the two calls of `parse_line` do: they give the same answer, and change the same bytes
from `i` on. -/
structure BothScan (i : Nat) (a b : LineBuf cap) (r r' : LineStatus × LineBuf cap) : Prop where
  status : r'.1 = r.1
  checkedIdx : r'.2.checkedIdx = r.2.checkedIdx
  le : a.checkedIdx ≤ r.2.checkedIdx
  bytes : ∀ j, i ≤ j → r'.2.readBuf.get j = r.2.readBuf.get j
  before : ∀ j, j < i → r.2.readBuf.get j = a.readBuf.get j ∧
    r'.2.readBuf.get j = b.readBuf.get j

namespace SameFrom

variable {i : Nat} {a b : LineBuf cap}

/-- No byte is changed. -/
theorem stay (h : SameFrom i a b) (st : LineStatus) : BothScan i a b (st, a) (st, b) :=
  ⟨rfl, h.checkedIdx, Nat.le_refl _, h.bytes, fun _ _ => ⟨rfl, rfl⟩⟩

/-- A line is delivered: two NULs are stored, both behind `i`. -/
theorem deliver (h : SameFrom i a b) {j k : Nat} (hj : i ≤ j) (hk : a.checkedIdx ≤ k) :
    BothScan i a b (.lineOk, { (a.store j NUL).store (j + 1) NUL with checkedIdx := k })
      (.lineOk, { (b.store j NUL).store (j + 1) NUL with checkedIdx := k }) where
  status := rfl
  checkedIdx := rfl
  le := hk
  bytes := fun l hl => get_set_congr (get_set_congr (h.bytes l hl) NUL) NUL
  before := by
    intro l hl
    constructor
    · exact (get_set_ne _ _ (by omega)).trans (get_set_ne _ _ (by omega))
    · exact (get_set_ne _ _ (by omega)).trans (get_set_ne _ _ (by omega))

/-- Both find a CR in front of the place, or none does. -/
theorem behindCr (h : SameFrom i a b) :
    (1 < a.checkedIdx ∧ b.readBuf.get (a.checkedIdx - 1) = CR ↔
      1 < a.checkedIdx ∧ a.readBuf.get (a.checkedIdx - 1) = CR) ∧
    (1 < a.checkedIdx ∧ a.readBuf.get (a.checkedIdx - 1) = CR → i < a.checkedIdx) := by
  rcases Nat.eq_or_lt_of_le h.le with heq | hlt
  · rcases h.front with hzero | ⟨ha, hb⟩
    · refine ⟨iff_of_false ?_ ?_, ?_⟩ <;> omega
    · rw [← heq]
      exact ⟨iff_of_false (fun h => hb h.2) (fun h => ha h.2), fun h => absurd h.2 ha⟩
  · rw [h.bytes _ (by omega)]
    exact ⟨Iff.rfl, fun _ => hlt⟩

private theorem parseLineFrom (n : Nat) : ∀ {a b : LineBuf cap}, SameFrom i a b →
    BothScan i a b (parseLineFrom n a) (parseLineFrom n b) := by
  induction n with
  | zero => exact fun h => h.stay .lineOpen
  | succ n ih =>
      intro a b h
      have hle := h.le
      obtain ⟨hbehind, hpast⟩ := h.behindCr
      rw [LineBuf.parseLineFrom, LineBuf.parseLineFrom, h.checkedIdx, h.readIdx, h.bytes _ hle,
        h.bytes (a.checkedIdx + 1) (by omega)]
      dsimp only
      rw [if_congr hbehind rfl rfl]
      split_ifs with hcr hlast hlf hlf hback
      · exact h.stay .lineOpen
      · exact h.deliver hle (by omega)
      · exact h.stay .lineBad
      · have hlt := hpast hback
        have hdeliver := h.deliver (j := a.checkedIdx - 1) (k := a.checkedIdx + 1) (by omega)
          (by omega)
        rwa [show a.checkedIdx - 1 + 1 = a.checkedIdx by omega] at hdeliver
      · exact h.stay .lineBad
      · have hnext := ih (a := { a with checkedIdx := a.checkedIdx + 1 })
          (b := { b with readIdx := a.readIdx, checkedIdx := a.checkedIdx + 1 })
          ⟨rfl, rfl, h.bytes, Nat.le_succ_of_le hle, h.front⟩
        exact ⟨hnext.status, hnext.checkedIdx, Nat.le_of_succ_le hnext.le, hnext.bytes,
          hnext.before⟩

/-- The two calls of `parse_line`. -/
theorem parseLine (h : SameFrom i a b) : BothScan i a b a.parseLine b.parseLine := by
  rw [LineBuf.parseLine, LineBuf.parseLine, h.readIdx, h.checkedIdx]
  exact h.parseLineFrom _

end SameFrom

end LineBuf

end Common

end EasyWebServer
