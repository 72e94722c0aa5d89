import EasyWebServer.Lib.Message

/-!
# Scanning a stream for lines

A stream of bytes is read byte for byte.  A line ends with CR LF, and `next` says what a
complete line leads to: another state, in which the next line is read, or a result, behind
which the bytes are counted only.  A CR without an LF behind it and an LF without a CR before it
are stray.

`Scan` is where the scanner is.  It has no buffer, so every stream has a scan, and the scan of
a longer stream goes on from that of the shorter one (`scan_append`).  `scan_text` and the
lemmas before it compute the scan of a stream that is given in lines, and `describes_scan` is the
way back: the lines that a scan has read.
-/

namespace EasyWebServer

namespace CrlfScan

open Http

/-- Where a scanner is. -/
inductive Scan (σ ρ : Type*) where
  /-- In a line of which `l` has been read. -/
  | line (q : σ) (l : Bytes)
  /-- Behind `l` and a CR. -/
  | cr (q : σ) (l : Bytes)
  /-- Behind a stray CR or LF. -/
  | stray
  /-- A line has led to the result, and `k` bytes follow on it. -/
  | left (r : ρ) (k : Nat)

variable {σ ρ : Type*} (next : σ → Bytes → σ ⊕ ρ)

/-- Behind a complete line. -/
def endLine (q : σ) (l : Bytes) : Scan σ ρ :=
  match next q l with
  | .inl q' => .line q' []
  | .inr r => .left r 0

/-- One byte. -/
def step : Scan σ ρ → UInt8 → Scan σ ρ
  | .line q l, b => if b = CR then .cr q l else if b = LF then .stray else .line q (l ++ [b])
  | .cr q l, b => if b = LF then endLine next q l else .stray
  | .stray, _ => .stray
  | .left r k, _ => .left r (k + 1)

/-- A stream. -/
def scan (z : Scan σ ρ) (t : Bytes) : Scan σ ρ := t.foldl (step next) z

theorem scan_cons (z : Scan σ ρ) (b : UInt8) (t : Bytes) :
    scan next z (b :: t) = scan next (step next z b) t := rfl

theorem scan_append (z : Scan σ ρ) (s t : Bytes) :
    scan next z (s ++ t) = scan next (scan next z s) t := List.foldl_append

/-! ## The scan of a stream in lines -/

theorem scan_stray (t : Bytes) : scan next .stray t = .stray := by
  induction t with
  | nil => rfl
  | cons b t ih => exact ih

theorem scan_left (r : ρ) (k : Nat) (t : Bytes) :
    scan next (.left r k) t = .left r (k + t.length) := by
  induction t generalizing k with
  | nil => rfl
  | cons b t ih =>
      rw [scan_cons, List.length_cons, step, ih]
      congr 1
      omega

/-- Bytes without CR and LF are part of the line. -/
theorem scan_oneLine (q : σ) (l : Bytes) {s : Bytes} (hs : OneLine s) :
    scan next (.line q l) s = .line q (l ++ s) := by
  induction s generalizing l with
  | nil => rw [List.append_nil]; rfl
  | cons b s ih =>
      obtain ⟨hcr, hlf⟩ := hs b List.mem_cons_self
      rw [scan_cons, step, if_neg hcr, if_neg hlf,
        ih _ (fun x hx => hs x (List.mem_cons_of_mem b hx)), List.append_assoc]
      rfl

theorem scan_crlf (q : σ) (l t : Bytes) :
    scan next (.line q l) (crlf ++ t) = scan next (endLine next q l) t := rfl

/-- A complete line. -/
theorem scan_line (q : σ) {l : Bytes} (hl : OneLine l) (t : Bytes) :
    scan next (.line q []) (l ++ crlf ++ t) = scan next (endLine next q l) t := by
  rw [List.append_assoc, scan_append, scan_oneLine next q [] hl, List.nil_append, scan_crlf]

/-- The text starts with a CR that no LF follows, or with an LF. -/
def StartsStray (t : Bytes) : Prop :=
  (∃ rest, t = LF :: rest) ∨ ∃ b rest, t = CR :: b :: rest ∧ b ≠ LF

theorem scan_startsStray (q : σ) (l : Bytes) {t : Bytes} (ht : StartsStray t) :
    scan next (.line q l) t = .stray := by
  rcases ht with ⟨rest, rfl⟩ | ⟨b, rest, rfl, hb⟩
  · rw [scan_cons, step, if_neg (by decide), if_pos rfl, scan_stray]
  · rw [scan_cons, step, if_pos rfl, scan_cons, step, if_neg hb, scan_stray]

/-- The text of complete lines. -/
def text (ls : List Bytes) : Bytes := ls.flatMap (fun l => l ++ crlf)

theorem text_append (ls ls' : List Bytes) : text (ls ++ ls') = text ls ++ text ls' :=
  List.flatMap_append

theorem text_singleton (l : Bytes) : text [l] = l ++ crlf := List.append_nil _

/-- The state behind lines none of which leads to a result. -/
def after : σ → List Bytes → Option σ
  | q, [] => some q
  | q, l :: ls =>
      match next q l with
      | .inl q' => after q' ls
      | .inr _ => none

theorem after_cons {q q' : σ} {l : Bytes} (h : next q l = .inl q') (ls : List Bytes) :
    after next q (l :: ls) = after next q' ls := by
  rw [after, h]

theorem after_append {q q' : σ} {ls : List Bytes} (h : after next q ls = some q')
    (ls' : List Bytes) : after next q (ls ++ ls') = after next q' ls' := by
  induction ls generalizing q with
  | nil =>
      cases h
      rfl
  | cons l ls ih =>
      rw [after] at h
      split at h
      · rename_i q₁ hq
        rw [List.cons_append, after_cons next hq, ih h]
      · cases h

/-- Complete lines. -/
theorem scan_text {q q' : σ} {ls : List Bytes} (hls : ∀ l ∈ ls, OneLine l)
    (h : after next q ls = some q') (t : Bytes) :
    scan next (.line q []) (text ls ++ t) = scan next (.line q' []) t := by
  induction ls generalizing q with
  | nil =>
      cases h
      rfl
  | cons l ls ih =>
      rw [after] at h
      split at h
      · rename_i q₁ hq
        have hrest : text (l :: ls) ++ t = l ++ crlf ++ (text ls ++ t) := by
          rw [text, List.flatMap_cons, List.append_assoc]
          rfl
        rw [hrest, scan_line next q (hls l List.mem_cons_self), endLine, hq]
        exact ih (fun l' hl' => hls l' (List.mem_cons_of_mem l hl')) h
      · cases h

/-! ## The lines of a scan -/

/-- The stream is complete lines that lead from `q₀` to `q`, and `rest`. -/
def ReadTo (q₀ : σ) (t : Bytes) (q : σ) (rest : Bytes) : Prop :=
  ∃ ls, t = text ls ++ rest ∧ (∀ l ∈ ls, OneLine l) ∧ after next q₀ ls = some q

theorem ReadTo.scan {q₀ q : σ} {t rest : Bytes} (h : ReadTo next q₀ t q rest) :
    scan next (.line q₀ []) t = scan next (.line q []) rest := by
  obtain ⟨ls, rfl, hls, hafter⟩ := h
  exact scan_text next hls hafter rest

/-- What a scan says about the stream. -/
def Describes (q₀ : σ) (t : Bytes) : Scan σ ρ → Prop
  | .line q l => OneLine l ∧ ReadTo next q₀ t q l
  | .cr q l => OneLine l ∧ ReadTo next q₀ t q (l ++ [CR])
  | .stray => ∃ q l rest, OneLine l ∧ StartsStray rest ∧ ReadTo next q₀ t q (l ++ rest)
  | .left r k => ∃ q l rest, OneLine l ∧ next q l = .inr r ∧ rest.length = k ∧
      ReadTo next q₀ t q (l ++ crlf ++ rest)

theorem ReadTo.append {q₀ q : σ} {t rest : Bytes} (h : ReadTo next q₀ t q rest) (s : Bytes) :
    ReadTo next q₀ (t ++ s) q (rest ++ s) := by
  obtain ⟨ls, rfl, hls, hafter⟩ := h
  exact ⟨ls, List.append_assoc _ _ _, hls, hafter⟩

/-- The line that is complete joins the others. -/
theorem ReadTo.endLine {q₀ q q' : σ} {t l : Bytes} (h : ReadTo next q₀ t q (l ++ crlf))
    (hl : OneLine l) (hq : next q l = .inl q') : ReadTo next q₀ t q' [] := by
  obtain ⟨ls, rfl, hls, hafter⟩ := h
  refine ⟨ls ++ [l], ?_, ?_, ?_⟩
  · rw [text_append, text_singleton, List.append_nil]
  · intro l' hl'
    rcases List.mem_append.mp hl' with hmem | hmem
    · exact hls l' hmem
    · rw [List.mem_singleton.mp hmem]
      exact hl
  · rw [after_append next hafter, after_cons next hq]
    rfl

theorem Describes.step {q₀ : σ} {t : Bytes} {z : Scan σ ρ} (h : Describes next q₀ t z)
    (b : UInt8) : Describes next q₀ (t ++ [b]) (step next z b) := by
  rcases z with ⟨q, l⟩ | ⟨q, l⟩ | _ | ⟨r, k⟩
  case line =>
    obtain ⟨hl, hread⟩ := h
    rw [CrlfScan.step]
    split
    · rename_i hcr
      rw [hcr]
      exact ⟨hl, hread.append next [CR]⟩
    · rename_i hcr
      split
      · rename_i hlf
        rw [hlf]
        exact ⟨q, l, [LF], hl, .inl ⟨[], rfl⟩, hread.append next [LF]⟩
      · rename_i hlf
        refine ⟨?_, hread.append next [b]⟩
        intro x hx
        rcases List.mem_append.mp hx with hmem | hmem
        · exact hl x hmem
        · rw [List.mem_singleton.mp hmem]
          exact ⟨hcr, hlf⟩
  case cr =>
    obtain ⟨hl, hread⟩ := h
    have hread' := hread.append next [b]
    rw [List.append_assoc] at hread'
    rw [CrlfScan.step]
    split
    · rename_i hlf
      rw [hlf] at hread' ⊢
      rw [CrlfScan.endLine]
      split
      · rename_i q' hq
        exact ⟨List.forall_mem_nil _, hread'.endLine next hl hq⟩
      · rename_i r hr
        refine ⟨q, l, [], hl, hr, rfl, ?_⟩
        rw [List.append_nil]
        exact hread'
    · rename_i hlf
      exact ⟨q, l, [CR, b], hl, .inr ⟨b, [], rfl, hlf⟩, hread'⟩
  case stray =>
    obtain ⟨q, l, rest, hl, hstray, hread⟩ := h
    refine ⟨q, l, rest ++ [b], hl, ?_, ?_⟩
    · rcases hstray with ⟨rest, rfl⟩ | ⟨x, rest, rfl, hx⟩
      · exact .inl ⟨rest ++ [b], rfl⟩
      · exact .inr ⟨x, rest ++ [b], rfl, hx⟩
    · rw [← List.append_assoc]
      exact hread.append next [b]
  case left =>
    obtain ⟨q, l, rest, hl, hr, hlen, hread⟩ := h
    refine ⟨q, l, rest ++ [b], hl, hr, ?_, ?_⟩
    · rw [List.length_append, hlen]
      rfl
    · rw [← List.append_assoc]
      exact hread.append next [b]

/-- Every scan describes its stream. -/
theorem describes_scan (q₀ : σ) (t : Bytes) : Describes next q₀ t (scan next (.line q₀ []) t) := by
  induction t using List.reverseRecOn with
  | nil => exact ⟨List.forall_mem_nil _, [], rfl, List.forall_mem_nil _, rfl⟩
  | append_singleton t b ih =>
      rw [scan_append]
      exact ih.step next b

end CrlfScan

end EasyWebServer
