import EasyWebServer.Lib.CString
import Mathlib.Data.Nat.Digits.Lemmas

/-!
# C integers on an LP64 machine

`int` values are Lean integers, and `wrap32` is the conversion to `int`: the
value modulo `2 ^ 32` in the signed range.  `toSizeT` is the conversion to
`size_t`.  `atoi` follows the C library: `strtol` saturates at the range of
`long`, and the result is converted to `int`.

The second half is the decimal notation of `printf("%d")`.  `digitsValue`
reads back what `decimal` writes, and `decimal_wrap32_length_le` bounds its length.
-/

namespace EasyWebServer

namespace CInt

open CString

/-- `INT_MAX`. -/
def INT_MAX : Int := 2147483647

/-- Conversion to `int`. -/
def wrap32 (x : Int) : Int := x.bmod 4294967296

/-- Conversion to `size_t`. -/
def toSizeT (x : Int) : Nat := (x % 2 ^ 64).toNat

/-- Saturation at the range of `long`. -/
def clampLong (x : Int) : Int := max (-(2 ^ 63)) (min x (2 ^ 63 - 1))

/-- `atoi`. -/
def atoi (mem : Bytes) : Int := wrap32 (clampLong (decimalPrefix mem))

/-- `atol`. -/
def atol (mem : Bytes) : Int := clampLong (decimalPrefix mem)

/-- `atoi` reads a string up to its terminator. -/
theorem atoi_congr {mem mem' : Bytes} (h : cstr mem = cstr mem') : atoi mem = atoi mem' := by
  rw [atoi, atoi, decimalPrefix, decimalPrefix, h]

theorem wrap32_of_range {x : Int} (hlo : -2147483648 ≤ x) (hhi : x ≤ INT_MAX) :
    wrap32 x = x := by
  simp only [INT_MAX] at hhi
  simp only [wrap32, Int.bmod_def]
  omega

theorem wrap32_le (x : Int) : wrap32 x ≤ INT_MAX := by
  simp only [wrap32, INT_MAX, Int.bmod_def]
  omega

theorem toSizeT_natCast {n : Nat} (h : (n : Int) ≤ INT_MAX) :
    toSizeT n = n := by
  simp only [INT_MAX] at h
  simp only [toSizeT]
  omega

/-! ## Decimal notation -/

/-- The decimal digits of a natural number, most significant first. -/
def decimalNat (n : Nat) : Bytes :=
  if n = 0 then [48] else (Nat.digits 10 n).reverse.map (fun d => UInt8.ofNat (48 + d))

/-- `printf("%d")`. -/
def decimal (x : Int) : Bytes :=
  if x < 0 then 45 :: decimalNat x.natAbs else decimalNat x.natAbs

private theorem digit_value {d : Nat} (h : d < 10) :
    (UInt8.ofNat (48 + d)).toNat = 48 + d := by
  rw [UInt8.toNat_ofNat']
  omega

private theorem digitsValue_reverse (ds : List Nat) (h : ∀ d ∈ ds, d < 10) :
    digitsValue (ds.reverse.map (fun d => UInt8.ofNat (48 + d))) =
      Nat.ofDigits 10 ds := by
  rw [digitsValue, List.foldl_map, List.foldl_reverse]
  induction ds with
  | nil => rfl
  | cons d ds ih =>
      have hd := digit_value (h d (by simp))
      rw [List.foldr_cons, ih (fun x hx => h x (by simp [hx])), hd,
        Nat.ofDigits_cons]
      omega

/-- The digits of a number read back as the number. -/
theorem digitsValue_decimalNat (n : Nat) : digitsValue (decimalNat n) = n := by
  unfold decimalNat
  split
  · rename_i h
    subst h
    rfl
  · rw [digitsValue_reverse _ (fun d hd => Nat.digits_lt_base (by omega) hd),
      Nat.ofDigits_digits]

/-- A number is written with digits only. -/
theorem isDigit_of_mem_decimalNat {n : Nat} {b : UInt8}
    (h : b ∈ decimalNat n) : isDigit b = true := by
  unfold decimalNat at h
  split at h
  · rw [List.mem_singleton] at h
    subst h
    decide
  · simp only [List.mem_map, List.mem_reverse] at h
    obtain ⟨d, hd, rfl⟩ := h
    have hlt : d < 10 := Nat.digits_lt_base (by omega) hd
    have hv := digit_value hlt
    simp only [isDigit, Bool.and_eq_true, decide_eq_true_eq, UInt8.le_iff_toNat_le, hv]
    exact ⟨by simp, by simp; omega⟩

theorem nul_notMem_decimalNat (n : Nat) : NUL ∉ decimalNat n :=
  fun h => absurd (isDigit_of_mem_decimalNat h) (by decide)

/-- A number below `10 ^ k` is written with at most `k` digits. -/
theorem decimalNat_length_le {n k : Nat} (hk : 0 < k) (h : n < 10 ^ k) :
    (decimalNat n).length ≤ k := by
  unfold decimalNat
  split
  · exact hk
  · rw [List.length_map, List.length_reverse,
      Nat.digits_length_le_iff (by omega)]
    exact h

/-- An `int` takes at most eleven characters. -/
theorem decimal_wrap32_length_le (x : Int) :
    (decimal (wrap32 x)).length ≤ 11 := by
  have hb : (wrap32 x).natAbs < 10 ^ 10 := by
    simp only [wrap32, Int.bmod_def]
    omega
  have hl := decimalNat_length_le (by omega) hb
  unfold decimal
  split
  · rw [List.length_cons]
    omega
  · omega

/-- `printf("%0*d", w, n)` for a number that is not negative. -/
def padded (w n : Nat) : Bytes := List.replicate (w - (decimalNat n).length) 48 ++ decimalNat n

theorem padded_length {w n : Nat} (hw : 0 < w) (h : n < 10 ^ w) : (padded w n).length = w := by
  have hle := decimalNat_length_le hw h
  rw [padded, List.length_append, List.length_replicate]
  omega

/-- A number from `10 ^ k` up is written with more than `k` digits. -/
theorem lt_decimalNat_length {n k : Nat} (h : 10 ^ k ≤ n) :
    k < (decimalNat n).length := by
  have hn : n ≠ 0 := by
    have : 0 < 10 ^ k := Nat.pow_pos (by omega)
    omega
  unfold decimalNat
  rw [if_neg hn, List.length_map, List.length_reverse]
  by_contra hlt
  have := (Nat.digits_length_le_iff (show 1 < 10 by omega) (k := k) n).mp
    (by omega)
  omega

theorem nul_notMem_decimal (x : Int) : NUL ∉ decimal x := by
  unfold decimal
  split
  · rw [List.mem_cons, not_or]
    exact ⟨by decide, nul_notMem_decimalNat _⟩
  · exact nul_notMem_decimalNat _

theorem nul_notMem_padded (w n : Nat) : NUL ∉ padded w n := by
  rw [padded, List.mem_append, not_or]
  refine ⟨fun h => ?_, nul_notMem_decimalNat n⟩
  exact absurd (List.eq_of_mem_replicate h) (by decide)

theorem decimalNat_injective {n m : Nat} (h : decimalNat n = decimalNat m) : n = m := by
  rw [← digitsValue_decimalNat n, h, digitsValue_decimalNat]

/-- A number is written with digits, behind a minus sign if it is negative. -/
theorem mem_decimal {x : Int} {b : UInt8} (h : b ∈ decimal x) : b = 45 ∨ isDigit b = true := by
  unfold decimal at h
  split at h
  · rcases List.mem_cons.mp h with rfl | hdigit
    · exact .inl rfl
    · exact .inr (isDigit_of_mem_decimalNat hdigit)
  · exact .inr (isDigit_of_mem_decimalNat h)

/-- The notation tells the number. -/
theorem decimal_injective {x y : Int} (h : decimal x = decimal y) : x = y := by
  have hsign : ∀ {n m : Nat}, 45 :: decimalNat n ≠ decimalNat m := by
    intro n m heq
    have hmem : (45 : UInt8) ∈ decimalNat m := by
      rw [← heq]
      exact List.mem_cons_self
    exact absurd (isDigit_of_mem_decimalNat hmem) (by decide)
  unfold decimal at h
  split at h <;> split at h
  · have habs := decimalNat_injective (List.cons_inj_right 45 |>.mp h)
    omega
  · exact absurd h hsign
  · exact absurd h.symm hsign
  · have habs := decimalNat_injective h
    omega

theorem digitsValue_replicate (k : Nat) (s : Bytes) :
    digitsValue (List.replicate k 48 ++ s) = digitsValue s := by
  induction k with
  | zero => rfl
  | succ k ih => exact ih

theorem padded_injective {w n m : Nat} (h : padded w n = padded w m) : n = m := by
  have hvalue := congrArg digitsValue h
  rwa [padded, padded, digitsValue_replicate, digitsValue_replicate, digitsValue_decimalNat,
    digitsValue_decimalNat] at hvalue

theorem decimal_natCast (n : Nat) : decimal n = decimalNat n := by
  unfold decimal
  rw [if_neg (by omega), Int.natAbs_natCast]

/-- Digits read as the number they write. -/
theorem decimalPrefix_decimalNat (n : Nat) : decimalPrefix (decimalNat n) = n := by
  have hdigit : ∀ b ∈ decimalNat n, isDigit b = true := fun b hb => isDigit_of_mem_decimalNat hb
  have htake : (decimalNat n).takeWhile isDigit = decimalNat n :=
    List.takeWhile_eq_self_iff.mpr hdigit
  have hvalue := digitsValue_decimalNat n
  rw [decimalPrefix, cstr_eq_self (nul_notMem_decimalNat n)]
  cases hs : decimalNat n with
  | nil =>
      rw [hs] at hvalue
      rw [← hvalue]
      rfl
  | cons b s =>
      rw [hs] at hdigit htake hvalue
      have hb := hdigit b List.mem_cons_self
      have hspace : isSpace b ≠ true := by
        intro hspace
        simp only [isDigit, isSpace, Bool.and_eq_true, Bool.or_eq_true, beq_iff_eq,
          decide_eq_true_eq, UInt8.le_iff_toNat_le] at hb hspace
        rcases hspace with rfl | hrange
        · exact absurd hb.1 (by decide)
        · exact absurd (Nat.le_trans hb.1 hrange.2) (by decide)
      rw [List.dropWhile_cons_of_neg hspace]
      split
      · rename_i heq
        cases heq
        cases hb
      · rename_i heq
        cases heq
        cases hb
      · rw [htake, hvalue]

theorem atoi_decimalNat {n : Nat} (h : (n : Int) ≤ INT_MAX) : atoi (decimalNat n) = n := by
  have hmax : INT_MAX = 2147483647 := rfl
  have hclamp : clampLong n = n := by
    rw [clampLong]
    omega
  rw [atoi, decimalPrefix_decimalNat, hclamp, wrap32_of_range (by omega) h]

end CInt

end EasyWebServer
