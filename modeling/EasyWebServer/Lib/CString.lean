import Mathlib.Data.List.Basic
import Mathlib.Data.List.TakeWhile

/-!
# C strings over byte lists

A `char *` is modelled by the list of bytes from the pointer to the end of the
object it points into.  The string it denotes is `cstr`: the bytes before the
first NUL.  Every function of `<string.h>` below reads its argument through
`cstr` only, so what lies after the terminator cannot matter.

`cstr_append` is the lemma that the clients use: once the terminator is in the
list, bytes added behind it are not read.  `strlen_le` bounds every offset a
search returns, and the offset lemmas say that the result stays at or before
the terminator.
-/

namespace EasyWebServer

/-- Bytes of memory, as `unsigned char`. -/
abbrev Bytes := List UInt8

/-- The bytes of an ASCII string literal, without the terminator. -/
def ascii (s : String) : Bytes := s.toList.map (fun c => UInt8.ofNat c.toNat)

/-- `'\0'`. -/
def NUL : UInt8 := 0
/-- `'\r'`. -/
def CR : UInt8 := 13
/-- `'\n'`. -/
def LF : UInt8 := 10

/-- The set `" \t"` of the request parser. -/
def blanks : Bytes := [32, 9]

namespace CString

/-- The string a pointer denotes: the bytes before the first NUL. -/
def cstr (mem : Bytes) : Bytes := mem.takeWhile (fun b => b != NUL)

/-- `strlen`. -/
def strlen (mem : Bytes) : Nat := (cstr mem).length

/-- `strpbrk`: the offset of the first byte of the string that is in
`accept`. -/
def strpbrk (mem accept : Bytes) : Option Nat :=
  (cstr mem).findIdx? (fun b => accept.contains b)

/-- `strspn`: the length of the longest prefix made of bytes of `accept`. -/
def strspn (mem accept : Bytes) : Nat :=
  ((cstr mem).takeWhile (fun b => accept.contains b)).length

/-- `strchr` for a byte that is not NUL. -/
def strchr (mem : Bytes) (b : UInt8) : Option Nat :=
  (cstr mem).findIdx? (fun x => x == b)

/-- The offset of the last occurrence of `b`, counted in `s`. -/
def lastIdx? (b : UInt8) : Bytes → Option Nat
  | [] => none
  | x :: xs =>
      match lastIdx? b xs with
      | some k => some (k + 1)
      | none => if x == b then some 0 else none

/-- `strrchr` for a byte that is not NUL. -/
def strrchr (mem : Bytes) (b : UInt8) : Option Nat := lastIdx? b (cstr mem)

/-- `tolower` on ASCII. -/
def toLower (b : UInt8) : UInt8 := if 65 ≤ b ∧ b ≤ 90 then b + 32 else b

/-- `strcasecmp(mem, s) == 0`, for a literal `s`. -/
def strcasecmp (mem s : Bytes) : Bool :=
  (cstr mem).map toLower == s.map toLower

/-- `strncasecmp(mem, s, s.length) == 0`, for a literal `s`. -/
def strncasecmp (mem s : Bytes) : Bool :=
  ((cstr mem).take s.length).map toLower == s.map toLower

/-- The `n` bytes that `strncpy(dest, mem, n)` stores: the string, cut at `n` bytes
or filled up with NULs. -/
def strncpy (mem : Bytes) (n : Nat) : Bytes :=
  (cstr mem).take n ++ List.replicate (n - ((cstr mem).take n).length) NUL

/-- `isspace` in the C locale. -/
def isSpace (b : UInt8) : Bool := b == 32 || (9 ≤ b && b ≤ 13)

/-- `isdigit`. -/
def isDigit (b : UInt8) : Bool := 48 ≤ b && b ≤ 57

/-- The value of a digit string in base ten. -/
def digitsValue (s : Bytes) : Nat :=
  s.foldl (fun acc b => 10 * acc + (b.toNat - 48)) 0

/-- The signed decimal number at the start of the string, as `strtol` reads
it: white space, an optional sign, then digits. -/
def decimalPrefix (mem : Bytes) : Int :=
  match (cstr mem).dropWhile isSpace with
  | 45 :: s => - (digitsValue (s.takeWhile isDigit) : Int)
  | 43 :: s => digitsValue (s.takeWhile isDigit)
  | s => digitsValue (s.takeWhile isDigit)

/-! ## Bytes behind the terminator are not read -/

theorem cstr_append {s : Bytes} (t : Bytes) (h : NUL ∈ s) :
    cstr (s ++ t) = cstr s := by
  induction s with
  | nil => simp at h
  | cons a s ih =>
      by_cases ha : a = NUL
      · simp [cstr, ha]
      · have hs : NUL ∈ s := by simpa [Ne.symm ha] using h
        simpa [cstr, List.takeWhile_cons, ha] using ih hs

/-- The string ends at its first NUL. -/
theorem cstr_append_nul (s t : Bytes) : cstr (s ++ NUL :: t) = cstr s := by
  induction s with
  | nil => simp [cstr]
  | cons a s ih =>
      by_cases ha : a = NUL
      · simp [cstr, ha]
      · simpa [cstr, ha] using ih

/-- Bytes without a NUL are one string. -/
theorem cstr_eq_self {mem : Bytes} (h : NUL ∉ mem) : cstr mem = mem :=
  List.takeWhile_eq_self_iff.mpr (fun _ hb => bne_iff_ne.mpr (fun he => h (he ▸ hb)))

theorem nul_notMem_cstr (mem : Bytes) : NUL ∉ cstr mem := by
  intro h
  have hne := List.mem_takeWhile_imp h
  simp at hne

/-- A byte that is not in the first parts tells where they end. -/
theorem append_cons_inj {x : UInt8} {s s' t t' : Bytes} (hs : x ∉ s) (hs' : x ∉ s')
    (h : s ++ x :: t = s' ++ x :: t') : s = s' ∧ t = t' := by
  have hfirst : ∀ {s t : Bytes}, x ∉ s → (s ++ x :: t).takeWhile (fun b => b != x) = s := by
    intro s t hs
    have hne : ∀ b ∈ s, (b != x) = true := by
      intro b hb
      exact bne_iff_ne.mpr (fun he => hs (he ▸ hb))
    rw [List.takeWhile_append_of_pos hne, List.takeWhile_cons_of_neg (by simp), List.append_nil]
  have heq : s = s' := by rw [← hfirst (t := t) hs, h, hfirst hs']
  subst heq
  exact ⟨rfl, List.tail_eq_of_cons_eq (List.append_cancel_left h)⟩

theorem strncpy_length (mem : Bytes) (n : Nat) : (strncpy mem n).length = n := by
  rw [strncpy, List.length_append, List.length_replicate, List.length_take]
  omega

/-- A string with NULs behind it. -/
theorem cstr_append_replicate {s : Bytes} (h : NUL ∉ s) (n : Nat) :
    cstr (s ++ List.replicate n NUL) = s := by
  have hs : ∀ b ∈ s, (b != NUL) = true := fun b hb => bne_iff_ne.mpr (fun he => h (he ▸ hb))
  rw [cstr, List.takeWhile_append_of_pos hs]
  cases n with
  | zero => simp
  | succ n => simp [List.replicate_succ]

/-- A string ends at or before every NUL of the memory it lies in. -/
theorem strlen_le {mem : Bytes} {j : Nat} (h : mem[j]? = some NUL) :
    strlen mem ≤ j := by
  induction mem generalizing j with
  | nil => simp at h
  | cons a mem ih =>
      by_cases ha : a = NUL
      · simp [strlen, cstr, ha]
      · cases j with
        | zero => exact absurd (by simpa using h) ha
        | succ j =>
          have hle := ih (j := j) (by simpa using h)
          simp only [strlen, cstr] at hle
          simp [strlen, cstr, ha, hle]

theorem strpbrk_lt {mem accept : Bytes} {k : Nat}
    (h : strpbrk mem accept = some k) : k < strlen mem := by
  rw [strpbrk, List.findIdx?_eq_some_iff_getElem] at h
  exact h.1

theorem strchr_lt {mem : Bytes} {b : UInt8} {k : Nat}
    (h : strchr mem b = some k) : k < strlen mem := by
  rw [strchr, List.findIdx?_eq_some_iff_getElem] at h
  exact h.1

theorem lastIdx?_lt {b : UInt8} {s : Bytes} {k : Nat} (h : lastIdx? b s = some k) :
    k < s.length := by
  induction s generalizing k with
  | nil => cases h
  | cons x s ih =>
      rw [lastIdx?] at h
      rw [List.length_cons]
      split at h
      · rename_i j hj
        cases h
        have := ih hj
        omega
      · split_ifs at h
        cases h
        omega

theorem strrchr_lt {mem : Bytes} {b : UInt8} {k : Nat} (h : strrchr mem b = some k) :
    k < strlen mem := lastIdx?_lt h

theorem lastIdx?_of_mem {b : UInt8} {s : Bytes} (h : b ∈ s) : ∃ k, lastIdx? b s = some k := by
  induction s with
  | nil => cases h
  | cons x s ih =>
      rw [lastIdx?]
      rcases hs : lastIdx? b s with _ | k
      · rcases List.mem_cons.mp h with rfl | hmem
        · exact ⟨0, by rw [if_pos (beq_self_eq_true b)]⟩
        · obtain ⟨k, hk⟩ := ih hmem
          cases hs.symm.trans hk
      · exact ⟨k + 1, rfl⟩

theorem strspn_le (mem accept : Bytes) : strspn mem accept ≤ strlen mem :=
  (List.takeWhile_prefix _).length_le

/-- A string that matches a literal up to its length is at least as long. -/
theorem strncasecmp_length {mem s : Bytes} (h : strncasecmp mem s = true) :
    s.length ≤ strlen mem := by
  have hm : ((cstr mem).take s.length).map toLower = s.map toLower :=
    eq_of_beq h
  have hl := congrArg List.length hm
  simp only [List.length_map, List.length_take] at hl
  simp only [strlen]
  omega

theorem strcasecmp_length {mem s : Bytes} (h : strcasecmp mem s = true) :
    strlen mem = s.length := by
  have hm : (cstr mem).map toLower = s.map toLower := eq_of_beq h
  simpa [strlen] using congrArg List.length hm

end CString

end EasyWebServer
