import EasyWebServer.Lib.CString
import Mathlib.Data.List.GetD

/-!
# Fixed-size character arrays

`CharBuf cap` is a `char[cap]` member: a byte list that carries its length, so
no operation can change the size of the array.  `get` and `set` are indexing,
`view` is a pointer into the array, and `write` stores a run of bytes, which is
what `recv`, `strcpy` and `vsnprintf` do.

An index outside the array reads as `NUL` and a store there does nothing.  The
functions that use this type check their own bounds where the program they
model could leave the array, and report a fault.

Every lemma is about `get`: two arrays are equal when they agree at every
index (`ext_get`), and the string at a pointer depends only on the bytes up to
its terminator (`cstr_view_congr`).
-/

namespace EasyWebServer

open CString

/-- A `char[cap]` array. -/
structure CharBuf (cap : Nat) where
  bytes : Bytes
  size_eq : bytes.length = cap

namespace CharBuf

variable {cap : Nat}

/-- `memset(buf, '\0', cap)`. -/
def zero (cap : Nat) : CharBuf cap :=
  ⟨List.replicate cap NUL, List.length_replicate⟩

/-- `buf[i]`. -/
def get (buf : CharBuf cap) (i : Nat) : UInt8 := buf.bytes.getD i NUL

/-- `buf[i] = b`. -/
def set (buf : CharBuf cap) (i : Nat) (b : UInt8) : CharBuf cap :=
  ⟨buf.bytes.set i b, by rw [List.length_set, buf.size_eq]⟩

/-- The memory from the pointer `buf + i` to the end of the array. -/
def view (buf : CharBuf cap) (i : Nat) : Bytes := buf.bytes.drop i

/-- The `n` bytes from index `i` on. -/
def slice (buf : CharBuf cap) (i n : Nat) : Bytes := (buf.view i).take n

/-- Store `bs` at index `i`, `i + 1`, and so on. -/
def write (buf : CharBuf cap) : Nat → Bytes → CharBuf cap
  | _, [] => buf
  | i, b :: bs => write (buf.set i b) (i + 1) bs

/-- Store runs of bytes, each at its index. -/
def writeAll (buf : CharBuf cap) (runs : List (Nat × Bytes)) : CharBuf cap :=
  runs.foldl (fun buf run => buf.write run.1 run.2) buf

theorem ext_bytes {a b : CharBuf cap} (h : a.bytes = b.bytes) : a = b := by
  cases a; cases b; simp_all

/-- Two arrays that agree at every index are equal. -/
theorem ext_get {a b : CharBuf cap} (h : ∀ j, j < cap → a.get j = b.get j) :
    a = b := by
  apply ext_bytes
  apply List.ext_getElem (by rw [a.size_eq, b.size_eq])
  intro j ha hb
  have hj := h j (by rw [a.size_eq] at ha; exact ha)
  simpa [get, List.getD_eq_getElem?_getD, ha, hb] using hj

theorem get_set (buf : CharBuf cap) (i j : Nat) (b : UInt8) :
    (buf.set i b).get j = if i = j ∧ j < cap then b else buf.get j := by
  simp only [get, set, List.getD_eq_getElem?_getD, List.getElem?_set,
    buf.size_eq]
  by_cases hij : i = j
  · subst hij
    by_cases hi : i < cap
    · simp [hi]
    · have hnone : buf.bytes[i]? = none :=
        List.getElem?_eq_none (by rw [buf.size_eq]; omega)
      simp [hi, hnone]
  · simp [hij]

@[simp] theorem get_set_self (buf : CharBuf cap) {i : Nat} (b : UInt8)
    (hi : i < cap) : (buf.set i b).get i = b := by
  rw [get_set, if_pos ⟨rfl, hi⟩]

@[simp] theorem get_set_ne (buf : CharBuf cap) {i j : Nat} (b : UInt8)
    (h : i ≠ j) : (buf.set i b).get j = buf.get j := by
  rw [get_set, if_neg (fun hc => h hc.1)]

/-- The same store in two arrays that have the same byte. -/
theorem get_set_congr {buf buf' : CharBuf cap} {i j : Nat} (h : buf'.get j = buf.get j)
    (b : UInt8) : (buf'.set i b).get j = (buf.set i b).get j := by
  rw [get_set, get_set, h]

/-- A run of stores changes the indices of the run and no other. -/
theorem get_write (bs : Bytes) : ∀ (buf : CharBuf cap) (i j : Nat),
    (buf.write i bs).get j =
      if i ≤ j ∧ j < i + bs.length ∧ j < cap then bs.getD (j - i) NUL
      else buf.get j := by
  induction bs with
  | nil =>
      intro buf i j
      rw [write, if_neg]
      rintro ⟨h1, h2, -⟩
      simp only [List.length_nil] at h2
      omega
  | cons b bs ih =>
      intro buf i j
      rw [write, ih, get_set, List.length_cons]
      by_cases hrun : i + 1 ≤ j ∧ j < i + 1 + bs.length ∧ j < cap
      · have hj : j - i = (j - (i + 1)) + 1 := by omega
        rw [if_pos hrun, if_pos (by omega), hj, List.getD_cons_succ]
      · rw [if_neg hrun]
        by_cases hself : i = j ∧ j < cap
        · obtain ⟨rfl, hi⟩ := hself
          rw [if_pos ⟨rfl, hi⟩, if_pos (by omega), Nat.sub_self,
            List.getD_cons_zero]
        · rw [if_neg hself, if_neg (by omega)]

theorem get_write_lt (buf : CharBuf cap) {i j : Nat} (bs : Bytes) (h : j < i) :
    (buf.write i bs).get j = buf.get j := by
  rw [get_write, if_neg (by omega)]

/-- A store below a run of stores commutes with the run. -/
theorem set_write_comm (buf : CharBuf cap) {i r : Nat} (b : UInt8) (bs : Bytes)
    (h : i < r) : (buf.write r bs).set i b = (buf.set i b).write r bs := by
  apply ext_get
  intro j hj
  simp only [get_set, get_write]
  by_cases hij : i = j
  · subst hij
    rw [if_pos ⟨rfl, hj⟩, if_neg (by omega), if_pos ⟨rfl, hj⟩]
  · have hne : ¬(i = j ∧ j < cap) := fun hc => hij hc.1
    rw [if_neg hne, if_neg hne]

/-- Two runs of stores, the first of which ends before the second starts,
commute. -/
theorem write_write_comm (buf : CharBuf cap) {i r : Nat} (as bs : Bytes)
    (h : i + as.length ≤ r) :
    (buf.write r bs).write i as = (buf.write i as).write r bs := by
  induction as generalizing buf i with
  | nil => rfl
  | cons a as ih =>
      rw [List.length_cons] at h
      rw [write, write, set_write_comm buf a bs (by omega),
        ih (buf.set i a) (by omega)]

/-- Two runs of stores, one behind the other, are one run. -/
theorem write_append (buf : CharBuf cap) (i : Nat) (as bs : Bytes) :
    buf.write i (as ++ bs) = (buf.write i as).write (i + as.length) bs := by
  induction as generalizing buf i with
  | nil => rfl
  | cons a as ih =>
      rw [List.cons_append, write, write, ih, List.length_cons,
        Nat.add_right_comm, Nat.add_assoc]

/-- A run of stores hides one store at its first index. -/
theorem write_overwrite (buf : CharBuf cap) (i : Nat) (x y : UInt8) (bs : Bytes) :
    (buf.write i [x]).write i (y :: bs) = buf.write i (y :: bs) := by
  simp only [write, set, List.set_set]

/-- A run of stores behind a string hides its terminator. -/
theorem write_terminated (buf : CharBuf cap) (i : Nat) (s : Bytes) {t : Bytes} (ht : t ≠ []) :
    (buf.write i (s ++ [NUL])).write (i + s.length) t = buf.write i (s ++ t) := by
  obtain ⟨y, t, rfl⟩ := List.exists_cons_of_ne_nil ht
  rw [write_append, write_append, write_overwrite]

theorem view_getElem? (buf : CharBuf cap) {i j : Nat} (hj : i + j < cap) :
    (buf.view i)[j]? = some (buf.get (i + j)) := by
  have hlt : i + j < buf.bytes.length := by rw [buf.size_eq]; exact hj
  simp [view, get, List.getElem?_drop, hlt]

theorem view_length (buf : CharBuf cap) (i : Nat) :
    (buf.view i).length = cap - i := by
  rw [view, List.length_drop, buf.size_eq]

theorem slice_getElem? (buf : CharBuf cap) {i n j : Nat} (hj : j < n)
    (hn : i + n ≤ cap) : (buf.slice i n)[j]? = some (buf.get (i + j)) := by
  rw [slice, List.getElem?_take_of_lt hj, view_getElem? buf (by omega)]

theorem slice_length (buf : CharBuf cap) {i n : Nat} (hn : i + n ≤ cap) :
    (buf.slice i n).length = n := by
  rw [slice, List.length_take, view_length]
  omega

/-- Equal bytes on a range give equal slices. -/
theorem slice_congr {a b : CharBuf cap} {i n : Nat} (hn : i + n ≤ cap)
    (h : ∀ k, i ≤ k → k < i + n → a.get k = b.get k) :
    a.slice i n = b.slice i n := by
  apply List.ext_getElem?
  intro j
  by_cases hj : j < n
  · rw [slice_getElem? a hj hn, slice_getElem? b hj hn,
      h (i + j) (by omega) (by omega)]
  · have ha := slice_length a hn
    have hb := slice_length b hn
    rw [List.getElem?_eq_none (by omega), List.getElem?_eq_none (by omega)]

/-- The bytes of a run of stores that stays inside the array. -/
theorem slice_write (buf : CharBuf cap) {i : Nat} (bs : Bytes)
    (hn : i + bs.length ≤ cap) : (buf.write i bs).slice i bs.length = bs := by
  apply List.ext_getElem?
  intro j
  by_cases hj : j < bs.length
  · rw [slice_getElem? _ hj hn, get_write, if_pos (by omega),
      Nat.add_sub_cancel_left]
    simp [hj]
  · have hl := slice_length (buf.write i bs) hn
    rw [List.getElem?_eq_none (by omega), List.getElem?_eq_none (by omega)]

/-- A slice is the slice of its first part and the slice of the rest. -/
theorem slice_append (buf : CharBuf cap) (i m n : Nat) :
    buf.slice i (m + n) = buf.slice i m ++ buf.slice (i + m) n := by
  simp only [slice, view, List.take_add, List.drop_drop]

theorem view_cons (buf : CharBuf cap) {i : Nat} (hi : i < cap) :
    buf.view i = buf.get i :: buf.view (i + 1) := by
  have hlt : i < buf.bytes.length := by rw [buf.size_eq]; exact hi
  have hget : buf.get i = buf.bytes[i] := List.getD_eq_getElem buf.bytes NUL hlt
  rw [view, List.drop_eq_getElem_cons hlt, hget]
  rfl

theorem slice_succ (buf : CharBuf cap) {i : Nat} (n : Nat) (hi : i < cap) :
    buf.slice i (n + 1) = buf.get i :: buf.slice (i + 1) n := by
  rw [slice, view_cons buf hi, List.take_succ_cons]
  rfl

/-- Equal bytes from an index on are equal memory from the pointer on. -/
theorem view_congr {a b : CharBuf cap} {i : Nat} (h : ∀ j, i ≤ j → a.get j = b.get j) :
    a.view i = b.view i := by
  have hall : ∀ buf : CharBuf cap, buf.slice i (cap - i) = buf.view i := fun buf =>
    List.take_of_length_le (Nat.le_of_eq (buf.view_length i))
  rcases Nat.lt_or_ge cap i with hlt | hle
  · rw [view, view, List.drop_eq_nil_of_le (by rw [a.size_eq]; omega),
      List.drop_eq_nil_of_le (by rw [b.size_eq]; omega)]
  · rw [← hall a, ← hall b]
    exact slice_congr (by omega) (fun k hk _ => h k hk)

/-- The memory from a pointer on: a slice, and the memory behind it. -/
theorem view_eq_slice_append (buf : CharBuf cap) (i n : Nat) :
    buf.view i = buf.slice i n ++ buf.view (i + n) := by
  rw [slice, view, view, ← List.drop_drop, List.take_append_drop]

theorem get_zero (j : Nat) : (zero cap).get j = NUL := by
  rw [get, zero, List.getD_eq_getElem?_getD, List.getElem?_replicate]
  split <;> rfl

/-- NULs behind a string do not change what is read from it. -/
theorem getD_append_replicate (s : Bytes) (n j : Nat) :
    (s ++ List.replicate n NUL).getD j NUL = s.getD j NUL := by
  rcases Nat.lt_or_ge j s.length with hj | hj
  · rw [List.getD_append _ _ _ _ hj]
  · rw [List.getD_append_right _ _ _ _ hj, List.getD_eq_default _ _ hj,
      List.getD_eq_getElem?_getD, List.getElem?_replicate]
    split <;> rfl

/-- What a zeroed array holds after one copy. -/
theorem bytes_write_zero {s : Bytes} (h : s.length ≤ cap) :
    ((zero cap).write 0 s).bytes = s ++ List.replicate (cap - s.length) NUL := by
  have hsize : (s ++ List.replicate (cap - s.length) NUL).length = cap := by
    rw [List.length_append, List.length_replicate]
    omega
  refine congrArg bytes (ext_get (b := ⟨_, hsize⟩) (fun j hj => ?_))
  have hright : get ⟨_, hsize⟩ j = s.getD j NUL := getD_append_replicate _ _ j
  rw [hright, get_write, get_zero, Nat.sub_zero, Nat.zero_add]
  split_ifs with hlt
  · rfl
  · rw [List.getD_eq_default _ _ (by omega)]

/-- The copy is terminated exactly when it is shorter than the array. -/
theorem nul_mem_write_zero {s : Bytes} (hs : NUL ∉ s) (h : s.length ≤ cap) :
    NUL ∈ ((zero cap).write 0 s).bytes ↔ s.length < cap := by
  rw [bytes_write_zero h, List.mem_append, List.mem_replicate]
  constructor
  · rintro (hmem | ⟨hne, -⟩)
    · exact absurd hmem hs
    · omega
  · exact fun hlt => Or.inr ⟨by omega, rfl⟩

/-- Stores of the bytes of a text, each at its index, are one run of stores. -/
theorem foldl_set_zipIdx (s : Bytes) : ∀ (buf : CharBuf cap) (i : Nat),
    (s.zipIdx i).foldl (fun buf x => buf.set x.2 x.1) buf = buf.write i s := by
  induction s with
  | nil => exact fun _ _ => rfl
  | cons b s ih =>
      intro buf i
      rw [List.zipIdx_cons, List.foldl_cons, write, ih]

/-- What a zeroed array holds after two copies: `root` at its start, and behind it
`path` with some NULs. -/
theorem bytes_write_write {root path : Bytes} {n : Nat}
    (h : root.length + path.length + n ≤ cap) :
    (((zero cap).write 0 (root ++ [NUL])).write root.length
        (path ++ List.replicate n NUL)).bytes =
      (root ++ path) ++ List.replicate (cap - (root.length + path.length)) NUL := by
  have hsize : ((root ++ path) ++
      List.replicate (cap - (root.length + path.length)) NUL).length = cap := by
    simp only [List.length_append, List.length_replicate]
    omega
  refine congrArg bytes (ext_get (b := ⟨_, hsize⟩) (fun j hj => ?_))
  have hright : get ⟨_, hsize⟩ j = (root ++ path).getD j NUL := getD_append_replicate _ _ j
  have hroot : (root ++ [NUL]).getD j NUL = root.getD j NUL := getD_append_replicate root 1 j
  rw [hright, get_write, get_write, get_zero, getD_append_replicate, Nat.sub_zero, hroot,
    List.length_append, List.length_append, List.length_replicate, List.length_singleton]
  rcases Nat.lt_or_ge j root.length with h1 | h1
  · rw [if_neg (by omega), if_pos (by omega), List.getD_append _ _ _ _ h1]
  · rw [List.getD_append_right _ _ _ _ h1]
    split_ifs with h2 h3
    · rfl
    · rw [List.getD_eq_default _ _ h1, List.getD_eq_default _ _ (by omega)]
    · rw [List.getD_eq_default _ _ (by omega)]

/-- The string in a zeroed array after `root` and, behind it, `path` were copied. -/
theorem cstr_write_write {root path : Bytes} {n : Nat} (hroot : NUL ∉ root) (hpath : NUL ∉ path)
    (h : root.length + path.length + n ≤ cap) :
    cstr (((zero cap).write 0 (root ++ [NUL])).write root.length
        (path ++ List.replicate n NUL)).bytes = root ++ path := by
  rw [bytes_write_write h]
  refine cstr_append_replicate ?_ _
  rw [List.mem_append]
  rintro (hmem | hmem)
  · exact hroot hmem
  · exact hpath hmem

/-- A string that does not start with NUL starts with its first byte. -/
theorem cstr_view_cons (buf : CharBuf cap) {i : Nat} (h : buf.get i ≠ NUL) :
    cstr (buf.view i) = buf.get i :: cstr (buf.view (i + 1)) := by
  have hi : i < buf.bytes.length := by
    by_contra hge
    exact h (by rw [get, List.getD_eq_getElem?_getD, List.getElem?_eq_none (by omega)]; rfl)
  have hget : buf.get i = buf.bytes[i] := by
    rw [get, List.getD_eq_getElem?_getD, List.getElem?_eq_getElem hi]
    rfl
  have hne : (buf.bytes[i] != NUL) = true := bne_iff_ne.mpr (hget ▸ h)
  rw [view, view, List.drop_eq_getElem_cons hi, hget]
  simp only [cstr, List.takeWhile_cons, hne, if_true]

theorem cstr_view_nil (buf : CharBuf cap) {i : Nat} (h : buf.get i = NUL) :
    cstr (buf.view i) = [] := by
  rcases Nat.lt_or_ge i buf.bytes.length with hi | hi
  · have hget : buf.get i = buf.bytes[i] := by
      rw [get, List.getD_eq_getElem?_getD, List.getElem?_eq_getElem hi]
      rfl
    rw [view, List.drop_eq_getElem_cons hi, ← hget, h]
    rfl
  · rw [view, List.drop_eq_nil_of_le hi]
    rfl

/-- The bytes of the string at a pointer, and the NUL behind it. -/
theorem get_cstr (buf : CharBuf cap) {i k : Nat} (h : k ≤ strlen (buf.view i)) :
    buf.get (i + k) = (cstr (buf.view i)).getD k NUL := by
  induction k generalizing i with
  | zero =>
      by_cases hi : buf.get i = NUL
      · rw [cstr_view_nil buf hi]
        exact hi
      · rw [cstr_view_cons buf hi]
        rfl
  | succ k ih =>
      by_cases hi : buf.get i = NUL
      · rw [strlen, cstr_view_nil buf hi] at h
        exact absurd h (Nat.not_succ_le_zero k)
      · rw [strlen, cstr_view_cons buf hi, List.length_cons] at h
        rw [cstr_view_cons buf hi, List.getD_cons_succ, ← ih (Nat.le_of_succ_le_succ h),
          Nat.add_assoc, Nat.add_comm 1 k]

/-- The string at a pointer depends on the bytes up to a NUL only. -/
theorem cstr_view_congr {a b : CharBuf cap} {i j : Nat} (hij : i ≤ j)
    (hj : j < cap) (hnul : a.get j = NUL)
    (h : ∀ k, i ≤ k → k ≤ j → a.get k = b.get k) :
    cstr (a.view i) = cstr (b.view i) := by
  have hslice : a.slice i (j - i + 1) = b.slice i (j - i + 1) :=
    slice_congr (by omega) (fun k h1 h2 => h k h1 (by omega))
  have hmem : NUL ∈ a.slice i (j - i + 1) := by
    have hget := slice_getElem? a (i := i) (n := j - i + 1) (j := j - i)
      (by omega) (by omega)
    rw [show i + (j - i) = j by omega, hnul] at hget
    exact List.mem_of_getElem? hget
  calc cstr (a.view i)
      = cstr (a.slice i (j - i + 1) ++ (a.view i).drop (j - i + 1)) := by
        rw [slice, List.take_append_drop]
    _ = cstr (b.slice i (j - i + 1) ++ (b.view i).drop (j - i + 1)) := by
        rw [cstr_append _ hmem, hslice, cstr_append _ (hslice ▸ hmem)]
    _ = cstr (b.view i) := by rw [slice, List.take_append_drop]

/-- The string at a pointer that a string and its terminator were copied to. -/
theorem cstr_view_write (buf : CharBuf cap) {i : Nat} {s : Bytes} (hs : NUL ∉ s)
    (h : i + s.length < cap) : cstr ((buf.write i (s ++ [NUL])).view i) = s := by
  have hlen : (s ++ [NUL]).length = s.length + 1 := by simp
  have hslice : (buf.write i (s ++ [NUL])).slice i (s ++ [NUL]).length = s ++ [NUL] :=
    slice_write buf (s ++ [NUL]) (by omega)
  rw [slice] at hslice
  rw [← List.take_append_drop (s ++ [NUL]).length ((buf.write i (s ++ [NUL])).view i), hslice,
    cstr_append _ (by simp)]
  exact cstr_append_replicate hs 1

/-- A string in the array ends at or before every NUL behind its start. -/
theorem add_strlen_le (buf : CharBuf cap) {i j : Nat} (hij : i ≤ j)
    (hj : j < cap) (hnul : buf.get j = NUL) :
    i + strlen (buf.view i) ≤ j := by
  have hget := view_getElem? buf (i := i) (j := j - i) (by omega)
  rw [show i + (j - i) = j by omega, hnul] at hget
  have := strlen_le hget
  omega

/-- The arrays differ in bytes that are NUL in the second. -/
def NulStores (a b : CharBuf cap) : Prop :=
  ∀ j, b.get j = a.get j ∨ b.get j = NUL

theorem NulStores.refl (a : CharBuf cap) : NulStores a a := fun _ => Or.inl rfl

theorem NulStores.set (a : CharBuf cap) (i : Nat) : NulStores a (a.set i NUL) := by
  intro j
  rw [get_set]
  split
  · exact Or.inr rfl
  · exact Or.inl rfl

theorem NulStores.trans {a b c : CharBuf cap} (h : NulStores a b)
    (h' : NulStores b c) : NulStores a c := by
  intro j
  rcases h' j with hj | hj
  · rw [hj]
    exact h j
  · exact Or.inr hj

end CharBuf

end EasyWebServer
