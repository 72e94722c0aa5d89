import EasyWebServer.Lib.CharBuf
import EasyWebServer.Lib.CInt

/-!
# The line of write_log

`write_log` puts a prefix with the time and the level into `m_buf`, the message behind it
with `vsnprintf`, and a newline and a NUL behind what `vsnprintf` says it has written.  The
size that `vsnprintf` gets is `m_log_buf_size - 1`, although the prefix is in the array.

`lineStores` are the stores of these calls.  `lineOk_iff` says for which messages they stay
inside `m_buf` and give the line.  `LogRotation` models the choice of the file.
-/

namespace EasyWebServer.Post

open CString CInt CharBuf

/-! ## The prefix -/

/-- The clock as `write_log` reads it: the fields that `localtime` fills, and `tv_usec`. -/
structure LogClock where
  year : Int
  mon : Nat
  mday : Nat
  hour : Nat
  min : Nat
  sec : Nat
  usec : Nat
  year_range : -2147483648 ≤ year ∧ year + 1900 ≤ INT_MAX
  mon_le : mon ≤ 11
  mday_le : mday ≤ 31
  hour_le : hour ≤ 23
  min_le : min ≤ 59
  sec_le : sec ≤ 60
  usec_lt : usec < 1000000

/-- The `switch` over `level`. -/
def levelName (level : Int) : Bytes :=
  if level = 0 then ascii "[debug]:"
  else if level = 1 then ascii "[info]:"
  else if level = 2 then ascii "[warn]:"
  else if level = 3 then ascii "[erro]:"
  else ascii "[info]:"

/-- `"%d-%02d-%02d "`. -/
def datePrefix (t : LogClock) : Bytes :=
  decimal (t.year + 1900) ++ ascii "-" ++ padded 2 (t.mon + 1) ++ ascii "-" ++
    padded 2 t.mday ++ ascii " "

/-- `"%d-%02d-%02d %02d:%02d:%02d.%06ld %s "`. -/
def timePrefix (t : LogClock) (level : Int) : Bytes :=
  datePrefix t ++ padded 2 t.hour ++ ascii ":" ++ padded 2 t.min ++ ascii ":" ++
    padded 2 t.sec ++ ascii "." ++ padded 6 t.usec ++ ascii " " ++ levelName level ++ ascii " "

/-! ## The stores -/

/-- The bytes that `snprintf` stores when it is given `size` bytes for `text`. -/
def snprintf (text : Bytes) : Nat → Bytes
  | 0 => []
  | size + 1 => text.take size ++ [NUL]

/-- What it returns: the length of `text`, or a negative number when that is no `int`. -/
def snprintfResult (text : Bytes) : Int :=
  if (text.length : Int) ≤ INT_MAX then text.length else -1

/-- The stores into `m_buf`, each with its first index. -/
def lineStores (size : Nat) (t : LogClock) (level : Int) (msg : Bytes) : List (Nat × Bytes) :=
  let n := snprintfResult (timePrefix t level)
  let m := snprintfResult msg
  [(0, snprintf (timePrefix t level) 48), (n.toNat, snprintf msg (size - 1)),
    ((n + m).toNat, [LF]), ((n + m + 1).toNat, [NUL])]

/-- `log_str`, when `m_buf` was `buf`. -/
def logStr {size : Nat} (buf : CharBuf size) (t : LogClock) (level : Int) (msg : Bytes) : Bytes :=
  cstr (buf.writeAll (lineStores size t level msg)).bytes

/-- Every store is inside `m_buf`, and the line is the prefix, as much of the message as
fits, and a newline. -/
structure LineOk {size : Nat} (buf : CharBuf size) (t : LogClock) (level : Int) (msg : Bytes) :
    Prop where
  bounds : ∀ run ∈ lineStores size t level msg, ∀ k < run.2.length, run.1 + k < size
  line : logStr buf t level msg =
    timePrefix t level ++ msg.take (size - 2 - (timePrefix t level).length) ++ [LF]

/-! ## The prefix fits -/

theorem levelName_length_le (level : Int) : (levelName level).length ≤ 8 := by
  unfold levelName
  split_ifs <;> decide

theorem nul_notMem_levelName (level : Int) : NUL ∉ levelName level := by
  unfold levelName
  split_ifs <;> decide

theorem datePrefix_length_le (t : LogClock) : (datePrefix t).length ≤ 18 := by
  have hyear := decimal_wrap32_length_le (t.year + 1900)
  rw [wrap32_of_range (by have := t.year_range; omega) t.year_range.2] at hyear
  have hmon := padded_length (w := 2) (n := t.mon + 1) (by omega) (by have := t.mon_le; omega)
  have hmday := padded_length (w := 2) (n := t.mday) (by omega) (by have := t.mday_le; omega)
  simp only [datePrefix, List.length_append, hmon, hmday]
  have hdash : (ascii "-").length = 1 := by decide
  have hspace : (ascii " ").length = 1 := by decide
  omega

/-- The prefix is shorter than the 48 bytes that `snprintf` gets. -/
theorem timePrefix_length (t : LogClock) (level : Int) :
    2 ≤ (timePrefix t level).length ∧ (timePrefix t level).length ≤ 43 := by
  have hdate := datePrefix_length_le t
  have hhour := padded_length (w := 2) (n := t.hour) (by omega) (by have := t.hour_le; omega)
  have hmin := padded_length (w := 2) (n := t.min) (by omega) (by have := t.min_le; omega)
  have hsec := padded_length (w := 2) (n := t.sec) (by omega) (by have := t.sec_le; omega)
  have husec := padded_length (w := 6) (n := t.usec) (by omega) t.usec_lt
  have hlevel := levelName_length_le level
  have hcolon : (ascii ":").length = 1 := by decide
  have hdot : (ascii ".").length = 1 := by decide
  have hspace : (ascii " ").length = 1 := by decide
  simp only [timePrefix, List.length_append, hhour, hmin, hsec, husec]
  omega

theorem nul_notMem_timePrefix (t : LogClock) (level : Int) : NUL ∉ timePrefix t level := by
  have hdash : NUL ∉ ascii "-" := by decide
  have hspace : NUL ∉ ascii " " := by decide
  have hcolon : NUL ∉ ascii ":" := by decide
  have hdot : NUL ∉ ascii "." := by decide
  simp only [timePrefix, datePrefix, List.mem_append, nul_notMem_decimal, nul_notMem_padded,
    nul_notMem_levelName, hdash, hspace, hcolon, hdot, or_self, not_false_eq_true]

/-! ## Messages that fit -/

theorem snprintf_whole {text : Bytes} {size : Nat} (h : text.length < size) :
    snprintf text size = text ++ [NUL] := by
  obtain ⟨size, rfl⟩ := Nat.exists_eq_succ_of_ne_zero (Nat.ne_zero_of_lt h)
  rw [Nat.succ_eq_add_one, snprintf, List.take_of_length_le (by omega)]

theorem snprintfResult_of_lt {text : Bytes} {size : Nat} (h : text.length < size)
    (hint : (size : Int) ≤ INT_MAX) : snprintfResult text = text.length := by
  rw [snprintfResult, if_pos (by omega)]

section Line

variable {size : Nat} {t : LogClock} {level : Int} {msg : Bytes}

/-- The stores for a message that fits. -/
theorem lineStores_eq (hint : (size : Int) ≤ INT_MAX) (hmin : 64 ≤ size)
    (hfits : msg.length < size - 1) :
    lineStores size t level msg =
      [(0, timePrefix t level ++ [NUL]), ((timePrefix t level).length, msg ++ [NUL]),
        ((timePrefix t level).length + msg.length, [LF]),
        ((timePrefix t level).length + msg.length + 1, [NUL])] := by
  have hpre := (timePrefix_length t level).2
  have hn : snprintfResult (timePrefix t level) = (timePrefix t level).length :=
    snprintfResult_of_lt (by omega) hint
  have hm : snprintfResult msg = msg.length := snprintfResult_of_lt (by omega) hint
  have hnewline : (((timePrefix t level).length : Int) + msg.length).toNat =
      (timePrefix t level).length + msg.length := by omega
  have hend : (((timePrefix t level).length : Int) + msg.length + 1).toNat =
      (timePrefix t level).length + msg.length + 1 := by omega
  simp only [lineStores, hn, hm, hnewline, hend, Int.toNat_natCast, snprintf_whole hfits,
    snprintf_whole (show (timePrefix t level).length < 48 by omega)]

/-- What `m_buf` holds when the line fits. -/
theorem writeAll_lineStores (hint : (size : Int) ≤ INT_MAX) (hmin : 64 ≤ size)
    (hfits : (timePrefix t level).length + msg.length + 2 ≤ size) (buf : CharBuf size) :
    buf.writeAll (lineStores size t level msg) =
      buf.write 0 (timePrefix t level ++ msg ++ [LF] ++ [NUL]) := by
  have hpre := (timePrefix_length t level).1
  rw [lineStores_eq hint hmin (by omega)]
  generalize timePrefix t level = pre
  show (((buf.write 0 (pre ++ [NUL])).write pre.length (msg ++ [NUL])).write
    (pre.length + msg.length) [LF]).write (pre.length + msg.length + 1) [NUL] = _
  have hmsg := write_terminated buf 0 pre (t := msg ++ [NUL]) (by simp)
  have hnewline := write_terminated buf 0 (pre ++ msg) (t := [LF]) (by simp)
  have hend := write_append buf 0 (pre ++ msg ++ [LF]) [NUL]
  rw [Nat.zero_add] at hmsg hnewline hend
  rw [List.length_append, List.length_append, List.length_singleton] at hend
  rw [hmsg, ← List.append_assoc, ← List.length_append, hnewline, List.length_append, hend]

/-- A message that fits, and that is one string, gives the line. -/
theorem LineOk.of_fits (hint : (size : Int) ≤ INT_MAX) (hmin : 64 ≤ size)
    (hfits : (timePrefix t level).length + msg.length + 2 ≤ size) (hnul : NUL ∉ msg)
    (buf : CharBuf size) : LineOk buf t level msg := by
  have hpre := timePrefix_length t level
  constructor
  · rw [lineStores_eq hint hmin (by omega)]
    simp only [List.forall_mem_cons, List.length_append, List.length_singleton]
    refine ⟨?_, ?_, ?_, ?_, by simp⟩ <;> (intro k hk; omega)
  · have hwhole : msg.take (size - 2 - (timePrefix t level).length) = msg :=
      List.take_of_length_le (by omega)
    have hline : NUL ∉ timePrefix t level ++ msg ++ [LF] := by
      simp only [List.mem_append, List.mem_singleton, nul_notMem_timePrefix, hnul, false_or]
      decide
    have hview := cstr_view_write buf (i := 0) hline
      (by rw [List.length_append, List.length_append, List.length_singleton]; omega)
    rw [logStr, writeAll_lineStores hint hmin hfits, hwhole]
    exact hview

/-- The stores stay inside `m_buf` only when the whole line fits. -/
theorem LineOk.fits {buf : CharBuf size} (hint : (size : Int) ≤ INT_MAX) (hmin : 64 ≤ size)
    (h : LineOk buf t level msg) : (timePrefix t level).length + msg.length + 2 ≤ size := by
  have hpre := timePrefix_length t level
  rcases Nat.lt_or_ge msg.length (size - 1) with hshort | hlong
  · have hend := h.bounds ((timePrefix t level).length + msg.length + 1, [NUL])
      (by
        rw [lineStores_eq hint hmin hshort]
        exact List.mem_of_getLast? rfl) 0 (by simp)
    omega
  · -- `vsnprintf` fills the size that it is given, which starts behind the prefix
    have hn : snprintfResult (timePrefix t level) = (timePrefix t level).length :=
      snprintfResult_of_lt (by omega) hint
    have hmem : ((timePrefix t level).length, snprintf msg (size - 1)) ∈
        lineStores size t level msg := by
      simp only [lineStores, hn, Int.toNat_natCast]
      exact List.mem_cons_of_mem _ List.mem_cons_self
    have hsize : size - 1 = (size - 2) + 1 := by omega
    have hlen : (snprintf msg (size - 1)).length = size - 1 := by
      rw [hsize, snprintf, List.length_append, List.length_take, List.length_singleton]
      omega
    have hlast := h.bounds _ hmem (size - 2) (by rw [hlen]; omega)
    omega

end Line

/-- The stores of a call stay inside `m_buf` and give its line exactly when the prefix, the
message, the newline and the NUL fit, and the message has no NUL. -/
theorem lineOk_iff {size : Nat} (hmin : 64 ≤ size) (hint : (size : Int) ≤ INT_MAX)
    (buf : CharBuf size) (t : LogClock) (level : Int) (msg : Bytes) :
    LineOk buf t level msg ↔
      (timePrefix t level).length + msg.length + 2 ≤ size ∧ NUL ∉ msg := by
  constructor
  · intro h
    have hfits := h.fits hint hmin
    refine ⟨hfits, fun hmem => ?_⟩
    have hwhole : msg.take (size - 2 - (timePrefix t level).length) = msg :=
      List.take_of_length_le (by omega)
    have hline := h.line
    rw [hwhole] at hline
    have hnone : NUL ∉ timePrefix t level ++ msg ++ [LF] := hline ▸ nul_notMem_cstr _
    exact hnone (List.mem_append_left _ (List.mem_append_right _ hmem))
  · exact fun ⟨hfits, hnul⟩ => LineOk.of_fits hint hmin hfits hnul buf

/-- A moment at which a line is written. -/
def newYear : LogClock where
  year := 125
  mon := 0
  mday := 1
  hour := 0
  min := 0
  sec := 0
  usec := 0
  year_range := by decide
  mon_le := by decide
  mday_le := by decide
  hour_le := by decide
  min_le := by decide
  sec_le := by decide
  usec_lt := by decide

/-- The smallest array, and a message that fits into it. -/
theorem lineOk_started : LineOk (CharBuf.zero 64) newYear 1 (ascii "started") :=
  (lineOk_iff (by decide) (by decide) (CharBuf.zero 64) newYear 1 (ascii "started")).mpr
    ⟨by decide, by decide⟩

/-- A message that is as long as the array is stored behind its end. -/
theorem not_lineOk_long : ¬ ∀ (size : Nat), 64 ≤ size → (size : Int) ≤ INT_MAX →
    ∀ (buf : CharBuf size) (t : LogClock) (level : Int) (msg : Bytes),
      LineOk buf t level msg := by
  intro h
  have hline := h 64 (by decide) (by decide) (CharBuf.zero 64) newYear 1 (List.replicate 64 97)
  have hfits := hline.fits (by decide) (by decide)
  rw [List.length_replicate] at hfits
  omega

end EasyWebServer.Post
