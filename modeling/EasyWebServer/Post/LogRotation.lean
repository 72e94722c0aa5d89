import EasyWebServer.Lib.Calendar
import EasyWebServer.Lib.Transition
import EasyWebServer.Post.WriteLog
import Mathlib.Data.Prod.Lex

/-!
# The files of the synchronous log

`write_log` counts its calls and opens another file when the day of the month is not the one it
has seen last, or when the count is a multiple of `m_split_lines`.  The name of the file has the
date in it, and behind a rotation of the second kind the number of the file on that day.

The code compares days of the month, so the rule of `Calendar` for dates less than 28 days apart
is what makes the date of a file the date of its lines.  The stamp of a file, its day and its
number, grows with every rotation and can be read off its name (`stamp_of_name`), so no name
comes back.  `SyncInv` is the invariant, and `always_rotationOk` is the result for every run.
-/

namespace EasyWebServer.Post

open CString CInt Transition Calendar

/-! ## The code -/

/-- What `localtime` fills in: the date exists. -/
structure LocalClock extends LogClock where
  mday_pos : 1 ≤ mday
  mday_le_month : mday ≤ monthDays (year + 1900) (mon + 1)

/-- The local date. -/
def LocalClock.date (t : LocalClock) : Date where
  year := t.year + 1900
  month := t.mon + 1
  day := t.mday
  month_pos := Nat.le_add_left 1 t.mon
  month_le := Nat.succ_le_succ t.mon_le
  day_pos := t.mday_pos
  day_le := t.mday_le_month

/-- The size of `dir_name` and `log_name`. -/
def LOG_NAME_LEN : Nat := 128

/-- `LLONG_MAX`. -/
def LLONG_MAX : Nat := 9223372036854775807

/-- The byte `'/'`. -/
def pathSeparator : UInt8 := 47

/-- `class Log` in synchronous mode.  `m_fp` is the name of the file that is open. -/
structure SyncLog (size : Nat) where
  dirName : Bytes
  logName : Bytes
  splitLines : Nat
  count : Nat
  today : Nat
  fp : Option Bytes
  buf : CharBuf size

/-- `dir_name` behind `init`. -/
def dirNameOf (fileName : Bytes) : Bytes :=
  match strrchr fileName pathSeparator with
  | none => []
  | some p => (cstr fileName).take (p + 1)

/-- `log_name` behind `init`. -/
def logNameOf (fileName : Bytes) : Bytes :=
  match strrchr fileName pathSeparator with
  | none => cstr fileName
  | some p => (cstr fileName).drop (p + 1)

/-- `"%d_%02d_%02d_"`. -/
def tailText (t : LogClock) : Bytes :=
  decimal (t.year + 1900) ++ ascii "_" ++ padded 2 (t.mon + 1) ++ ascii "_" ++
    padded 2 t.mday ++ ascii "_"

/-- `"%s%d_%02d_%02d_%s"`. -/
def logFullName (fileName : Bytes) (t : LogClock) : Bytes :=
  dirNameOf fileName ++ tailText t ++ logNameOf fileName

/-- The string that `snprintf` leaves in an array of NULs. -/
def printInto (size : Nat) (text : Bytes) : Bytes := cstr (snprintf text size)

/-- `init` without a queue: the name of the first file, and the log.  The answer is `none` when a
part of the name does not fit into its array.  `opens` is whether `fopen` succeeds. -/
def initLog (size : Nat) (fileName : Bytes) (splitLines : Nat) (t : LogClock) (opens : Bool) :
    Option (Bytes × SyncLog size) :=
  if (dirNameOf fileName).length < LOG_NAME_LEN ∧ (logNameOf fileName).length < LOG_NAME_LEN then
    let fullName := printInto 255 (logFullName fileName t)
    some (fullName, {
      dirName := dirNameOf fileName
      logName := logNameOf fileName
      splitLines := splitLines
      count := 0
      today := t.mday
      fp := if opens then some fullName else none
      buf := CharBuf.zero size })
  else none

/-- A call of `write_log`: the clock, the arguments, and whether `fopen` succeeds when the call
comes to it.  `msg` is what the format and its arguments stand for. -/
structure LogCall where
  clock : LocalClock
  level : Int
  msg : Bytes
  opens : Bool

/-- A line in a file. -/
structure FileLine where
  file : Bytes
  clock : LocalClock
  text : Bytes

namespace SyncLog

variable {size : Nat}

/-- The text of `new_log`, when the day is another one or the lines are full. -/
def newLogText (s : SyncLog size) (tail : Bytes) (t : LogClock) : Bytes :=
  if s.today ≠ t.mday then s.dirName ++ tail ++ s.logName
  else s.dirName ++ tail ++ s.logName ++ ascii "." ++ decimal ((s.count / s.splitLines : Nat) : Int)

/-- The block that opens another file: the name, and the log with the new `m_today` and
`m_count`. -/
def rotate (s : SyncLog size) (t : LogClock) : Bytes × SyncLog size :=
  let tail := printInto 16 (tailText t)
  let newLog := printInto 255 (s.newLogText tail t)
  (newLog, if s.today ≠ t.mday then { s with today := t.mday, count := 0 } else s)

/-- The condition of that block, for a log that has counted the line. -/
def Rotates (s : SyncLog size) (t : LogClock) : Prop :=
  s.today ≠ t.mday ∨ s.count % s.splitLines = 0

instance (s : SyncLog size) (t : LogClock) : Decidable (s.Rotates t) :=
  inferInstanceAs (Decidable (_ ∨ _))

/-- `m_count++`. -/
def counted (s : SyncLog size) : SyncLog size := { s with count := s.count + 1 }

/-- The first part of `write_log`: the log with the file for the line, and the name that has been
chosen for a new one.  An overflow of `m_count` and a null `m_fp` are faults. -/
def chooseFile (s : SyncLog size) (t : LogClock) (opens : Bool) :
    Option (SyncLog size × Option Bytes) :=
  if LLONG_MAX ≤ s.count then none
  else
    let s := s.counted
    if s.Rotates t then
      if s.fp = none then none
      else
        let (newLog, s) := s.rotate t
        some ({ s with fp := if opens then some newLog else none }, some newLog)
    else some (s, none)

/-- `write_log`: the log, the name that has been chosen for a new file, and the line. -/
def writeLog (s : SyncLog size) (call : LogCall) :
    Option (SyncLog size × Option Bytes × FileLine) :=
  match s.chooseFile call.clock.toLogClock call.opens with
  | none => none
  | some (s, newLog) =>
      let stores := lineStores size call.clock.toLogClock call.level call.msg
      let s := { s with buf := s.buf.writeAll stores }
      match s.fp with
      | none => none
      | some file => some (s, newLog, ⟨file, call.clock, cstr s.buf.bytes⟩)

/-- Another file is opened, or the line stays in the file. -/
theorem chooseFile_eq_some {s log : SyncLog size} {t : LogClock} {opens : Bool}
    {newLog : Option Bytes} (h : s.chooseFile t opens = some (log, newLog)) :
    s.count < LLONG_MAX ∧
      ((∃ fp, s.counted.Rotates t ∧ newLog = some (s.counted.rotate t).1 ∧
          (∀ file, fp = some file → file = (s.counted.rotate t).1) ∧
          log = { (s.counted.rotate t).2 with fp := fp }) ∨
        ¬ s.counted.Rotates t ∧ newLog = none ∧ log = s.counted) := by
  unfold chooseFile at h
  by_cases hmax : LLONG_MAX ≤ s.count
  · rw [if_pos hmax] at h
    cases h
  refine ⟨Nat.lt_of_not_le hmax, ?_⟩
  rw [if_neg hmax] at h
  dsimp only at h
  by_cases hrot : s.counted.Rotates t
  · rw [if_pos hrot] at h
    by_cases hfp : s.counted.fp = none
    · rw [if_pos hfp] at h
      cases h
    · rw [if_neg hfp] at h
      cases h
      refine .inl ⟨_, hrot, rfl, ?_, rfl⟩
      intro file hfile
      split at hfile
      · exact (Option.some.inj hfile).symm
      · cases hfile
  · rw [if_neg hrot] at h
    cases h
    exact .inr ⟨hrot, rfl, rfl⟩

/-- A call chooses the file, and writes its line there. -/
theorem writeLog_eq_some {s log' : SyncLog size} {call : LogCall} {newLog : Option Bytes}
    {line : FileLine} (h : s.writeLog call = some (log', newLog, line)) :
    ∃ log file, s.chooseFile call.clock.toLogClock call.opens = some (log, newLog) ∧
      log.fp = some file ∧
      log' = { log with
        buf := log.buf.writeAll
          (lineStores size call.clock.toLogClock call.level call.msg) } ∧
      line = ⟨file, call.clock, cstr log'.buf.bytes⟩ := by
  unfold writeLog at h
  split at h
  · cases h
  · rename_i log newLog' hchoose
    dsimp only at h
    split at h
    · cases h
    · rename_i file hfp
      cases h
      exact ⟨log, file, hchoose, hfp, rfl, rfl⟩

/-- The block keeps the parts of the name, and sets `m_today`. -/
theorem rotate_kept (s : SyncLog size) (t : LogClock) :
    (s.rotate t).2.dirName = s.dirName ∧ (s.rotate t).2.logName = s.logName ∧
      (s.rotate t).2.splitLines = s.splitLines ∧ (s.rotate t).2.today = t.mday := by
  unfold rotate
  by_cases hday : s.today = t.mday
  · rw [if_neg (not_not.mpr hday)]
    exact ⟨rfl, rfl, rfl, hday⟩
  · rw [if_pos hday]
    exact ⟨rfl, rfl, rfl, rfl⟩

theorem rotate_count_le (s : SyncLog size) (t : LogClock) : (s.rotate t).2.count ≤ s.count := by
  unfold rotate
  dsimp only
  split
  · exact Nat.zero_le _
  · exact Nat.le_refl _

end SyncLog

/-! ## Runs -/

/-- A run: the log, the names that have been chosen, and the lines that have been written. -/
structure SyncRun (size : Nat) where
  log : SyncLog size
  opened : List Bytes
  lines : List FileLine

variable {size : Nat}

/-- `init`. -/
def startSyncLog (size : Nat) (fileName : Bytes) (splitLines : Nat) (t : LogClock)
    (opens : Bool) : Option (SyncRun size) :=
  (initLog size fileName splitLines t opens).map (fun r => ⟨r.2, [r.1], []⟩)

/-- A call of `write_log`. -/
def syncStep (s : SyncRun size) (call : LogCall) : Option (SyncRun size) :=
  match s.log.writeLog call with
  | none => none
  | some (log, newLog, line) => some ⟨log, s.opened ++ newLog.toList, s.lines ++ [line]⟩

/-! ## The property -/

/-- The later date is less than 28 days behind the earlier one. -/
def Close (t t' : LocalClock) : Prop :=
  t.date.dayNumber ≤ t'.date.dayNumber ∧ t'.date.dayNumber < t.date.dayNumber + 28

instance (t t' : LocalClock) : Decidable (Close t t') :=
  inferInstanceAs (Decidable (_ ∧ _))

/-- The names that the call prints are not cut. -/
def NamesFit (s : SyncRun size) (call : LogCall) : Prop :=
  s.log.counted.Rotates call.clock.toLogClock →
    (tailText call.clock.toLogClock).length < 16 ∧
      (s.log.counted.newLogText (tailText call.clock.toLogClock)
        call.clock.toLogClock).length < 255

/-- The number of a file on its day. -/
def suffix (k : Nat) : Bytes := if k = 0 then [] else ascii "." ++ decimal (k : Int)

/-- The name of file `k` of a day. -/
def rotatedName (fileName : Bytes) (t : LogClock) (k : Nat) : Bytes :=
  logFullName fileName t ++ suffix k

/-- What a run of the log must keep. -/
structure RotationOk (fileName : Bytes) (splitLines : Nat) (s : SyncRun size) : Prop where
  /-- Every line is in a file with its date in the name. -/
  dated : ∀ l ∈ s.lines, ∃ k, l.file = rotatedName fileName l.clock.toLogClock k
  /-- No file has more than `m_split_lines` lines. -/
  bounded : ∀ name, s.lines.countP (fun l => l.file == name) ≤ splitLines
  /-- No name is chosen twice. -/
  fresh : s.opened.Nodup

/-! ## Names -/

theorem nul_notMem_tailText (t : LogClock) : NUL ∉ tailText t := by
  have hsep : NUL ∉ ascii "_" := by decide
  simp only [tailText, List.mem_append, nul_notMem_decimal, nul_notMem_padded, hsep, or_self,
    not_false_eq_true]

theorem nul_notMem_dirNameOf (fileName : Bytes) : NUL ∉ dirNameOf fileName := by
  unfold dirNameOf
  split
  · exact List.not_mem_nil
  · exact fun hmem => nul_notMem_cstr fileName (List.mem_of_mem_take hmem)

theorem nul_notMem_logNameOf (fileName : Bytes) : NUL ∉ logNameOf fileName := by
  unfold logNameOf
  split
  · exact nul_notMem_cstr fileName
  · exact fun hmem => nul_notMem_cstr fileName (List.mem_of_mem_drop hmem)

theorem nul_notMem_logFullName (fileName : Bytes) (t : LogClock) :
    NUL ∉ logFullName fileName t := by
  simp only [logFullName, List.mem_append, nul_notMem_dirNameOf, nul_notMem_tailText,
    nul_notMem_logNameOf, or_self, not_false_eq_true]

theorem nul_notMem_suffix (k : Nat) : NUL ∉ suffix k := by
  have hdot : NUL ∉ ascii "." := by decide
  unfold suffix
  split
  · exact List.not_mem_nil
  · simp only [List.mem_append, nul_notMem_decimal, hdot, or_self, not_false_eq_true]

theorem nul_notMem_rotatedName (fileName : Bytes) (t : LogClock) (k : Nat) :
    NUL ∉ rotatedName fileName t k := by
  simp only [rotatedName, List.mem_append, nul_notMem_logFullName, nul_notMem_suffix, or_self,
    not_false_eq_true]

/-- A string that fits is printed whole. -/
theorem printInto_eq {text : Bytes} {size : Nat} (hnul : NUL ∉ text) (h : text.length < size) :
    printInto size text = text := by
  rw [printInto, snprintf_whole h, cstr_append_nul, cstr_eq_self hnul]

theorem suffix_injective {k k' : Nat} (h : suffix k = suffix k') : k = k' := by
  have hne : ∀ {n : Nat}, ascii "." ++ decimal (n : Int) ≠ [] := by
    intro n
    exact List.append_ne_nil_of_left_ne_nil (by decide) _
  unfold suffix at h
  split at h <;> split at h
  · omega
  · exact absurd h.symm hne
  · exact absurd h hne
  · have hnumber := decimal_injective (List.append_cancel_left h)
    omega

/-- The date is at the front of the tail, and the tail says where it ends. -/
theorem tailText_append_inj {t t' : LogClock} {r r' : Bytes}
    (h : tailText t ++ r = tailText t' ++ r') :
    t.year = t'.year ∧ t.mon = t'.mon ∧ t.mday = t'.mday ∧ r = r' := by
  have hyear : ∀ t : LogClock, (95 : UInt8) ∉ decimal (t.year + 1900) := by
    intro t hmem
    rcases mem_decimal hmem with heq | hdigit
    · exact absurd heq (by decide)
    · exact absurd hdigit (by decide)
  have htail : ∀ (t : LogClock) (r : Bytes), tailText t ++ r = decimal (t.year + 1900) ++
      95 :: (padded 2 (t.mon + 1) ++ 95 :: (padded 2 t.mday ++ 95 :: r)) := by
    intro t r
    have hsep : ascii "_" = [95] := by decide
    simp only [tailText, hsep, List.append_assoc, List.cons_append, List.nil_append]
  have hmon : ∀ t : LogClock, (padded 2 (t.mon + 1)).length = 2 := by
    intro t
    have hle := t.mon_le
    exact padded_length (by omega) (by omega)
  have hmday : ∀ t : LogClock, (padded 2 t.mday).length = 2 := by
    intro t
    have hle := t.mday_le
    exact padded_length (by omega) (by omega)
  rw [htail, htail] at h
  obtain ⟨hy, h⟩ := append_cons_inj (hyear t) (hyear t') h
  obtain ⟨hm, h⟩ := List.append_inj h (by rw [hmon, hmon])
  obtain ⟨hd, h⟩ := List.append_inj (List.tail_eq_of_cons_eq h) (by rw [hmday, hmday])
  have hy := decimal_injective hy
  have hm := padded_injective hm
  exact ⟨by omega, by omega, padded_injective hd, List.tail_eq_of_cons_eq h⟩

/-- The day of a file and its number on it, in the order in which files are opened. -/
def stamp (t : LocalClock) (k : Nat) : ℤ ×ₗ ℕ := toLex (t.date.dayNumber, k)

theorem LocalClock.date_eq {t t' : LocalClock} (hyear : t.year = t'.year) (hmon : t.mon = t'.mon)
    (hmday : t.mday = t'.mday) : t.date = t'.date := by
  unfold LocalClock.date
  simp only [hyear, hmon, hmday]

theorem stamp_of_name {fileName : Bytes} {t t' : LocalClock} {k k' : Nat}
    (h : rotatedName fileName t.toLogClock k = rotatedName fileName t'.toLogClock k') :
    stamp t k = stamp t' k' := by
  simp only [rotatedName, logFullName, List.append_assoc] at h
  obtain ⟨hyear, hmon, hmday, hrest⟩ := tailText_append_inj (List.append_cancel_left h)
  rw [stamp, stamp, LocalClock.date_eq hyear hmon hmday,
    suffix_injective (List.append_cancel_left hrest)]

/-- A name depends on the date of the clock only. -/
theorem rotatedName_congr {t t' : LocalClock} (h : t.date = t'.date) (fileName : Bytes) (k : Nat) :
    rotatedName fileName t.toLogClock k = rotatedName fileName t'.toLogClock k := by
  have hyear := congrArg Date.year h
  have hmonth := congrArg Date.month h
  have hday := congrArg Date.day h
  simp only [LocalClock.date] at hyear hmonth hday
  have htail : tailText t.toLogClock = tailText t'.toLogClock := by
    rw [tailText, tailText, hyear, hmonth, hday]
  rw [rotatedName, rotatedName, logFullName, logFullName, htail]

/-! ## The invariant -/

/-- Where a run is, when the last call was at `t`: `file` is the file that is open, and `room` a
bound on its lines. -/
structure SyncInv (fileName : Bytes) (splitLines : Nat) (t : LocalClock) (room : Nat)
    (s : SyncRun size) : Prop where
  dirName : s.log.dirName = dirNameOf fileName
  logName : s.log.logName = logNameOf fileName
  split : s.log.splitLines = splitLines
  today : s.log.today = t.mday
  fp : ∀ file, s.log.fp = some file →
    file = rotatedName fileName t.toLogClock (s.log.count / splitLines)
  current : rotatedName fileName t.toLogClock (s.log.count / splitLines) ∈ s.opened
  /-- The files that have been opened, up to this one. -/
  stamps : ∀ name ∈ s.opened, ∃ t' k, name = rotatedName fileName t'.toLogClock k ∧
    stamp t' k ≤ stamp t (s.log.count / splitLines)
  files : ∀ l ∈ s.lines, l.file ∈ s.opened
  room : s.lines.countP (fun l => l.file ==
    rotatedName fileName t.toLogClock (s.log.count / splitLines)) ≤ room
  ok : RotationOk fileName splitLines s

section Step

variable {fileName : Bytes} {splitLines : Nat} {t t' : LocalClock} {room : Nat} {s : SyncRun size}

/-- Dates less than 28 days apart are equal, or the day of the month has changed. -/
theorem Close.date_eq (h : Close t t') (hday : t.mday = t'.mday) : t.date = t'.date :=
  Date.eq_of_close hday h.1 h.2

theorem Close.lt_of_ne (h : Close t t') (hday : t.mday ≠ t'.mday) :
    t.date.dayNumber < t'.date.dayNumber := by
  refine lt_of_le_of_ne h.1 ?_
  intro heq
  exact hday (congrArg Date.day (Date.dayNumber_injective heq))

/-- A line is counted, and stays in the file. -/
theorem SyncInv.counted (h : SyncInv fileName splitLines t room s)
    (hdate : t.date = t'.date) (hmday : t.mday = t'.mday)
    (hcount : (s.log.count + 1) / splitLines = s.log.count / splitLines) :
    SyncInv fileName splitLines t' room { s with log := s.log.counted } := by
  have hname : rotatedName fileName t'.toLogClock ((s.log.count + 1) / splitLines) =
      rotatedName fileName t.toLogClock (s.log.count / splitLines) := by
    rw [hcount, rotatedName_congr hdate]
  have hstamp : stamp t' ((s.log.count + 1) / splitLines) =
      stamp t (s.log.count / splitLines) := by
    rw [hcount, stamp, stamp, hdate]
  refine ⟨h.dirName, h.logName, h.split, h.today.trans hmday, ?_, ?_, ?_, h.files, ?_,
    ⟨h.ok.dated, h.ok.bounded, h.ok.fresh⟩⟩
  · intro file hfp
    exact (h.fp file hfp).trans hname.symm
  · exact hname ▸ h.current
  · intro name hmem
    obtain ⟨t₁, k₁, heq, hle⟩ := h.stamps name hmem
    exact ⟨t₁, k₁, heq, hstamp ▸ hle⟩
  · exact (congrArg (fun name => s.lines.countP (fun l => l.file == name)) hname).trans_le h.room

/-- The name of a later file has not been chosen before. -/
theorem SyncInv.notMem_opened (h : SyncInv fileName splitLines t room s) {k : Nat}
    (hlt : stamp t (s.log.count / splitLines) < stamp t' k) :
    rotatedName fileName t'.toLogClock k ∉ s.opened := by
  intro hmem
  obtain ⟨t₁, k₁, heq, hle⟩ := h.stamps _ hmem
  rw [← stamp_of_name heq] at hle
  exact absurd (lt_of_lt_of_le hlt hle) (lt_irrefl _)

/-- Another file is opened: `log` is the log behind it. -/
theorem SyncInv.opens (h : SyncInv fileName splitLines t room s) {log : SyncLog size}
    (hdir : log.dirName = s.log.dirName) (hlog : log.logName = s.log.logName)
    (hsplit : log.splitLines = s.log.splitLines) (htoday : log.today = t'.mday)
    (hfp : ∀ file, log.fp = some file →
      file = rotatedName fileName t'.toLogClock (log.count / splitLines))
    (hlt : stamp t (s.log.count / splitLines) < stamp t' (log.count / splitLines)) :
    SyncInv fileName splitLines t' 0 { s with
      log := log
      opened := s.opened ++ [rotatedName fileName t'.toLogClock (log.count / splitLines)] } := by
  have hfresh := h.notMem_opened hlt
  refine ⟨hdir.trans h.dirName, hlog.trans h.logName, hsplit.trans h.split, htoday, hfp,
    List.mem_append_right _ List.mem_cons_self, ?_,
    fun l hl => List.mem_append_left _ (h.files l hl), ?_, ⟨h.ok.dated, h.ok.bounded, ?_⟩⟩
  · intro name hmem
    rcases List.mem_append.mp hmem with hold | hnew
    · obtain ⟨t₁, k₁, heq, hle⟩ := h.stamps name hold
      exact ⟨t₁, k₁, heq, le_of_lt (lt_of_le_of_lt hle hlt)⟩
    · exact ⟨t', _, List.mem_singleton.mp hnew, le_refl _⟩
  · rw [Nat.le_zero, List.countP_eq_zero]
    intro l hl hfile
    exact hfresh (beq_iff_eq.mp hfile ▸ h.files l hl)
  · exact List.nodup_append.mpr ⟨h.ok.fresh, List.nodup_singleton _, by
      intro name hold name' hnew heq
      rw [List.mem_singleton] at hnew
      exact hfresh (hnew ▸ heq ▸ hold)⟩

/-- The lines of a file behind a further line. -/
theorem countP_append_line (lines : List FileLine) (line : FileLine) (name : Bytes) :
    (lines ++ [line]).countP (fun l => l.file == name) =
      lines.countP (fun l => l.file == name) + if line.file == name then 1 else 0 := by
  rw [List.countP_append, List.countP_singleton]

/-- A line is written into the file. -/
theorem SyncInv.writes (h : SyncInv fileName splitLines t room s) (hroom : room < splitLines)
    (buf : CharBuf size) (text : Bytes) :
    SyncInv fileName splitLines t (room + 1) { s with
      log := { s.log with buf := buf }
      lines := s.lines ++
        [⟨rotatedName fileName t.toLogClock (s.log.count / splitLines), t, text⟩] } := by
  refine ⟨h.dirName, h.logName, h.split, h.today, h.fp, h.current, h.stamps, ?_, ?_,
    ⟨?_, ?_, h.ok.fresh⟩⟩
  · intro l hl
    rcases List.mem_append.mp hl with hold | hnew
    · exact h.files l hold
    · rw [List.mem_singleton] at hnew
      rw [hnew]
      exact h.current
  · rw [countP_append_line, if_pos (beq_self_eq_true _)]
    exact Nat.succ_le_succ h.room
  · intro l hl
    rcases List.mem_append.mp hl with hold | hnew
    · exact h.ok.dated l hold
    · rw [List.mem_singleton] at hnew
      rw [hnew]
      exact ⟨_, rfl⟩
  · intro name
    rw [countP_append_line]
    split
    · rename_i heq
      have hname : rotatedName fileName t.toLogClock (s.log.count / splitLines) = name :=
        beq_iff_eq.mp heq
      rw [← hname]
      exact Nat.le_trans (Nat.succ_le_succ h.room) hroom
    · exact h.ok.bounded name

/-! ## A call -/

/-- The name that the block prints is that of a file of the day. -/
theorem SyncInv.newLogText (h : SyncInv fileName splitLines t room s)
    (hnumber : s.log.today = t'.mday → (s.log.count + 1) / splitLines ≠ 0) :
    s.log.counted.newLogText (tailText t'.toLogClock) t'.toLogClock =
      rotatedName fileName t'.toLogClock
        ((s.log.counted.rotate t'.toLogClock).2.count / splitLines) := by
  have hdir : s.log.counted.dirName = dirNameOf fileName := h.dirName
  have hlog : s.log.counted.logName = logNameOf fileName := h.logName
  have hsplit : s.log.counted.splitLines = splitLines := h.split
  have htoday : s.log.counted.today = s.log.today := rfl
  rw [SyncLog.newLogText, SyncLog.rotate, hdir, hlog, hsplit, htoday, rotatedName, logFullName]
  by_cases hday : s.log.today = t'.mday
  · have hk : s.log.counted.count / splitLines ≠ 0 := hnumber hday
    rw [if_neg (not_not.mpr hday), if_neg (not_not.mpr hday), suffix, if_neg hk]
    simp only [List.append_assoc]
  · rw [if_pos hday, if_pos hday]
    simp only [Nat.zero_div, suffix, if_true, List.append_nil]

/-- The name of the file that the block opens. -/
theorem SyncInv.rotate_name (h : SyncInv fileName splitLines t room s) {call : LogCall}
    (hfit : NamesFit s call)
    (hrot : s.log.counted.Rotates call.clock.toLogClock) :
    (s.log.counted.rotate call.clock.toLogClock).1 =
      rotatedName fileName call.clock.toLogClock
        ((s.log.counted.rotate call.clock.toLogClock).2.count / splitLines) := by
  obtain ⟨htail, hname⟩ := hfit hrot
  have hnumber : s.log.today = call.clock.mday → (s.log.count + 1) / splitLines ≠ 0 := by
    intro hday
    have hsplit : s.log.counted.splitLines = splitLines := h.split
    rw [SyncLog.Rotates, hsplit] at hrot
    have hmod : (s.log.count + 1) % splitLines = 0 := hrot.resolve_left (not_not.mpr hday)
    rw [Nat.succ_div_of_mod_eq_zero hmod]
    exact Nat.succ_ne_zero _
  have htext := h.newLogText hnumber
  have hprint : (s.log.counted.rotate call.clock.toLogClock).1 = printInto 255
      (s.log.counted.newLogText (printInto 16 (tailText call.clock.toLogClock))
        call.clock.toLogClock) := rfl
  rw [hprint, printInto_eq (nul_notMem_tailText _) htail]
  rw [htext] at hname ⊢
  exact printInto_eq (nul_notMem_rotatedName _ _ _) hname

theorem SyncInv.mono {room' : Nat} (h : SyncInv fileName splitLines t room s)
    (hle : room ≤ room') : SyncInv fileName splitLines t room' s :=
  { h with room := Nat.le_trans h.room hle }

/-- The stamp of the file that the block opens is a later one. -/
theorem SyncInv.stamp_lt (h : SyncInv fileName splitLines t room s) (hclose : Close t t')
    (hrot : s.log.counted.Rotates t'.toLogClock) :
    stamp t (s.log.count / splitLines) <
      stamp t' ((s.log.counted.rotate t'.toLogClock).2.count / splitLines) := by
  have htoday : s.log.counted.today = t.mday := h.today
  rw [SyncLog.rotate, stamp, stamp, Prod.Lex.toLex_lt_toLex, htoday]
  by_cases hday : t.mday = t'.mday
  · -- the lines are full
    have hmod : (s.log.count + 1) % splitLines = 0 := by
      have hsplit : s.log.counted.splitLines = splitLines := h.split
      rw [SyncLog.Rotates, htoday, hsplit] at hrot
      exact hrot.resolve_left (not_not.mpr hday)
    rw [if_neg (not_not.mpr hday)]
    refine .inr ⟨congrArg Date.dayNumber (hclose.date_eq hday), ?_⟩
    show s.log.count / splitLines < (s.log.count + 1) / splitLines
    rw [Nat.succ_div_of_mod_eq_zero hmod]
    exact Nat.lt_succ_self _
  · exact .inl (hclose.lt_of_ne hday)

/-- The file for the line. -/
theorem SyncInv.chooseFile (h : SyncInv fileName splitLines t (s.log.count % splitLines + 1) s)
    {call : LogCall} (hclose : Close t call.clock) (hfit : NamesFit s call) {log : SyncLog size}
    {newLog : Option Bytes}
    (hchoose : s.log.chooseFile call.clock.toLogClock call.opens = some (log, newLog)) :
    SyncInv fileName splitLines call.clock (log.count % splitLines)
      { s with log := log, opened := s.opened ++ newLog.toList } := by
  obtain ⟨-, ⟨fp, hrot, rfl, hfp, rfl⟩ | ⟨hrot, rfl, rfl⟩⟩ := SyncLog.chooseFile_eq_some hchoose
  · obtain ⟨hdir, hlog, hsplit, htoday⟩ :=
      SyncLog.rotate_kept s.log.counted call.clock.toLogClock
    have hname := h.rotate_name hfit hrot
    rw [hname] at hfp
    rw [hname]
    have hlt := h.stamp_lt hclose hrot
    refine SyncInv.mono ?_ (Nat.zero_le _)
    exact h.opens hdir hlog hsplit htoday hfp hlt
  · -- the line stays in the file
    have hsplit : s.log.counted.splitLines = splitLines := h.split
    rw [SyncLog.Rotates, hsplit, not_or, not_not] at hrot
    obtain ⟨htoday, hmod⟩ := hrot
    have hmod : (s.log.count + 1) % splitLines ≠ 0 := hmod
    have hday : t.mday = call.clock.mday := h.today.symm.trans htoday
    have hdiv := Nat.succ_div_of_mod_ne_zero hmod
    have hcounted := h.counted (hclose.date_eq hday) hday hdiv
    have hnext : s.log.count % splitLines + 1 = (s.log.count + 1) % splitLines := by
      have hold := Nat.div_add_mod s.log.count splitLines
      have hnew := Nat.div_add_mod (s.log.count + 1) splitLines
      rw [hdiv] at hnew
      omega
    rw [hnext] at hcounted
    rw [Option.toList_none, List.append_nil]
    exact hcounted

/-- A call keeps the invariant. -/
theorem SyncInv.step (hsplit : 1 ≤ splitLines)
    (h : SyncInv fileName splitLines t (s.log.count % splitLines + 1) s) {call : LogCall}
    (hclose : Close t call.clock) (hfit : NamesFit s call) {s' : SyncRun size}
    (hstep : syncStep s call = some s') :
    SyncInv fileName splitLines call.clock (s'.log.count % splitLines + 1) s' := by
  unfold syncStep at hstep
  split at hstep
  · cases hstep
  · rename_i log' newLog line hwrite
    cases hstep
    obtain ⟨log, file, hchoose, hfp, rfl, rfl⟩ := SyncLog.writeLog_eq_some hwrite
    have hchosen := h.chooseFile hclose hfit hchoose
    have hfile := hchosen.fp file hfp
    subst hfile
    exact hchosen.writes (Nat.mod_lt _ hsplit) _ _

end Step

/-! ## Names that fit -/

theorem tailText_length_le {t : LogClock} (hyear : (decimal (t.year + 1900)).length ≤ 8) :
    (tailText t).length ≤ 15 := by
  have hmon := padded_length (w := 2) (n := t.mon + 1) (by omega) (by have := t.mon_le; omega)
  have hmday := padded_length (w := 2) (n := t.mday) (by omega) (by have := t.mday_le; omega)
  have hsep : (ascii "_").length = 1 := by decide
  simp only [tailText, List.length_append, hmon, hmday, hsep]
  omega

/-- The two parts of the file name. -/
theorem dirNameOf_append_logNameOf (fileName : Bytes) :
    dirNameOf fileName ++ logNameOf fileName = cstr fileName := by
  unfold dirNameOf logNameOf
  split
  · exact List.nil_append _
  · exact List.take_append_drop _ _

/-- The parts of the name as `init` has stored them, and a count that has not overflowed. -/
structure NameParts (fileName : Bytes) (s : SyncRun size) : Prop where
  dirName : s.log.dirName = dirNameOf fileName
  logName : s.log.logName = logNameOf fileName
  count_le : s.log.count ≤ LLONG_MAX

theorem nameParts_start {fileName : Bytes} {splitLines : Nat} {t : LogClock} {opens : Bool}
    {s : SyncRun size} (hstart : startSyncLog size fileName splitLines t opens = some s) :
    NameParts fileName s := by
  unfold startSyncLog initLog at hstart
  split at hstart
  · cases hstart
    exact ⟨rfl, rfl, Nat.zero_le _⟩
  · cases hstart

theorem NameParts.step {fileName : Bytes} {s s' : SyncRun size} {call : LogCall}
    (h : NameParts fileName s) (hstep : syncStep s call = some s') : NameParts fileName s' := by
  unfold syncStep at hstep
  split at hstep
  · cases hstep
  · rename_i log' newLog line hwrite
    cases hstep
    obtain ⟨log, file, hchoose, -, rfl, -⟩ := SyncLog.writeLog_eq_some hwrite
    obtain ⟨hlt, ⟨fp, -, -, -, rfl⟩ | ⟨-, -, rfl⟩⟩ := SyncLog.chooseFile_eq_some hchoose
    · obtain ⟨hdir, hlog, -, -⟩ := SyncLog.rotate_kept s.log.counted call.clock.toLogClock
      refine ⟨hdir.trans h.dirName, hlog.trans h.logName, ?_⟩
      exact Nat.le_trans (SyncLog.rotate_count_le _ _) hlt
    · exact ⟨h.dirName, h.logName, hlt⟩

/-- The text of a new name, with a number of at most 19 digits. -/
theorem NameParts.newLogText_length_le {fileName : Bytes} {s : SyncRun size}
    (h : NameParts fileName s) (tail : Bytes) (t : LogClock) :
    (s.log.counted.newLogText tail t).length ≤ (cstr fileName).length + tail.length + 20 := by
  have hparts := congrArg List.length (dirNameOf_append_logNameOf fileName)
  rw [List.length_append] at hparts
  have hdir : s.log.counted.dirName = dirNameOf fileName := h.dirName
  have hlog : s.log.counted.logName = logNameOf fileName := h.logName
  have hcount : s.log.counted.count / s.log.counted.splitLines < 10 ^ 19 := by
    have hle := Nat.div_le_self s.log.counted.count s.log.counted.splitLines
    have hmax : s.log.counted.count ≤ LLONG_MAX + 1 := Nat.succ_le_succ h.count_le
    rw [LLONG_MAX] at hmax
    omega
  have hdigits := decimalNat_length_le (k := 19) (by omega) hcount
  have hdot : (ascii ".").length = 1 := by decide
  rw [SyncLog.newLogText, hdir, hlog, decimal_natCast]
  split
  · simp only [List.length_append]
    omega
  · simp only [List.length_append]
    omega

/-- Names of up to 219 bytes fit, until the year has nine digits. -/
theorem allSteps_namesFit {fileName : Bytes} {s : SyncRun size} (h : NameParts fileName s)
    (hshort : (cstr fileName).length ≤ 219) {calls : List LogCall}
    (hyears : ∀ call ∈ calls, (decimal (call.clock.year + 1900)).length ≤ 8) :
    AllSteps syncStep NamesFit s calls := by
  induction calls generalizing s with
  | nil => trivial
  | cons call calls ih =>
      obtain ⟨hyear, hyears⟩ := List.forall_mem_cons.mp hyears
      refine ⟨?_, fun s' hs' => ih (h.step hs') hyears⟩
      intro _
      have htail := tailText_length_le hyear
      have htext := h.newLogText_length_le (tailText call.clock.toLogClock) call.clock.toLogClock
      exact ⟨Nat.lt_succ_of_le htail, by omega⟩

/-! ## All runs -/

/-- The log before its first line. -/
theorem syncInv_start {fileName : Bytes} {splitLines : Nat} {t : LocalClock} {opens : Bool}
    {s : SyncRun size} (hname : (logFullName fileName t.toLogClock).length < 255)
    (hstart : startSyncLog size fileName splitLines t.toLogClock opens = some s) :
    SyncInv fileName splitLines t (s.log.count % splitLines + 1) s := by
  have hfirst : rotatedName fileName t.toLogClock (0 / splitLines) =
      logFullName fileName t.toLogClock := by
    rw [rotatedName, Nat.zero_div, suffix, if_pos rfl, List.append_nil]
  unfold startSyncLog initLog at hstart
  split at hstart
  · rw [printInto_eq (nul_notMem_logFullName _ _) hname] at hstart
    cases hstart
    refine ⟨rfl, rfl, rfl, rfl, ?_, ?_, ?_, fun l hl => absurd hl List.not_mem_nil,
      Nat.zero_le _, ⟨fun l hl => absurd hl List.not_mem_nil, fun _ => Nat.zero_le _,
        List.nodup_singleton _⟩⟩
    · intro file hfile
      dsimp only at hfile
      split at hfile
      · rw [hfirst]
        exact (Option.some.inj hfile).symm
      · cases hfile
    · rw [hfirst]
      exact List.mem_cons_self
    · intro name hmem
      refine ⟨t, 0 / splitLines, ?_, le_refl _⟩
      rw [hfirst]
      exact List.mem_singleton.mp hmem
  · cases hstart

/-- For every positive `m_split_lines`, and for calls on dates that do not go back and are less
than 28 days apart, the first one of them that of `init`: every line is in a file of its date, no
file has more than `m_split_lines` lines, and no name is chosen twice. -/
theorem always_rotationOk {fileName : Bytes} {splitLines : Nat} (hsplit : 1 ≤ splitLines)
    {t : LocalClock} {opens : Bool} {s : SyncRun size}
    (hname : (logFullName fileName t.toLogClock).length < 255)
    (hstart : startSyncLog size fileName splitLines t.toLogClock opens = some s)
    {calls : List LogCall} (hdates : (t :: calls.map LogCall.clock).IsChain Close)
    (hfit : AllSteps syncStep NamesFit s calls) :
    Always syncStep (RotationOk fileName splitLines) s calls := by
  have hinv := syncInv_start hname hstart
  clear hname hstart
  -- the clock of the last call goes with the run
  induction calls generalizing s t with
  | nil => exact hinv.ok
  | cons call calls ih =>
      rw [List.map_cons, List.isChain_cons_cons] at hdates
      refine ⟨hinv.ok, fun s' hs' => ?_⟩
      exact ih hdates.2 (hfit.2 s' hs') (hinv.step hsplit hdates.1 hfit.1 hs')

/-- Midnight of a day of January. -/
def january (d : Nat) (h : 1 ≤ d ∧ d ≤ 31) : LocalClock where
  toLogClock := { newYear with
    mday := d
    mday_le := h.2 }
  mday_pos := h.1
  mday_le_month := h.2

/-- Two lines on one day, which are the lines of a file, and one on the next day. -/
def januaryCalls : List LogCall :=
  [⟨january 1 (by decide), 1, [], true⟩, ⟨january 1 (by decide), 1, [], true⟩,
    ⟨january 2 (by decide), 1, [], true⟩]

theorem always_rotationOk_january : ∃ s,
    startSyncLog 64 (ascii "ServerLog") 2 (january 1 (by decide)).toLogClock true = some s ∧
      Always syncStep (RotationOk (ascii "ServerLog") 2) s januaryCalls := by
  obtain ⟨s, hs⟩ : ∃ s, startSyncLog 64 (ascii "ServerLog") 2
    (january 1 (by decide)).toLogClock true = some s := ⟨_, rfl⟩
  have hfit : AllSteps syncStep NamesFit s januaryCalls :=
    allSteps_namesFit (nameParts_start hs) (by decide) (by decide)
  exact ⟨s, hs, always_rotationOk (by decide) (by decide) hs (by decide) hfit⟩

end EasyWebServer.Post
