import EasyWebServer.Lib.Threads
import EasyWebServer.Lib.Transition
import EasyWebServer.Post.BlockQueue

/-!
# The asynchronous log

`write_log` formats a line, asks the queue until it is not full, and pushes the
line.  A thread takes the lines from the queue and writes them to the file.

The question and the push are two critical sections, and the answer of `push` is
not used.  So a line is lost when another thread takes the last place between the
two.  `always_nothingLost_iff` shows that this is the only way to lose one.
-/

namespace EasyWebServer.Post

open Transition

/-! ## The state -/

/-- A formatted line.  `thread` and `index` say which call of `write_log` it is
from; the source has the text only. -/
structure LogLine where
  thread : Nat
  index : Nat
  text : List UInt8
  deriving DecidableEq, Repr

/-- Where a thread is that calls `write_log`. -/
inductive WriterPhase where
  | idle
  /-- In the loop over `full()`. -/
  | polling (line : LogLine)
  /-- Behind the loop, before `push`. -/
  | pushing (line : LogLine)
  deriving DecidableEq, Repr

/-- A thread that calls `write_log`, and the number of lines it has formatted. -/
structure Writer where
  phase : WriterPhase
  lines : Nat
  deriving DecidableEq, Repr

/-- The log: its queue, the threads that write, the line that `async_write_log` has
popped, and the file.  `returned` records the lines for which `write_log` has
returned. -/
structure AsyncLog where
  logQueue : BlockQueue LogLine
  writers : List Writer
  singleLog : Option LogLine
  file : List LogLine
  returned : List LogLine

/-- `init` in asynchronous mode, with threads before their first calls. -/
def startLog (max_queue_size : Int) (writers : Nat) : Option AsyncLog :=
  (BlockQueue.new ⟨0, 0, []⟩ max_queue_size).map (fun q =>
    { logQueue := q
      writers := List.replicate writers ⟨.idle, 0⟩
      singleLog := none
      file := []
      returned := [] })

/-- A step of the log. -/
inductive LogAction where
  /-- A thread calls `write_log`, and formats a line with this text. -/
  | format (i : Nat) (text : List UInt8)
  /-- `full()`. -/
  | full (i : Nat)
  /-- `push`, and the return of `write_log`. -/
  | push (i : Nat)
  /-- `pop` in `async_write_log`. -/
  | pop
  /-- `fputs` in `async_write_log`. -/
  | fputs
  deriving DecidableEq, Repr

/-- One step.  `pop` sleeps while the queue is empty. -/
def logStep (s : AsyncLog) : LogAction → Option AsyncLog
  | .format i text =>
      match s.writers[i]? with
      | some ⟨.idle, n⟩ =>
          some { s with writers := s.writers.set i ⟨.polling ⟨i, n, text⟩, n + 1⟩ }
      | _ => none
  | .full i =>
      match s.writers[i]? with
      | some ⟨.polling line, n⟩ =>
          if s.logQueue.full then some s
          else some { s with writers := s.writers.set i ⟨.pushing line, n⟩ }
      | _ => none
  | .push i =>
      match s.writers[i]? with
      | some ⟨.pushing line, n⟩ =>
          match s.logQueue.push line with
          | .error _ => none
          | .ok (_, q) =>
              some { s with
                logQueue := q
                writers := s.writers.set i ⟨.idle, n⟩
                returned := s.returned ++ [line] }
      | _ => none
  | .pop =>
      match s.singleLog, s.logQueue.pop with
      | none, .ok (line, q) => some { s with logQueue := q, singleLog := some line }
      | _, _ => none
  | .fputs =>
      match s.singleLog with
      | some line => some { s with singleLog := none, file := s.file ++ [line] }
      | none => none

namespace AsyncLog

/-- The lines that are written, popped, or in the queue, first the oldest. -/
def kept (s : AsyncLog) : List LogLine := s.file ++ s.singleLog.toList ++ s.logQueue.contents

end AsyncLog

/-- Every line for which `write_log` has returned is there once, and the lines of a
thread are in their order. -/
structure NothingLost (s : AsyncLog) : Prop where
  once : ∀ line ∈ s.returned, s.kept.count line = 1
  order : s.kept.Pairwise (fun a b => a.thread = b.thread → a.index < b.index)

/-- A push finds the queue not full: no other thread took the last place since this
one asked. -/
def PushRoom (s : AsyncLog) : LogAction → Prop
  | .push i => ∀ line n, s.writers[i]? = some ⟨.pushing line, n⟩ → s.logQueue.full = false
  | _ => True

/-! ## The invariant -/

namespace Writer

/-- The line that a thread has formatted and not pushed. -/
def line? (w : Writer) : Option LogLine :=
  match w.phase with
  | .idle => none
  | .polling line => some line
  | .pushing line => some line

/-- The lines of the thread before its current one. -/
def done (w : Writer) : Nat :=
  match w.line? with
  | none => w.lines
  | some line => line.index

end Writer

/-- The queue holds `l`, with the lines that went before it in order, and every
thread goes on behind its own lines. -/
structure LogOk (n : Nat) (s : AsyncLog) (l : List LogLine) : Prop where
  queue : Represents n s.logQueue l
  order : (s.file ++ s.singleLog.toList ++ l).Pairwise
    (fun a b => a.thread = b.thread → a.index < b.index)
  below : ∀ line ∈ s.file ++ s.singleLog.toList ++ l, ∀ w, s.writers[line.thread]? = some w →
    line.index < w.done
  current : ∀ (i : Nat) (w : Writer) (line : LogLine), s.writers[i]? = some w →
    w.line? = some line → line.thread = i ∧ line.index < w.lines
  returned : ∀ line ∈ s.returned, line ∈ s.file ++ s.singleLog.toList ++ l

namespace LogOk

variable {n : Nat} {s : AsyncLog} {l : List LogLine}

theorem kept_eq (h : LogOk n s l) : s.kept = s.file ++ s.singleLog.toList ++ l := by
  rw [AsyncLog.kept, h.queue.contents_eq]

theorem full_eq (h : LogOk n s l) : s.logQueue.full = false ↔ l.length < n := by
  rw [BlockQueue.full, h.queue.maxSize, h.queue.size, decide_eq_false_iff_not, Int.ofNat_le,
    Nat.not_le]

/-- Lines in order are different lines. -/
theorem nothingLost (h : LogOk n s l) : NothingLost s := by
  have hkept := h.kept_eq
  exact {
    once := by
      intro line hline
      rw [hkept]
      have hnodup : (s.file ++ s.singleLog.toList ++ l).Nodup := by
        refine h.order.imp ?_
        intro a b hlt hab
        rw [hab] at hlt
        exact Nat.lt_irrefl _ (hlt rfl)
      exact List.count_eq_one_of_mem hnodup (h.returned line hline)
    order := by
      rw [hkept]
      exact h.order }

/-- A thread moves on, and the lines stay. -/
theorem move (h : LogOk n s l) {i : Nat} {w w' : Writer} (hi : s.writers[i]? = some w)
    (hdone : w'.done = w.done)
    (hcurrent : ∀ line, w'.line? = some line → line.thread = i ∧ line.index < w'.lines) :
    LogOk n { s with writers := s.writers.set i w' } l where
  queue := h.queue
  order := h.order
  below := by
    intro line hline v hv
    rcases Threads.set_cases hv with ⟨hthread, hv⟩ | ⟨-, hv⟩
    · have hlt := h.below line hline w (by rw [hthread]; exact hi)
      rw [hv, hdone]
      exact hlt
    · exact h.below line hline v hv
  current := by
    intro j v line hv hvline
    rcases Threads.set_cases hv with ⟨hj, hv⟩ | ⟨-, hv⟩
    · rw [hv] at hvline ⊢
      rw [hj]
      exact hcurrent line hvline
    · exact h.current j v line hv hvline
  returned := h.returned

/-- A line that is pushed is behind the lines of its thread. -/
theorem push (h : LogOk n s l) {i lines : Nat} {line : LogLine} {q : BlockQueue LogLine}
    (hi : s.writers[i]? = some ⟨.pushing line, lines⟩) (hq : Represents n q (l ++ [line])) :
    LogOk n { s with
      logQueue := q
      writers := s.writers.set i ⟨.idle, lines⟩
      returned := s.returned ++ [line] } (l ++ [line]) := by
  obtain ⟨hthread, hindex⟩ := h.current i _ line hi rfl
  have hbelow : ∀ a ∈ s.file ++ s.singleLog.toList ++ l, a.thread = i → a.index < line.index := by
    intro a ha hai
    exact h.below a ha _ (by rw [hai]; exact hi)
  exact {
    queue := hq
    order := by
      show (s.file ++ s.singleLog.toList ++ (l ++ [line])).Pairwise _
      rw [← List.append_assoc, List.pairwise_append]
      refine ⟨h.order, List.pairwise_singleton _ _, ?_⟩
      intro a ha b hb hab
      rw [List.mem_singleton.mp hb] at hab ⊢
      exact hbelow a ha (hab.trans hthread)
    below := by
      intro a ha v hv
      change a ∈ s.file ++ s.singleLog.toList ++ (l ++ [line]) at ha
      rw [← List.append_assoc, List.mem_append, List.mem_singleton] at ha
      rcases Threads.set_cases hv with ⟨hai, hv⟩ | ⟨hne, hv⟩
      · rw [hv]
        show a.index < lines
        rcases ha with ha | ha
        · exact (hbelow a ha hai).trans hindex
        · rw [ha]
          exact hindex
      · rcases ha with ha | ha
        · exact h.below a ha v hv
        · rw [ha] at hne
          exact absurd hthread hne
    current := by
      intro j v a hv hva
      rcases Threads.set_cases hv with ⟨-, hv⟩ | ⟨-, hv⟩
      · rw [hv] at hva
        cases hva
      · exact h.current j v a hv hva
    returned := by
      intro a ha
      show a ∈ s.file ++ s.singleLog.toList ++ (l ++ [line])
      rw [← List.append_assoc, List.mem_append]
      rcases List.mem_append.mp ha with ha | ha
      · exact .inl (h.returned a ha)
      · exact .inr ha }

/-- A line goes on to the file, and the order of the lines stays. -/
theorem forward (h : LogOk n s l) {q : BlockQueue LogLine} {singleLog : Option LogLine}
    {file l' : List LogLine} (hq : Represents n q l')
    (hkept : file ++ singleLog.toList ++ l' = s.file ++ s.singleLog.toList ++ l) :
    LogOk n { s with logQueue := q, singleLog := singleLog, file := file } l' where
  queue := hq
  order := by
    show (file ++ singleLog.toList ++ l').Pairwise _
    rw [hkept]
    exact h.order
  below := by
    show ∀ line ∈ file ++ singleLog.toList ++ l', _
    rw [hkept]
    exact h.below
  current := h.current
  returned := by
    show ∀ line ∈ s.returned, line ∈ file ++ singleLog.toList ++ l'
    rw [hkept]
    exact h.returned

/-- A line that is not pushed is not there. -/
theorem not_mem (h : LogOk n s l) {i lines : Nat} {line : LogLine}
    (hi : s.writers[i]? = some ⟨.pushing line, lines⟩) :
    line ∉ s.file ++ s.singleLog.toList ++ l := by
  obtain ⟨hthread, -⟩ := h.current i _ line hi rfl
  intro hmem
  exact Nat.lt_irrefl _ (h.below line hmem _ (by rw [hthread]; exact hi))

end LogOk

/-- The state is one of a log with a queue of `n` places. -/
def LogInv (n : Nat) (s : AsyncLog) : Prop := ∃ l, LogOk n s l

theorem startLog_inv {max_queue_size : Int} {writers : Nat} {s : AsyncLog}
    (hstart : startLog max_queue_size writers = some s) : LogInv max_queue_size.toNat s := by
  obtain ⟨q, hnew, rfl⟩ := Option.map_eq_some_iff.mp hstart
  have hidle : ∀ (i : Nat) (w : Writer), (List.replicate writers (⟨.idle, 0⟩ : Writer))[i]? = some w →
      w = ⟨.idle, 0⟩ := by
    intro i w hw
    exact List.eq_of_mem_replicate (List.mem_of_getElem? hw)
  exact ⟨[], {
    queue := Represents.new hnew
    order := List.Pairwise.nil
    below := by
      intro line hline
      cases hline
    current := by
      intro i w line hw hline
      rw [hidle i w hw] at hline
      cases hline
    returned := by
      intro line hline
      cases hline }⟩

theorem logStep_inv {n : Nat} {s s' : AsyncLog} {a : LogAction} (h : LogInv n s)
    (hroom : PushRoom s a) (hstep : logStep s a = some s') : LogInv n s' := by
  obtain ⟨l, h⟩ := h
  rcases a with ⟨i, text⟩ | i | i | _ | _
  · rw [logStep] at hstep
    split at hstep
    · rename_i lines hi
      cases hstep
      refine ⟨l, h.move hi rfl ?_⟩
      intro line hline
      cases hline
      exact ⟨rfl, Nat.lt_succ_self lines⟩
    · cases hstep
  · rw [logStep] at hstep
    split at hstep
    · rename_i line lines hi
      split at hstep
      · cases hstep
        exact ⟨l, h⟩
      · cases hstep
        have hcurrent := h.current i _ line hi rfl
        refine ⟨l, h.move hi rfl ?_⟩
        intro line' hline'
        cases hline'
        exact hcurrent
    · cases hstep
  · rw [logStep] at hstep
    split at hstep
    · rename_i line lines hi
      obtain ⟨q, hpush, hq⟩ := h.queue.push_room (h.full_eq.mp (hroom line lines hi)) line
      rw [hpush] at hstep
      cases hstep
      exact ⟨l ++ [line], h.push hi hq⟩
    · cases hstep
  · rw [logStep] at hstep
    split at hstep
    · rename_i line q hsingle hpop
      cases hstep
      rcases l with _ | ⟨value, rest⟩
      · rw [h.queue.pop_nil] at hpop
        cases hpop
      · obtain ⟨q', hpop', hq⟩ := h.queue.pop_cons
        rw [hpop'] at hpop
        cases hpop
        refine ⟨rest, h.forward hq ?_⟩
        rw [hsingle, List.append_assoc, List.append_assoc]
        rfl
    · cases hstep
  · rw [logStep] at hstep
    split at hstep
    · rename_i line hsingle
      cases hstep
      refine ⟨l, h.forward h.queue ?_⟩
      rw [hsingle]
      simp only [Option.toList_none, Option.toList_some, List.append_nil]
    · cases hstep

/-- A push into a full queue loses the line. -/
theorem pushRoom_of_nothingLost {n : Nat} {s : AsyncLog} {a : LogAction} (h : LogInv n s)
    (hnext : ∀ s', logStep s a = some s' → NothingLost s') : PushRoom s a := by
  rcases a with ⟨i, text⟩ | i | i | _ | _
  case push =>
    intro line lines hi
    by_contra hfull
    obtain ⟨l, h⟩ := h
    have hlen : n ≤ l.length := Nat.le_of_not_lt (fun hlt => hfull (h.full_eq.mpr hlt))
    have hlost := hnext { s with
      writers := s.writers.set i ⟨.idle, lines⟩
      returned := s.returned ++ [line] } (by
        rw [logStep, hi]
        show (match s.logQueue.push line with | .error _ => none | .ok (_, q) => _) = _
        rw [h.queue.push_full hlen line])
    have hone := hlost.once line (List.mem_append_right _ List.mem_cons_self)
    have hmem : line ∈ s.kept := List.count_pos_iff.mp (by
      show 0 < s.kept.count line
      exact hone ▸ Nat.one_pos)
    rw [h.kept_eq] at hmem
    exact h.not_mem hi hmem
  all_goals trivial

/-! ## Every run -/

/-- The log loses no line, and keeps the lines of a thread in order, in every state of
a run, exactly when every push of the run finds the queue not full. -/
theorem always_nothingLost_iff {max_queue_size : Int} {writers : Nat} {s : AsyncLog}
    (hstart : startLog max_queue_size writers = some s) (as : List LogAction) :
    Always logStep NothingLost s as ↔ AllSteps logStep PushRoom s as :=
  always_iff_allSteps (LogInv max_queue_size.toNat) PushRoom (fun _ ⟨_, h⟩ => h.nothingLost)
    (fun _ _ _ h hroom hstep => logStep_inv h hroom hstep)
    (fun _ _ h hnext => pushRoom_of_nothingLost h hnext) (startLog_inv hstart) as

/-- A log with one place and two threads, before their first calls. -/
def logOfOne : AsyncLog where
  logQueue := ⟨[⟨0, 0, []⟩], 0, 1, -1, -1⟩
  writers := [⟨.idle, 0⟩, ⟨.idle, 0⟩]
  singleLog := none
  file := []
  returned := []

/-- The second thread asks when the first line is popped. -/
theorem always_nothingLost_polite :
    startLog 1 2 = some logOfOne ∧
      (Always logStep NothingLost logOfOne
          [.format 0 [97], .format 1 [98], .full 0, .push 0, .full 1, .pop, .full 1, .push 1] ↔
        AllSteps logStep PushRoom logOfOne
          [.format 0 [97], .format 1 [98], .full 0, .push 0, .full 1, .pop, .full 1, .push 1]) :=
  ⟨rfl, always_nothingLost_iff (show startLog 1 2 = some logOfOne from rfl) _⟩

/-- Two threads ask before either pushes, and the line of the second is lost. -/
theorem not_always_nothingLost_race :
    startLog 1 2 = some logOfOne ∧
      ¬ Always logStep NothingLost logOfOne
        [.format 0 [97], .format 1 [98], .full 0, .full 1, .push 0, .push 1] := by
  refine ⟨rfl, ?_⟩
  intro h
  obtain ⟨s, ⟨hreturned, hkept⟩, hlost⟩ := h.exists_last
    (fun s : AsyncLog => (⟨1, 0, [98]⟩ : LogLine) ∈ s.returned ∧ (⟨1, 0, [98]⟩ : LogLine) ∉ s.kept)
    (by decide)
  have hone := hlost.once _ hreturned
  rw [List.count_eq_zero.mpr hkept] at hone
  cases hone

end EasyWebServer.Post
