import EasyWebServer.Lib.Threads
import EasyWebServer.Lib.Transition

/-!
# Monitors

An object whose operations run under one mutex, with one condition variable.

A `Program` says what the thread that has the mutex does next: one statement
(`Move`).  The threads take their statements in any order, a thread that sleeps
may wake without a reason, and a broadcast wakes all that sleep.  A call may last
as long as it wants before its first statement and behind its last.

`Section` runs a critical section alone, from the mutex to the end of it, and a
`Contract` says of each section, run alone, that it does what a sequential object
does in one step.  From this alone follows:

* `Contract.Sim.exec`: the calls and the returns of every run are those of a
  run of the sequential object, where a call takes effect in one step;
* `Contract.Sim.settled`: where no thread can go on, each of them is outside, or
  sleeps because its operation stops now.  No wakeup is lost, and no thread
  waits for another one.
* `Contract.Sim.runs_settle`: without further calls the threads come to such a state.
-/

namespace EasyWebServer

namespace Monitor

open Transition Threads

variable {Op κ σ ρ A ε : Type*}

/-! ## The threads -/

/-- What the thread that has the mutex does next. -/
inductive Move (κ σ ρ : Type*) where
  /-- A statement on the shared state. -/
  | goto (k : κ) (x : σ)
  | broadcast (k : κ)
  /-- The mutex is given up, until the thread is woken. -/
  | wait (k : κ)
  | unlock (answer : ρ)
  | fault

/-- The operations of a monitor. -/
structure Program (Op κ σ ρ : Type*) where
  start : Op → κ
  code : κ → σ → Move κ σ ρ

/-- Where a thread is. -/
inductive Phase (Op κ ρ : Type*) where
  | idle
  /-- It wants the mutex. -/
  | locking (op : Op) (k : κ)
  | inside (op : Op) (k : κ)
  | asleep (op : Op) (k : κ)
  /-- The mutex is free again, the call has not returned yet. -/
  | leaving (answer : ρ)
  deriving DecidableEq, Repr

/-- A broadcast wakes a thread. -/
def Phase.wake : Phase Op κ ρ → Phase Op κ ρ
  | .asleep op k => .locking op k
  | phase => phase

/-- A monitor and its threads. -/
structure State (Op κ σ ρ : Type*) where
  threads : List (Phase Op κ ρ)
  owner : Option Nat
  shared : σ

/-- What the threads do. -/
inductive Action (Op ρ : Type*) where
  | call (i : Nat) (op : Op)
  | lock (i : Nat)
  | run (i : Nat)
  /-- A thread wakes that nobody has woken. -/
  | wake (i : Nat)
  | ret (i : Nat) (answer : ρ)
  deriving DecidableEq, Repr

/-- One step. -/
def step [DecidableEq ρ] (P : Program Op κ σ ρ) (s : State Op κ σ ρ) :
    Action Op ρ → Option (State Op κ σ ρ)
  | .call i op =>
      match s.threads[i]? with
      | some .idle => some { s with threads := s.threads.set i (.locking op (P.start op)) }
      | _ => none
  | .lock i =>
      match s.threads[i]?, s.owner with
      | some (.locking op k), none =>
          some { s with threads := s.threads.set i (.inside op k), owner := some i }
      | _, _ => none
  | .run i =>
      match s.threads[i]? with
      | some (.inside op k) =>
          match P.code k s.shared with
          | .goto k' x => some { s with threads := s.threads.set i (.inside op k'), shared := x }
          | .broadcast k' =>
              some { s with threads := (s.threads.map Phase.wake).set i (.inside op k') }
          | .wait k' => some { s with threads := s.threads.set i (.asleep op k'), owner := none }
          | .unlock answer =>
              some { s with threads := s.threads.set i (.leaving answer), owner := none }
          | .fault => none
      | _ => none
  | .wake i =>
      match s.threads[i]? with
      | some (.asleep op k) => some { s with threads := s.threads.set i (.locking op k) }
      | _ => none
  | .ret i answer =>
      match s.threads[i]? with
      | some (.leaving answer') =>
          if answer = answer' then some { s with threads := s.threads.set i .idle } else none
      | _ => none

/-- The steps that a thread takes by itself, in a call that has begun. -/
def Action.own : Action Op ρ → Bool
  | .call _ _ => false
  | .wake _ => false
  | _ => true

/-- No thread can go on by itself. -/
def Settled [DecidableEq ρ] (P : Program Op κ σ ρ) (s : State Op κ σ ρ) : Prop :=
  ∀ a : Action Op ρ, a.own = true → step P s a = none

/-- What a step can do. -/
inductive Steps (P : Program Op κ σ ρ) (s : State Op κ σ ρ) :
    Action Op ρ → State Op κ σ ρ → Prop where
  | call {i : Nat} (op : Op) (h : s.threads[i]? = some .idle) :
      Steps P s (.call i op) { s with threads := s.threads.set i (.locking op (P.start op)) }
  | lock {i : Nat} {op : Op} {k : κ} (h : s.threads[i]? = some (.locking op k))
      (hfree : s.owner = none) :
      Steps P s (.lock i) { s with threads := s.threads.set i (.inside op k), owner := some i }
  | goto {i : Nat} {op : Op} {k k' : κ} {x : σ} (h : s.threads[i]? = some (.inside op k))
      (hcode : P.code k s.shared = .goto k' x) :
      Steps P s (.run i) { s with threads := s.threads.set i (.inside op k'), shared := x }
  | broadcast {i : Nat} {op : Op} {k k' : κ} (h : s.threads[i]? = some (.inside op k))
      (hcode : P.code k s.shared = .broadcast k') :
      Steps P s (.run i) { s with threads := (s.threads.map Phase.wake).set i (.inside op k') }
  | wait {i : Nat} {op : Op} {k k' : κ} (h : s.threads[i]? = some (.inside op k))
      (hcode : P.code k s.shared = .wait k') :
      Steps P s (.run i) { s with threads := s.threads.set i (.asleep op k'), owner := none }
  | unlock {i : Nat} {op : Op} {k : κ} {answer : ρ} (h : s.threads[i]? = some (.inside op k))
      (hcode : P.code k s.shared = .unlock answer) :
      Steps P s (.run i) { s with threads := s.threads.set i (.leaving answer), owner := none }
  | wake {i : Nat} {op : Op} {k : κ} (h : s.threads[i]? = some (.asleep op k)) :
      Steps P s (.wake i) { s with threads := s.threads.set i (.locking op k) }
  | ret {i : Nat} {answer : ρ} (h : s.threads[i]? = some (.leaving answer)) :
      Steps P s (.ret i answer) { s with threads := s.threads.set i .idle }

theorem step_inv [DecidableEq ρ] {P : Program Op κ σ ρ} {s s' : State Op κ σ ρ}
    {a : Action Op ρ} (hstep : step P s a = some s') : Steps P s a s' := by
  cases a with
  | call i op =>
      rw [step] at hstep
      split at hstep
      · cases hstep
        exact .call op ‹_›
      · cases hstep
  | lock i =>
      rw [step] at hstep
      split at hstep
      · cases hstep
        exact .lock ‹_› ‹_›
      · cases hstep
  | run i =>
      rw [step] at hstep
      split at hstep
      · split at hstep
        · cases hstep
          exact .goto ‹_› ‹_›
        · cases hstep
          exact .broadcast ‹_› ‹_›
        · cases hstep
          exact .wait ‹_› ‹_›
        · cases hstep
          exact .unlock ‹_› ‹_›
        · cases hstep
      · cases hstep
  | wake i =>
      rw [step] at hstep
      split at hstep
      · cases hstep
        exact .wake ‹_›
      · cases hstep
  | ret i answer =>
      rw [step] at hstep
      split at hstep
      · split at hstep
        · rename_i heq
          cases hstep
          subst heq
          exact .ret ‹_›
        · cases hstep
      · cases hstep

theorem step_length [DecidableEq ρ] {P : Program Op κ σ ρ} {s s' : State Op κ σ ρ}
    {a : Action Op ρ} (hstep : step P s a = some s') : s'.threads.length = s.threads.length := by
  cases step_inv hstep with
  | broadcast _ _ => rw [List.length_set, List.length_map]
  | _ => exact List.length_set

/-! ## The sequential object -/

/-- Where a call of a sequential object is. -/
inductive CallPhase (Op ρ : Type*) where
  | idle
  | called (op : Op)
  | answered (answer : ρ)
  deriving DecidableEq, Repr

/-- A sequential object and the threads that call it. -/
structure Object (Op ρ A : Type*) where
  threads : List (CallPhase Op ρ)
  value : A

/-- What the threads do.  `perform` is the step in which a call takes effect. -/
inductive ObjectAction (Op ρ : Type*) where
  | call (i : Nat) (op : Op)
  | perform (i : Nat)
  | ret (i : Nat) (answer : ρ)
  deriving DecidableEq, Repr

/-- One step.  An operation that stops is not performed. -/
def objectStep [DecidableEq ρ] (spec : A → Op → Except ε (ρ × A)) (t : Object Op ρ A) :
    ObjectAction Op ρ → Option (Object Op ρ A)
  | .call i op =>
      match t.threads[i]? with
      | some .idle => some { t with threads := t.threads.set i (.called op) }
      | _ => none
  | .perform i =>
      match t.threads[i]? with
      | some (.called op) =>
          match spec t.value op with
          | .ok (answer, a) => some { threads := t.threads.set i (.answered answer), value := a }
          | .error _ => none
      | _ => none
  | .ret i answer =>
      match t.threads[i]? with
      | some (.answered answer') =>
          if answer = answer' then some { t with threads := t.threads.set i .idle } else none
      | _ => none

/-- What the callers see. -/
inductive Event (Op ρ : Type*) where
  | call (i : Nat) (op : Op)
  | ret (i : Nat) (answer : ρ)
  deriving DecidableEq, Repr

def Action.seen : Action Op ρ → Option (Event Op ρ)
  | .call i op => some (.call i op)
  | .ret i answer => some (.ret i answer)
  | _ => none

def ObjectAction.seen : ObjectAction Op ρ → Option (Event Op ρ)
  | .call i op => some (.call i op)
  | .ret i answer => some (.ret i answer)
  | .perform _ => none

/-- What the callers see of a thread. -/
def Phase.seen : Phase Op κ ρ → CallPhase Op ρ
  | .idle => .idle
  | .locking op _ => .called op
  | .inside op _ => .called op
  | .asleep op _ => .called op
  | .leaving answer => .answered answer

@[simp] theorem Phase.seen_wake (p : Phase Op κ ρ) : p.wake.seen = p.seen := by
  cases p <;> rfl

/-! ## A critical section, run alone -/

/-- How a section ends. -/
inductive End (κ σ ρ : Type*) where
  | unlock (answer : ρ) (x : σ)
  | wait (k : κ) (x : σ)

/-- From `k` and `x`, the section ends so behind `n` statements, `b` of them broadcasts. -/
inductive Section (P : Program Op κ σ ρ) : κ → σ → Nat → Nat → End κ σ ρ → Prop where
  | unlock {k : κ} {x : σ} {answer : ρ} (h : P.code k x = .unlock answer) :
      Section P k x 1 0 (.unlock answer x)
  | wait {k k' : κ} {x : σ} (h : P.code k x = .wait k') : Section P k x 1 0 (.wait k' x)
  | goto {k k' : κ} {x x' : σ} {n b : Nat} {e : End κ σ ρ} (h : P.code k x = .goto k' x')
      (hrest : Section P k' x' n b e) : Section P k x (n + 1) b e
  | broadcast {k k' : κ} {x : σ} {n b : Nat} {e : End κ σ ρ} (h : P.code k x = .broadcast k')
      (hrest : Section P k' x n b e) : Section P k x (n + 1) (b + 1) e

namespace Section

variable {P : Program Op κ σ ρ} {k k' : κ} {x x' : σ} {n b : Nat} {e : End κ σ ρ}

theorem of_goto (h : Section P k x n b e) (hcode : P.code k x = .goto k' x') :
    ∃ m, n = m + 1 ∧ Section P k' x' m b e := by
  rcases h with hcode' | hcode' | ⟨hcode', hrest⟩ | ⟨hcode', hrest⟩ <;> rw [hcode] at hcode' <;>
    cases hcode'
  exact ⟨_, rfl, hrest⟩

theorem of_broadcast (h : Section P k x n b e) (hcode : P.code k x = .broadcast k') :
    ∃ m d, n = m + 1 ∧ b = d + 1 ∧ Section P k' x m d e := by
  rcases h with hcode' | hcode' | ⟨hcode', hrest⟩ | ⟨hcode', hrest⟩ <;> rw [hcode] at hcode' <;>
    cases hcode'
  exact ⟨_, _, rfl, rfl, hrest⟩

theorem of_wait (h : Section P k x n b e) (hcode : P.code k x = .wait k') :
    n = 1 ∧ b = 0 ∧ e = .wait k' x := by
  rcases h with hcode' | hcode' | ⟨hcode', hrest⟩ | ⟨hcode', hrest⟩ <;> rw [hcode] at hcode' <;>
    cases hcode'
  exact ⟨rfl, rfl, rfl⟩

theorem of_unlock {answer : ρ} (h : Section P k x n b e) (hcode : P.code k x = .unlock answer) :
    n = 1 ∧ b = 0 ∧ e = .unlock answer x := by
  rcases h with hcode' | hcode' | ⟨hcode', hrest⟩ | ⟨hcode', hrest⟩ <;> rw [hcode] at hcode' <;>
    cases hcode'
  exact ⟨rfl, rfl, rfl⟩

theorem broadcasts_le (h : Section P k x n b e) : b ≤ n := by
  induction h with
  | unlock | wait => exact Nat.zero_le 1
  | goto _ _ ih => exact Nat.le_succ_of_le ih
  | broadcast _ _ ih => exact Nat.succ_le_succ ih

end Section

/-- The operation stops. -/
def Stops (spec : A → Op → Except ε (ρ × A)) (a : A) (op : Op) : Prop := ∃ e, spec a op = .error e

/-- The end of a section of `op` that was entered with the value `a`: it has done what the
object does, or waits because the object stops.  `told` says that the threads that sleep
are woken; without it, nobody has a reason to go on that had none before. -/
inductive Serves (spec : A → Op → Except ε (ρ × A)) (Rep : σ → A → Prop) (Entry : Op → κ → Prop)
    (noisy : Op → Bool) (op : Op) (a : A) (told : Prop) : End κ σ ρ → Prop where
  | unlock {answer : ρ} {x : σ} {a' : A} (hspec : spec a op = .ok (answer, a')) (hrep : Rep x a')
      (htold : told ∨ ∀ op', Stops spec a op' → Stops spec a' op') :
      Serves spec Rep Entry noisy op a told (.unlock answer x)
  | wait {k : κ} {x : σ} (hspec : Stops spec a op) (hrep : Rep x a) (hentry : Entry op k)
      (hquiet : noisy op = false) : Serves spec Rep Entry noisy op a told (.wait k x)

/-- What is known of a program, section by section.  `Entry op k` says that a section of `op`
may begin at `k`, and `noisy op` that it may wake other threads. -/
structure Contract (P : Program Op κ σ ρ) (spec : A → Op → Except ε (ρ × A)) where
  Rep : σ → A → Prop
  Entry : Op → κ → Prop
  noisy : Op → Bool
  bound : Nat
  start : ∀ op, Entry op (P.start op)
  serves : ∀ {op : Op} {k : κ} {x : σ} {a : A}, Entry op k → Rep x a →
    ∃ n b e, Section P k x n b e ∧ n ≤ bound ∧ (noisy op = false → b = 0) ∧
      Serves spec Rep Entry noisy op a (0 < b) e

/-- More told is better. -/
theorem Serves.mono {spec : A → Op → Except ε (ρ × A)} {Rep : σ → A → Prop} {Entry : Op → κ → Prop}
    {noisy : Op → Bool} {op : Op} {a : A} {told told' : Prop} {e : End κ σ ρ}
    (h : Serves spec Rep Entry noisy op a told e) (htold : told → told') :
    Serves spec Rep Entry noisy op a told' e := by
  cases h with
  | unlock hspec hrep h => exact .unlock hspec hrep (h.imp_left htold)
  | wait hspec hrep hentry hquiet => exact .wait hspec hrep hentry hquiet

/-! ## The monitor does what the object does -/

/-- Nobody sleeps. -/
def Awake (threads : List (Phase Op κ ρ)) : Prop := ∀ (i : Nat) (op : Op) (k : κ), threads[i]? ≠ some (.asleep op k)

theorem Awake.set {threads : List (Phase Op κ ρ)} {new : Phase Op κ ρ} (h : Awake threads) (i : Nat)
    (hnew : ∀ op k, new ≠ .asleep op k) : Awake (threads.set i new) := by
  intro j op k hj
  rcases set_cases hj with ⟨-, heq⟩ | ⟨-, hold⟩
  · exact hnew op k heq.symm
  · exact h j op k hold

theorem awake_wake (threads : List (Phase Op κ ρ)) : Awake (threads.map Phase.wake) := by
  intro j op k hj
  rw [List.getElem?_map, Option.map_eq_some_iff] at hj
  obtain ⟨p, -, hp⟩ := hj
  cases p <;> cases hp

namespace Contract

variable {P : Program Op κ σ ρ} {spec : A → Op → Except ε (ρ × A)} {c : Contract P spec}
  {s s' : State Op κ σ ρ} {t : Object Op ρ A}

/-- The section that a thread is in does, from here, what the object does with `a`. -/
def Held (c : Contract P spec) (s : State Op κ σ ρ) (op : Op) (k : κ) (a : A) : Prop :=
  ∃ n b e, Section P k s.shared n b e ∧
    Serves spec c.Rep c.Entry c.noisy op a (0 < b ∨ Awake s.threads) e

/-- The monitor and the object.  While a thread is inside, the object has the value with which
its section was entered. -/
structure Sim (c : Contract P spec) (s : State Op κ σ ρ) (t : Object Op ρ A) : Prop where
  seen : t.threads = s.threads.map Phase.seen
  entry : ∀ {i : Nat} {op : Op} {k : κ}, s.threads[i]? = some (.locking op k) → c.Entry op k
  asleep : ∀ {i : Nat} {op : Op} {k : κ}, s.threads[i]? = some (.asleep op k) →
    c.Entry op k ∧ c.noisy op = false ∧ Stops spec t.value op
  owner : ∀ {i : Nat} {op : Op} {k : κ}, s.threads[i]? = some (.inside op k) → s.owner = some i
  inside : ∀ {i : Nat}, s.owner = some i →
    ∃ op k, s.threads[i]? = some (.inside op k) ∧ c.Held s op k t.value
  free : s.owner = none → c.Rep s.shared t.value

namespace Sim

/-- A thread that is outside goes on, and is outside. -/
theorem outside (h : c.Sim s t) {i : Nat} {old new : Phase Op κ ρ} (hold : s.threads[i]? = some old)
    (holdOut : ∀ op k, old ≠ .inside op k) (hnewOut : ∀ op k, new ≠ .inside op k)
    (hnewAwake : ∀ op k, new ≠ .asleep op k) (hentry : ∀ op k, new = .locking op k → c.Entry op k)
    {threads : List (CallPhase Op ρ)} (hseen : threads = t.threads.set i new.seen) :
    c.Sim { s with threads := s.threads.set i new } { t with threads := threads } where
  seen := by
    show threads = (s.threads.set i new).map Phase.seen
    rw [hseen, h.seen, List.map_set]
  entry := by
    intro j op k hj
    rcases set_cases hj with ⟨-, heq⟩ | ⟨-, hj⟩
    · exact hentry op k heq.symm
    · exact h.entry hj
  asleep := by
    intro j op k hj
    rcases set_cases hj with ⟨-, heq⟩ | ⟨-, hj⟩
    · exact absurd heq.symm (hnewAwake op k)
    · exact h.asleep hj
  owner := by
    intro j op k hj
    rcases set_cases hj with ⟨-, heq⟩ | ⟨-, hj⟩
    · exact absurd heq.symm (hnewOut op k)
    · exact h.owner hj
  inside := by
    intro j hj
    obtain ⟨op, k, hin, n, b, e, hsection, hserves⟩ := h.inside hj
    have hne : i ≠ j := by
      rintro rfl
      rw [hold] at hin
      exact holdOut op k (Option.some.inj hin)
    refine ⟨op, k, (List.getElem?_set_ne hne).trans hin, n, b, e, hsection, ?_⟩
    exact hserves.mono (Or.imp_right (fun hawake => hawake.set i hnewAwake))
  free := h.free

/-- The thread that has the mutex is the only one inside. -/
theorem only (h : c.Sim s t) {i j : Nat} {op op' : Op} {k k' : κ}
    (hi : s.threads[i]? = some (.inside op k)) (hj : s.threads[j]? = some (.inside op' k')) :
    j = i := by
  have howner := h.owner hi
  rw [h.owner hj] at howner
  exact Option.some.inj howner

/-- What is known of the thread inside. -/
theorem held (h : c.Sim s t) {i : Nat} {op : Op} {k : κ}
    (hi : s.threads[i]? = some (.inside op k)) : c.Held s op k t.value := by
  obtain ⟨op', k', hin, hheld⟩ := h.inside (h.owner hi)
  rw [hi] at hin
  cases hin
  exact hheld

/-- The thread inside goes on, and is inside. -/
theorem stay (h : c.Sim s t) {i : Nat} {op : Op} {k k' : κ}
    (hi : s.threads[i]? = some (.inside op k)) {x : σ}
    (hheld : c.Held ⟨s.threads.set i (.inside op k'), s.owner, x⟩ op k' t.value) :
    c.Sim ⟨s.threads.set i (.inside op k'), s.owner, x⟩ t where
  seen := by
    rw [h.seen]
    exact (map_set_same Phase.seen hi (by rfl)).symm
  entry := by
    intro j op' k'' hj
    rcases set_cases hj with ⟨-, heq⟩ | ⟨-, hj⟩
    · cases heq
    · exact h.entry hj
  asleep := by
    intro j op' k'' hj
    rcases set_cases hj with ⟨-, heq⟩ | ⟨-, hj⟩
    · cases heq
    · exact h.asleep hj
  owner := by
    intro j op' k'' hj
    rcases set_cases hj with ⟨rfl, -⟩ | ⟨-, hj⟩
    · exact h.owner hi
    · exact h.owner hj
  inside := by
    intro j hj
    change s.owner = some j at hj
    rw [h.owner hi] at hj
    cases hj
    exact ⟨op, k', List.getElem?_set_self (List.getElem?_eq_some_iff.mp hi).1, hheld⟩
  free := by
    intro hnone
    change s.owner = none at hnone
    rw [h.owner hi] at hnone
    cases hnone

/-- The thread inside gives the mutex up. -/
theorem leave (h : c.Sim s t) {i : Nat} {op : Op} {k : κ} {new : Phase Op κ ρ}
    (hi : s.threads[i]? = some (.inside op k)) (hnewOut : ∀ op k, new ≠ .inside op k)
    (hnewIn : ∀ op k, new ≠ .locking op k) {threads : List (CallPhase Op ρ)}
    (hseen : threads = t.threads.set i new.seen) {a : A} (hrep : c.Rep s.shared a)
    (hnewStops : ∀ op k, new = .asleep op k → c.Entry op k ∧ c.noisy op = false ∧ Stops spec a op)
    (hstops : Awake s.threads ∨ ∀ op, Stops spec t.value op → Stops spec a op) :
    c.Sim ⟨s.threads.set i new, none, s.shared⟩ ⟨threads, a⟩ where
  seen := by
    show threads = (s.threads.set i new).map Phase.seen
    rw [hseen, h.seen, List.map_set]
  entry := by
    intro j op' k' hj
    rcases set_cases hj with ⟨-, heq⟩ | ⟨-, hj⟩
    · exact absurd heq.symm (hnewIn op' k')
    · exact h.entry hj
  asleep := by
    intro j op' k' hj
    rcases set_cases hj with ⟨-, heq⟩ | ⟨-, hj⟩
    · exact hnewStops op' k' heq.symm
    · obtain ⟨hentry, hquiet, hold⟩ := h.asleep hj
      rcases hstops with hawake | hstops
      · exact absurd hj (hawake j op' k')
      · exact ⟨hentry, hquiet, hstops op' hold⟩
  owner := by
    intro j op' k' hj
    rcases set_cases hj with ⟨-, heq⟩ | ⟨hne, hj⟩
    · exact absurd heq.symm (hnewOut op' k')
    · exact absurd (h.only hi hj) hne
  inside := nofun
  free := fun _ => hrep

/-- All that sleep are woken. -/
theorem wakeAll (h : c.Sim s t) : c.Sim { s with threads := s.threads.map Phase.wake } t where
  seen := by
    show t.threads = (s.threads.map Phase.wake).map Phase.seen
    rw [h.seen, List.map_map]
    exact List.map_congr_left (fun p _ => p.seen_wake.symm)
  entry := by
    intro i op k hi
    rw [List.getElem?_map, Option.map_eq_some_iff] at hi
    obtain ⟨p, hi, hp⟩ := hi
    cases p with
    | locking op' k' =>
        cases hp
        exact h.entry hi
    | asleep op' k' =>
        cases hp
        exact (h.asleep hi).1
    | _ => cases hp
  asleep := fun hi => absurd hi (awake_wake s.threads _ _ _)
  owner := by
    intro i op k hi
    rw [List.getElem?_map, Option.map_eq_some_iff] at hi
    obtain ⟨p, hi, hp⟩ := hi
    cases p with
    | inside op' k' => exact h.owner hi
    | _ => cases hp
  inside := by
    intro i hi
    obtain ⟨op, k, hin, n, b, e, hsection, hserves⟩ := h.inside hi
    refine ⟨op, k, ?_, n, b, e, hsection, hserves.mono (fun _ => .inr (awake_wake s.threads))⟩
    show (s.threads.map Phase.wake)[i]? = _
    rw [List.getElem?_map, hin]
    rfl
  free := h.free

/-- The mutex is taken. -/
theorem lock (h : c.Sim s t) {i : Nat} {op : Op} {k : κ}
    (hi : s.threads[i]? = some (.locking op k)) (hfree : s.owner = none) :
    c.Sim ⟨s.threads.set i (.inside op k), some i, s.shared⟩ t where
  seen := by
    rw [h.seen]
    exact (map_set_same Phase.seen hi (by rfl)).symm
  entry := by
    intro j op' k' hj
    rcases set_cases hj with ⟨-, heq⟩ | ⟨-, hj⟩
    · cases heq
    · exact h.entry hj
  asleep := by
    intro j op' k' hj
    rcases set_cases hj with ⟨-, heq⟩ | ⟨-, hj⟩
    · cases heq
    · exact h.asleep hj
  owner := by
    intro j op' k' hj
    rcases set_cases hj with ⟨rfl, -⟩ | ⟨-, hj⟩
    · rfl
    · have howner := h.owner hj
      rw [hfree] at howner
      cases howner
  inside := by
    intro j hj
    cases hj
    obtain ⟨n, b, e, hsection, -, -, hserves⟩ := c.serves (h.entry hi) (h.free hfree)
    exact ⟨op, k, List.getElem?_set_self (List.getElem?_eq_some_iff.mp hi).1, n, b, e, hsection,
      hserves.mono .inl⟩
  free := nofun

/-- Nothing is there that the object does not have, and it can be called. -/
theorem start {x : σ} {a : A} (hrep : c.Rep x a) (n : Nat) :
    c.Sim ⟨List.replicate n .idle, none, x⟩ ⟨List.replicate n .idle, a⟩ where
  seen := by
    show List.replicate n .idle = (List.replicate n .idle).map Phase.seen
    rw [List.map_replicate]
    rfl
  entry := fun hi => nomatch List.eq_of_mem_replicate (List.mem_of_getElem? hi)
  asleep := fun hi => nomatch List.eq_of_mem_replicate (List.mem_of_getElem? hi)
  owner := fun hi => nomatch List.eq_of_mem_replicate (List.mem_of_getElem? hi)
  inside := nofun
  free := fun _ => hrep

/-- The object sees a thread as it is. -/
theorem phase (h : c.Sim s t) {i : Nat} {p : Phase Op κ ρ} (hi : s.threads[i]? = some p) :
    t.threads[i]? = some p.seen := by
  rw [h.seen, List.getElem?_map, hi]
  rfl

/-- The object takes a thread for what it was. -/
theorem unseen (h : c.Sim s t) {i : Nat} {old new : Phase Op κ ρ} (hi : s.threads[i]? = some old)
    (hsame : new.seen = old.seen) : t.threads = t.threads.set i new.seen := by
  rw [h.seen, ← List.map_set, map_set_same Phase.seen hi hsame]

variable [DecidableEq ρ]

/-- A step of the monitor is one step of the object, or none. -/
theorem step (h : c.Sim s t) {a : Action Op ρ} (hstep : Monitor.step P s a = some s') :
    ∃ bs t', Transition.exec (objectStep spec) t bs = some t' ∧
      bs.filterMap ObjectAction.seen = a.seen.toList ∧ c.Sim s' t' := by
  cases step_inv hstep with
  | @call i op hi =>
      refine ⟨[.call i op], _, ?_, rfl,
        h.outside hi (by simp) (by simp) (by simp) ?_ (by rfl)⟩
      · rw [exec, objectStep, h.phase hi]
        rfl
      · rintro op' k' hlocking
        cases hlocking
        exact c.start op
  | lock hi hfree => exact ⟨[], t, rfl, rfl, h.lock hi hfree⟩
  | goto hi hcode =>
      obtain ⟨n, b, e, hsection, hserves⟩ := h.held hi
      obtain ⟨m, -, hrest⟩ := hsection.of_goto hcode
      exact ⟨[], t, rfl, rfl, h.stay hi
        ⟨m, b, e, hrest, hserves.mono (Or.imp_right (fun hawake => hawake.set _ (by simp)))⟩⟩
  | broadcast hi hcode =>
      obtain ⟨n, b, e, hsection, hserves⟩ := h.held hi
      obtain ⟨m, d, -, -, hrest⟩ := hsection.of_broadcast hcode
      exact ⟨[], t, rfl, rfl, h.wakeAll.stay (List.getElem?_map.trans (by rw [hi]; rfl))
        ⟨m, d, e, hrest, hserves.mono (fun _ => .inr ((awake_wake _).set _ (by simp)))⟩⟩
  | wait hi hcode =>
      obtain ⟨n, b, e, hsection, hserves⟩ := h.held hi
      obtain ⟨-, rfl, rfl⟩ := hsection.of_wait hcode
      cases hserves with
      | wait hspec hrep hentry hquiet =>
          refine ⟨[], t, rfl, rfl, h.leave hi (by simp) (by simp) (h.unseen hi (by rfl)) hrep ?_
            (.inr (fun _ hstops => hstops))⟩
          rintro op' k' hasleep
          cases hasleep
          exact ⟨hentry, hquiet, hspec⟩
  | @unlock i op k answer hi hcode =>
      obtain ⟨n, b, e, hsection, hserves⟩ := h.held hi
      obtain ⟨-, rfl, rfl⟩ := hsection.of_unlock hcode
      cases hserves with
      | unlock hspec hrep htold =>
          refine ⟨[.perform i], _, ?_, rfl, h.leave hi (by simp) (by simp) (by rfl) hrep
            (by simp) (htold.imp_left ?_)⟩
          · simp only [exec, objectStep, h.phase hi, Phase.seen, hspec]
          · rintro (hlt | hawake)
            · exact absurd hlt (Nat.lt_irrefl 0)
            · exact hawake
  | wake hi =>
      refine ⟨[], t, rfl, rfl, h.outside hi (by simp) (by simp) (by simp) ?_ (h.unseen hi (by rfl))⟩
      rintro op' k' hlocking
      cases hlocking
      exact (h.asleep hi).1
  | @ret i answer hi =>
      refine ⟨[.ret i answer], _, ?_, rfl,
        h.outside hi (by simp) (by simp) (by simp) (by simp) (by rfl)⟩
      simp only [exec, objectStep, h.phase hi, Phase.seen, if_pos]

/-- Every run of the monitor is, for those who call it, a run of the object. -/
theorem exec (h : c.Sim s t) {as : List (Action Op ρ)}
    (hexec : Transition.exec (Monitor.step P) s as = some s') :
    ∃ bs t', Transition.exec (objectStep spec) t bs = some t' ∧
      bs.filterMap ObjectAction.seen = as.filterMap Action.seen ∧ c.Sim s' t' :=
  exec_simulated Action.seen ObjectAction.seen (fun _ _ _ _ h _ hstep => h.step hstep) h
    (allSteps_of_step (fun _ => True) (fun _ _ _ _ _ => trivial) (fun _ _ _ => trivial) trivial as)
    hexec

/-! ## Threads that cannot go on -/

/-- A thread inside can go on. -/
theorem run_some (h : c.Sim s t) {i : Nat} {op : Op} {k : κ}
    (hi : s.threads[i]? = some (.inside op k)) : ∃ s', Monitor.step P s (.run i) = some s' := by
  obtain ⟨n, b, e, hsection, -⟩ := h.held hi
  cases hsection with
  | unlock hcode => simp only [Monitor.step, hi, hcode, Option.some.injEq, exists_eq']
  | wait hcode => simp only [Monitor.step, hi, hcode, Option.some.injEq, exists_eq']
  | goto hcode _ => simp only [Monitor.step, hi, hcode, Option.some.injEq, exists_eq']
  | broadcast hcode _ => simp only [Monitor.step, hi, hcode, Option.some.injEq, exists_eq']

/-- Where no thread can go on, each of them is outside, or sleeps and has a reason to. -/
theorem settled (h : c.Sim s t) (hs : Settled P s) :
    c.Rep s.shared t.value ∧
      ∀ p ∈ s.threads, p = .idle ∨
        ∃ op k, p = .asleep op k ∧ c.Entry op k ∧ Stops spec t.value op := by
  have hrun : ∀ (i : Nat) (op : Op) (k : κ), s.threads[i]? ≠ some (.inside op k) := by
    intro i op k hi
    obtain ⟨s', hs'⟩ := h.run_some hi
    rw [hs (.run i) rfl] at hs'
    cases hs'
  have hfree : s.owner = none := by
    rcases howner : s.owner with _ | i
    · rfl
    · obtain ⟨op, k, hi, -⟩ := h.inside howner
      exact absurd hi (hrun i op k)
  refine ⟨h.free hfree, fun p hp => ?_⟩
  obtain ⟨i, hi⟩ := List.getElem?_of_mem hp
  cases p with
  | idle => exact .inl rfl
  | locking op k =>
      have hlock := hs (.lock i) rfl
      simp only [Monitor.step, hi, hfree, reduceCtorEq] at hlock
  | inside op k => exact absurd hi (hrun i op k)
  | asleep op k => exact .inr ⟨op, k, rfl, (h.asleep hi).1, (h.asleep hi).2.2⟩
  | leaving answer =>
      have hret := hs (.ret i answer) rfl
      simp only [Monitor.step, hi, if_pos, reduceCtorEq] at hret

end Sim

/-! ## They come to such a state -/

/-- The steps that a woken thread may take in its next section, and to take the mutex and return. -/
def span (c : Contract P spec) : Nat := c.bound + 2

/-- The steps that `n` threads have left for each broadcast. -/
def alarm (c : Contract P spec) (n : Nat) : Nat := n * c.span

/-- The steps that a thread may cause, outside of the section it is in. -/
def weight (c : Contract P spec) (n : Nat) : Phase Op κ ρ → Nat
  | .idle => 0
  | .locking op _ => c.span + if c.noisy op then c.bound * c.alarm n else 0
  | .inside _ _ => 1
  | .asleep _ _ => 0
  | .leaving _ => 1

/-- The steps that the threads have left at most, where there are at most `N` of them. -/
inductive Left (c : Contract P spec) (N : Nat) (s : State Op κ σ ρ) : Nat → Prop where
  | free (howner : s.owner = none) : c.Left N s (total (c.weight N) s.threads)
  | held {i : Nat} {op : Op} {k : κ} {n b : Nat} {e : End κ σ ρ}
      (hi : s.threads[i]? = some (.inside op k)) (hsection : Section P k s.shared n b e) :
      c.Left N s (total (c.weight N) s.threads + (n + b * c.alarm N))

/-- What is left with the thread that takes the mutex. -/
theorem section_lt_weight (c : Contract P spec) (N : Nat) {n b : Nat} {op : Op} (k : κ)
    (hn : n ≤ c.bound) (hbn : b ≤ n) (hquiet : c.noisy op = false → b = 0) :
    n + b * c.alarm N + 1 < c.weight N (.locking op k : Phase Op κ ρ) := by
  rw [weight, span]
  rcases hnoisy : c.noisy op with _ | _
  · rw [hquiet hnoisy, Nat.zero_mul, if_neg Bool.false_ne_true]
    omega
  · have hle : b * c.alarm N ≤ c.bound * c.alarm N := Nat.mul_le_mul_right _ (hbn.trans hn)
    rw [if_pos rfl]
    omega

namespace Sim

/-- A broadcast costs what it may wake. -/
theorem wakeAll_weight (h : c.Sim s t) {N : Nat} (hlen : s.threads.length ≤ N) :
    total (c.weight N) (s.threads.map Phase.wake) ≤ total (c.weight N) s.threads + c.alarm N := by
  refine (total_map_le ?_).trans
    (Nat.add_le_add_left (Nat.mul_le_mul_right c.span hlen) _)
  intro p hp
  obtain ⟨i, hi⟩ := List.getElem?_of_mem hp
  cases p with
  | asleep op k =>
      show c.span + (if c.noisy op then c.bound * c.alarm N else 0) ≤ 0 + c.span
      rw [(h.asleep hi).2.1, if_neg Bool.false_ne_true]
      omega
  | _ => exact Nat.le_add_right _ _

/-- What is left when a thread is inside. -/
theorem left_held (h : c.Sim s t) {N m i : Nat} (hleft : c.Left N s m) {op : Op} {k : κ}
    (hi : s.threads[i]? = some (.inside op k)) :
    ∃ n b e, Section P k s.shared n b e ∧
      m = total (c.weight N) s.threads + (n + b * c.alarm N) := by
  cases hleft with
  | free hfree =>
      rw [h.owner hi] at hfree
      cases hfree
  | held hj hsection =>
      obtain rfl := h.only hi hj
      rw [hi] at hj
      cases hj
      exact ⟨_, _, _, hsection, rfl⟩

variable [DecidableEq ρ]

/-- A thread that goes on by itself uses up a step. -/
theorem left_step (h : c.Sim s t) {N m : Nat} (hlen : s.threads.length ≤ N) (hleft : c.Left N s m)
    {a : Action Op ρ} (hown : a.own = true) (hstep : Monitor.step P s a = some s') :
    ∃ m' < m, c.Left N s' m' := by
  have hset : ∀ {i : Nat} {p : Phase Op κ ρ}, s.threads[i]? = some p → ∀ q,
      total (c.weight N) (s.threads.set i q) + c.weight N p =
        total (c.weight N) s.threads + c.weight N q :=
    fun hi q => total_set (c.weight N) hi q
  have hnow : ∀ {i : Nat} {p q : Phase Op κ ρ}, s.threads[i]? = some p →
      (s.threads.set i q)[i]? = some q :=
    fun hi => List.getElem?_set_self (List.getElem?_eq_some_iff.mp hi).1
  cases step_inv hstep with
  | call op hi => cases hown
  | wake hi => cases hown
  | @lock i op k hi hfree =>
      obtain ⟨n, b, e, hsection, hn, hquiet, -⟩ := c.serves (h.entry hi) (h.free hfree)
      have hlt := c.section_lt_weight N k hn hsection.broadcasts_le hquiet
      have htotal := hset hi (.inside op k)
      cases hleft with
      | held hj _ =>
          rw [h.owner hj] at hfree
          cases hfree
      | free _ =>
          refine ⟨_, ?_, .held (hnow hi) hsection⟩
          show total (c.weight N) (s.threads.set i (.inside op k)) + (n + b * c.alarm N) < _
          change _ + _ = _ + 1 at htotal
          omega
  | @goto i op k k' x hi hcode =>
      obtain ⟨n, b, e, hsection, rfl⟩ := h.left_held hleft hi
      obtain ⟨n, rfl, hrest⟩ := hsection.of_goto hcode
      have htotal := hset hi (.inside op k')
      refine ⟨_, ?_, .held (hnow hi) hrest⟩
      show total (c.weight N) (s.threads.set i (.inside op k')) + (n + b * c.alarm N) < _
      change _ + 1 = _ + 1 at htotal
      omega
  | @broadcast i op k k' hi hcode =>
      obtain ⟨n, b, e, hsection, rfl⟩ := h.left_held hleft hi
      obtain ⟨n, b, rfl, rfl, hrest⟩ := hsection.of_broadcast hcode
      have hwake : (s.threads.map Phase.wake)[i]? = some (.inside op k) := by
        rw [List.getElem?_map, hi]
        rfl
      have htotal := total_set (c.weight N) hwake (.inside op k')
      have hcost := h.wakeAll_weight hlen
      refine ⟨_, ?_, .held (List.getElem?_set_self (List.getElem?_eq_some_iff.mp hwake).1) hrest⟩
      show total (c.weight N) ((s.threads.map Phase.wake).set i (.inside op k')) +
        (n + b * c.alarm N) < _
      change _ + 1 = _ + 1 at htotal
      rw [Nat.succ_mul]
      omega
  | @wait i op k k' hi hcode =>
      obtain ⟨n, b, e, hsection, rfl⟩ := h.left_held hleft hi
      have htotal := hset hi (.asleep op k')
      refine ⟨_, ?_, .free rfl⟩
      show total (c.weight N) (s.threads.set i (.asleep op k')) < _
      change _ + 1 = _ + 0 at htotal
      omega
  | @unlock i op k answer hi hcode =>
      obtain ⟨n, b, e, hsection, rfl⟩ := h.left_held hleft hi
      obtain ⟨rfl, -, -⟩ := hsection.of_unlock hcode
      have htotal := hset hi (.leaving answer)
      refine ⟨_, ?_, .free rfl⟩
      show total (c.weight N) (s.threads.set i (.leaving answer)) < _
      change _ + 1 = _ + 1 at htotal
      omega
  | @ret i answer hi =>
      have htotal := hset hi .idle
      change _ + 1 = _ + 0 at htotal
      cases hleft with
      | free hfree =>
          refine ⟨_, ?_, .free hfree⟩
          show total (c.weight N) (s.threads.set i .idle) < _
          omega
      | @held j op k n b e hj hsection =>
          have hne : i ≠ j := by
            rintro rfl
            rw [hi] at hj
            cases hj
          refine ⟨_, ?_, .held ((List.getElem?_set_ne hne).trans hj) hsection⟩
          show total (c.weight N) (s.threads.set i .idle) + _ < _
          omega

/-- Without new calls and threads that wake without a reason, every run ends. -/
theorem runs_settle (h : c.Sim s t) : ∃ bound, ∀ (as : List (Action Op ρ)) (s' : State Op κ σ ρ),
    (∀ a ∈ as, a.own = true) → Transition.exec (Monitor.step P) s as = some s' →
      as.length ≤ bound := by
  have hleft : ∃ m, c.Left s.threads.length s m := by
    rcases howner : s.owner with _ | i
    · exact ⟨_, .free howner⟩
    · obtain ⟨op, k, hi, n, b, e, hsection, -⟩ := h.inside howner
      exact ⟨_, .held hi hsection⟩
  obtain ⟨m, hm⟩ := hleft
  refine ⟨m, fun as s' hown hexec => ?_⟩
  refine length_le_of_decreasing
    (fun u n => (∃ t, c.Sim u t) ∧ u.threads.length = s.threads.length ∧
      c.Left s.threads.length u n)
    (fun a => a.own = true) ?_ ⟨⟨t, h⟩, rfl, hm⟩ hown hexec
  rintro u a u' n ⟨⟨v, hsim⟩, hlen, hleft⟩ hown hstep
  obtain ⟨n', hlt, hleft'⟩ := hsim.left_step (Nat.le_of_eq hlen) hleft hown hstep
  obtain ⟨-, v', -, -, hsim'⟩ := hsim.step hstep
  exact ⟨n', hlt, ⟨v', hsim'⟩, (step_length hstep).trans hlen, hleft'⟩

end Sim

end Contract

end Monitor

end EasyWebServer
