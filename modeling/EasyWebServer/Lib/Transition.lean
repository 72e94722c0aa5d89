import Mathlib.Logic.Relation

/-!
# Labelled transition systems

A system is given by a partial step function: `step s a = none` says that the
action `a` cannot be taken in `s`.  `exec` runs a list of actions.

A guard is a predicate on a state and the action taken in it.  `AllSteps` says
that every step of a run meets the guard, and `always_of_invariant` is the
induction rule for runs whose steps meet it: an invariant that every guarded
step keeps holds in every state of the run, with what it implies.
`always_iff_allSteps` is the rule for an exact guard.
-/

namespace EasyWebServer

namespace Transition

variable {σ α : Type*} {step : σ → α → Option σ}

/-- Run a list of actions. -/
def exec (step : σ → α → Option σ) : σ → List α → Option σ
  | s, [] => some s
  | s, a :: as =>
      match step s a with
      | some s' => exec step s' as
      | none => none

/-- Every step of the run from `s` meets the guard. -/
def AllSteps (step : σ → α → Option σ) (guard : σ → α → Prop) :
    σ → List α → Prop
  | _, [] => True
  | s, a :: as =>
      guard s a ∧ ∀ s', step s a = some s' → AllSteps step guard s' as

/-- Every state of the run from `s`, its first and its last included, is in
`p`. -/
def Always (step : σ → α → Option σ) (p : σ → Prop) : σ → List α → Prop
  | s, [] => p s
  | s, a :: as => p s ∧ ∀ s', step s a = some s' → Always step p s' as

/-- Some list of actions leads from `s` to `s'`. -/
def Reachable (step : σ → α → Option σ) (s s' : σ) : Prop :=
  ∃ as, exec step s as = some s'

theorem Always.head {p : σ → Prop} {s : σ} {as : List α} (h : Always step p s as) : p s := by
  cases as with
  | nil => exact h
  | cons a as => exact h.1

/-- Whether every step of a run meets a decidable guard can be computed. -/
instance decidableAllSteps {guard : σ → α → Prop} [∀ s a, Decidable (guard s a)] :
    ∀ (s : σ) (as : List α), Decidable (AllSteps step guard s as)
  | _, [] => .isTrue trivial
  | s, a :: as =>
      match hs : step s a with
      | none =>
          decidable_of_iff (guard s a)
            ⟨fun h => ⟨h, fun _ h' => by rw [hs] at h'; cases h'⟩, And.left⟩
      | some s' =>
          haveI : Decidable (AllSteps step guard s' as) := decidableAllSteps s' as
          decidable_of_iff (guard s a ∧ AllSteps step guard s' as)
            ⟨fun h => ⟨h.1, fun m hm => by rw [hs] at hm; cases hm; exact h.2⟩,
              fun h => ⟨h.1, h.2 s' hs⟩⟩

/-- The last state of a run is one of its states. -/
theorem Always.last {p : σ → Prop} {s s' : σ} {as : List α} (h : Always step p s as)
    (hexec : exec step s as = some s') : p s' := by
  induction as generalizing s with
  | nil =>
    cases hexec
    exact h
  | cons a as ih =>
    rw [exec] at hexec
    split at hexec
    · rename_i m hm
      exact ih (h.2 m hm) hexec
    · cases hexec

/-- A run that can be computed shows what its last state is. -/
theorem Always.exists_last {p : σ → Prop} {s : σ} {as : List α} (h : Always step p s as)
    (q : σ → Prop) [DecidablePred q]
    (hexec : (exec step s as).any (fun s' => decide (q s')) = true) : ∃ s', q s' ∧ p s' := by
  rcases hs : exec step s as with _ | s'
  · rw [hs] at hexec
    cases hexec
  · rw [hs, Option.any_some] at hexec
    exact ⟨s', of_decide_eq_true hexec, h.last hs⟩

theorem exec_cons {s s' : σ} {a : α} {as : List α}
    (h : exec step s (a :: as) = some s') :
    ∃ m, step s a = some m ∧ exec step m as = some s' := by
  rw [exec] at h
  split at h
  · rename_i m hm
    exact ⟨m, hm, h⟩
  · cases h

theorem exec_append {s m s' : σ} {as bs : List α}
    (ha : exec step s as = some m) (hb : exec step m bs = some s') :
    exec step s (as ++ bs) = some s' := by
  induction as generalizing s with
  | nil =>
      rw [exec] at ha
      cases ha
      exact hb
  | cons a as ih =>
      obtain ⟨n, hn, hrest⟩ := exec_cons ha
      rw [List.cons_append, exec, hn]
      exact ih hrest

/-- Under an invariant, the steps of a run that meet one guard meet another. -/
theorem AllSteps.of_invariant {guard guard' : σ → α → Prop} (inv : σ → Prop)
    (hstep : ∀ s a s', inv s → guard s a → step s a = some s' → inv s')
    (hguard : ∀ s a s', inv s → guard s a → step s a = some s' → guard' s a)
    {s s' : σ} {as : List α} (hall : AllSteps step guard s as) (hs : inv s)
    (h : exec step s as = some s') : AllSteps step guard' s as := by
  induction as generalizing s with
  | nil => trivial
  | cons a as ih =>
      obtain ⟨m, hm, hrest⟩ := exec_cons h
      refine ⟨hguard s a m hs hall.1 hm, fun n hn => ?_⟩
      rw [hm] at hn
      cases hn
      exact ih (hall.2 m hm) (hstep s a m hs hall.1 hm) hrest

/-- A guard may be weakened on the actions of the run. -/
theorem AllSteps.weaken {guard guard' : σ → α → Prop} {s : σ} {as : List α}
    (hall : AllSteps step guard s as) (h : ∀ s, ∀ a ∈ as, guard s a → guard' s a) :
    AllSteps step guard' s as := by
  induction as generalizing s with
  | nil => trivial
  | cons a as ih =>
      exact ⟨h s a List.mem_cons_self hall.1,
        fun m hm => ih (hall.2 m hm) (fun s b hb => h s b (List.mem_cons_of_mem a hb))⟩

/-- Guards that agree wherever an invariant holds, which the guarded steps keep, are met by
the same runs. -/
theorem allSteps_congr {guard guard' : σ → α → Prop} (inv : σ → Prop)
    (hstep : ∀ s a s', inv s → guard s a → step s a = some s' → inv s')
    (hguard : ∀ s a, inv s → (guard s a ↔ guard' s a)) {s : σ} (hs : inv s) (as : List α) :
    AllSteps step guard s as ↔ AllSteps step guard' s as := by
  induction as generalizing s with
  | nil => exact Iff.rfl
  | cons a as ih =>
      constructor
      · rintro ⟨hg, hall⟩
        exact ⟨(hguard s a hs).mp hg, fun s' hs' => (ih (hstep s a s' hs hg hs')).mp (hall s' hs')⟩
      · rintro ⟨hg', hall⟩
        have hg := (hguard s a hs).mpr hg'
        exact ⟨hg, fun s' hs' => (ih (hstep s a s' hs hg hs')).mpr (hall s' hs')⟩

/-- Runs whose steps meet the guard can be put together. -/
theorem AllSteps.append {guard : σ → α → Prop} {s m : σ} {as bs : List α}
    (has : AllSteps step guard s as) (h : exec step s as = some m)
    (hbs : AllSteps step guard m bs) : AllSteps step guard s (as ++ bs) := by
  induction as generalizing s with
  | nil =>
      cases h
      exact hbs
  | cons a as ih =>
      obtain ⟨n, hn, hrest⟩ := exec_cons h
      refine ⟨has.1, fun n' hn' => ?_⟩
      obtain rfl : n = n' := Option.some.inj (hn.symm.trans hn')
      exact ih (has.2 n hn) hrest

/-- The last steps of a run meet the guard too. -/
theorem AllSteps.drop {guard : σ → α → Prop} {s m : σ} {as bs : List α}
    (hall : AllSteps step guard s (as ++ bs)) (h : exec step s as = some m) :
    AllSteps step guard m bs := by
  induction as generalizing s with
  | nil =>
      cases h
      exact hall
  | cons a as ih =>
      obtain ⟨n, hn, hrest⟩ := exec_cons h
      exact ih (hall.2 n hn) hrest

/-- What holds in every state of a run holds in every state of its last steps. -/
theorem Always.drop {p : σ → Prop} {s m : σ} {as bs : List α} (hall : Always step p s (as ++ bs))
    (h : exec step s as = some m) : Always step p m bs := by
  induction as generalizing s with
  | nil =>
      cases h
      exact hall
  | cons a as ih =>
      obtain ⟨n, hn, hrest⟩ := exec_cons h
      exact ih (hall.2 n hn) hrest

/-- A guarded invariant holds in every state of a run, with what it implies. -/
theorem always_of_invariant {p : σ → Prop} (inv : σ → Prop) (guard : σ → α → Prop)
    (hstep : ∀ s a s', inv s → guard s a → step s a = some s' → inv s')
    (hp : ∀ s, inv s → p s) {s : σ} {as : List α} (hs : inv s)
    (hall : AllSteps step guard s as) : Always step p s as := by
  induction as generalizing s with
  | nil => exact hp s hs
  | cons a as ih =>
      exact ⟨hp s hs, fun s' hs' => ih (hstep s a s' hs hall.1 hs') (hall.2 s' hs')⟩

/-- When a guarded invariant implies `p`, and no step keeps `p` without the guard,
then the runs that stay in `p` are those whose steps meet the guard. -/
theorem always_iff_allSteps {p : σ → Prop} (inv : σ → Prop) (guard : σ → α → Prop)
    (hp : ∀ s, inv s → p s)
    (hstep : ∀ s a s', inv s → guard s a → step s a = some s' → inv s')
    (hguard : ∀ s a, inv s → (∀ s', step s a = some s' → p s') → guard s a)
    {s : σ} (hs : inv s) (as : List α) :
    Always step p s as ↔ AllSteps step guard s as := by
  constructor
  · induction as generalizing s with
    | nil => exact fun _ => trivial
    | cons a as ih =>
        intro h
        have hg := hguard s a hs (fun s' hs' => (h.2 s' hs').head)
        exact ⟨hg, fun s' hs' => ih (hstep s a s' hs hg hs') (h.2 s' hs')⟩
  · exact always_of_invariant inv guard hstep hp hs

theorem loss_le_of_exec {inv : σ → Prop} {loss : σ → Nat}
    (hinv : ∀ s a s', inv s → step s a = some s' → inv s')
    (hmono : ∀ s a s', inv s → step s a = some s' → loss s ≤ loss s')
    {s s' : σ} (hs : inv s) {as : List α} (hexec : exec step s as = some s') :
    loss s ≤ loss s' := by
  induction as generalizing s with
  | nil =>
    cases hexec
    exact Nat.le_refl _
  | cons a as ih =>
    obtain ⟨m, hm, hrest⟩ := exec_cons hexec
    exact Nat.le_trans (hmono s a m hs hm) (ih (hinv s a m hs hm) hrest)

/-- A loss that never becomes less.  When a step without any loss before it meets the guard
exactly if there is none behind it, then the runs that end without loss are those whose
steps meet the guard. -/
theorem loss_eq_zero_iff_allSteps {inv : σ → Prop} {guard : σ → α → Prop} {loss : σ → Nat}
    (hinv : ∀ s a s', inv s → step s a = some s' → inv s')
    (hmono : ∀ s a s', inv s → step s a = some s' → loss s ≤ loss s')
    (hguard : ∀ s a s', inv s → loss s = 0 → step s a = some s' →
      (guard s a ↔ loss s' = 0))
    {s s' : σ} (hs : inv s) (hnone : loss s = 0) {as : List α} (hexec : exec step s as = some s') :
    loss s' = 0 ↔ AllSteps step guard s as := by
  induction as generalizing s with
  | nil =>
    cases hexec
    exact iff_of_true hnone trivial
  | cons a as ih =>
    obtain ⟨m, hm, hrest⟩ := exec_cons hexec
    have hnext : ∀ m', step s a = some m' → m' = m := by
      intro m' hm'
      rw [hm] at hm'
      exact (Option.some.inj hm').symm
    constructor
    · intro hlast
      have hle : loss m ≤ loss s' := loss_le_of_exec hinv hmono (hinv s a m hs hm) hrest
      have hm0 : loss m = 0 := by omega
      refine ⟨(hguard s a m hs hnone hm).mpr hm0, fun m' hm' => ?_⟩
      rw [hnext m' hm']
      exact (ih (hinv s a m hs hm) hm0 hrest).mp hlast
    · rintro ⟨hg, hall⟩
      have hm0 := (hguard s a m hs hnone hm).mp hg
      exact (ih (hinv s a m hs hm) hm0 hrest).mpr (hall m hm)

/-- An invariant that every step keeps holds in every state of every run. -/
theorem always_of_step {p : σ → Prop} (inv : σ → Prop)
    (hstep : ∀ s a s', inv s → step s a = some s' → inv s')
    (hp : ∀ s, inv s → p s) {s : σ} (hs : inv s) (as : List α) : Always step p s as := by
  induction as generalizing s with
  | nil => exact hp s hs
  | cons a as ih => exact ⟨hp s hs, fun s' hs' => ih (hstep s a s' hs hs')⟩

/-- Under an invariant that every step keeps, every step of every run meets the guard. -/
theorem allSteps_of_step {guard : σ → α → Prop} (inv : σ → Prop)
    (hstep : ∀ s a s', inv s → step s a = some s' → inv s')
    (hguard : ∀ s a, inv s → guard s a) {s : σ} (hs : inv s) (as : List α) :
    AllSteps step guard s as := by
  induction as generalizing s with
  | nil => trivial
  | cons a as ih => exact ⟨hguard s a hs, fun s' hs' => ih (hstep s a s' hs hs')⟩

/-- A system with an account: every step keeps `inv` and adds what it loses to `loss`, and
without any loss before it loses nothing exactly when it meets the guard.  A property that
says in quiet states that nothing is lost holds in every state of a run whose steps meet the
guard, and at a quiet end in no other case. -/
theorem account_runs (inv : σ → Prop) (loss : σ → Nat) {quiet p : σ → Prop}
    {guard : σ → α → Prop}
    (hstep : ∀ s a s', inv s → step s a = some s' →
      ∃ lost, inv s' ∧ loss s' = loss s + lost ∧ (loss s = 0 → (guard s a ↔ lost = 0)))
    (hquiet : ∀ s, (quiet s → p s) → p s) (hp : ∀ s, inv s → quiet s → (p s ↔ loss s = 0))
    {s : σ} (hs : inv s) (hnone : loss s = 0) (as : List α) :
    (AllSteps step guard s as → Always step p s as) ∧
      ∀ s', exec step s as = some s' → quiet s' → (p s' ↔ AllSteps step guard s as) := by
  have hinv : ∀ s a s', inv s → step s a = some s' → inv s' := by
    intro s a s' h hs'
    obtain ⟨lost, h', -⟩ := hstep s a s' h hs'
    exact h'
  have hguard : ∀ s a s', inv s → loss s = 0 → step s a = some s' →
      (guard s a ↔ loss s' = 0) := by
    intro s a s' h hzero hs'
    obtain ⟨lost, -, hloss, hiff⟩ := hstep s a s' h hs'
    rw [hiff hzero, hloss, hzero, Nat.zero_add]
  constructor
  · refine always_of_invariant (fun s => inv s ∧ loss s = 0) guard ?_ ?_ ⟨hs, hnone⟩
    · rintro s a s' ⟨h, hzero⟩ hg hs'
      exact ⟨hinv s a s' h hs', (hguard s a s' h hzero hs').mp hg⟩
    · rintro s ⟨h, hzero⟩
      exact hquiet s (fun hq => (hp s h hq).mpr hzero)
  · intro s' hexec hq
    have h' : inv s' := (always_of_step inv hinv (fun _ h => h) hs as).last hexec
    rw [hp s' h' hq]
    refine loss_eq_zero_iff_allSteps hinv ?_ hguard hs hnone hexec
    intro s a s' h hs'
    obtain ⟨lost, -, hloss, -⟩ := hstep s a s' h hs'
    rw [hloss]
    exact Nat.le_add_right _ _

/-- Steps that use up what is left: a run of them is at most as long as that. -/
theorem length_le_of_decreasing (left : σ → Nat → Prop) (own : α → Prop)
    (hstep : ∀ s a s' m, left s m → own a → step s a = some s' → ∃ m' < m, left s' m')
    {s s' : σ} {m : Nat} (hs : left s m) {as : List α} (hown : ∀ a ∈ as, own a)
    (hexec : exec step s as = some s') : as.length ≤ m := by
  induction as generalizing s m with
  | nil => exact Nat.zero_le m
  | cons a as ih =>
      obtain ⟨s₁, hs₁, hrest⟩ := exec_cons hexec
      obtain ⟨m', hlt, hleft⟩ := hstep s a s₁ m hs (hown a List.mem_cons_self) hs₁
      have hle := ih hleft (fun b hb => hown b (List.mem_cons_of_mem a hb)) hrest
      rw [List.length_cons]
      omega

/-! ## Two systems -/

/-- Systems whose steps agree, from related states to related states, agree on every
run. -/
theorem exec_rel {τ : Type*} {step' : τ → α → Option τ} {R : σ → τ → Prop}
    (hstep : ∀ s t a, R s t → Option.Rel R (step s a) (step' t a)) {s : σ} {t : τ} (h : R s t)
    (as : List α) : Option.Rel R (exec step s as) (exec step' t as) := by
  induction as generalizing s t with
  | nil => exact .some h
  | cons a as ih =>
      have ha := hstep s t a h
      rw [exec, exec]
      generalize step s a = r at ha
      generalize step' t a = r' at ha
      cases ha with
      | none => exact .none
      | some h' => exact ih h'

/-- A system whose steps, seen through `f`, are steps of another one or none at all: what it
reaches is reached there. -/
theorem exec_reachable {τ β : Type*} {step' : τ → β → Option τ} (f : σ → τ)
    (hstep : ∀ s a s', step s a = some s' → f s' = f s ∨ ∃ b, step' (f s) b = some (f s'))
    {s s' : σ} {as : List α} (h : exec step s as = some s') :
    Reachable step' (f s) (f s') := by
  induction as generalizing s with
  | nil =>
      cases h
      exact ⟨[], rfl⟩
  | cons a as ih =>
      obtain ⟨m, hm, hrest⟩ := exec_cons h
      obtain ⟨bs, hbs⟩ := ih hrest
      rcases hstep s a m hm with heq | ⟨b, hb⟩
      · rw [heq] at hbs
        exact ⟨bs, hbs⟩
      · exact ⟨b :: bs, by rw [exec, hb]; exact hbs⟩

/-- Forward simulation under a guard, with what is seen of the actions: every step that meets
the guard is matched by a run of the other system that shows the same. -/
theorem exec_simulated {τ β ε : Type*} {step' : τ → β → Option τ} {R : σ → τ → Prop}
    {guard : σ → α → Prop} (seen : α → Option ε) (seen' : β → Option ε)
    (hstep : ∀ s t a s', R s t → guard s a → step s a = some s' →
      ∃ bs t', exec step' t bs = some t' ∧ bs.filterMap seen' = (seen a).toList ∧ R s' t')
    {s s' : σ} {t : τ} {as : List α} (hR : R s t) (hall : AllSteps step guard s as)
    (h : exec step s as = some s') :
    ∃ bs t', exec step' t bs = some t' ∧ bs.filterMap seen' = as.filterMap seen ∧ R s' t' := by
  induction as generalizing s t with
  | nil =>
      cases h
      exact ⟨[], t, rfl, rfl, hR⟩
  | cons a as ih =>
      obtain ⟨m, hm, hrest⟩ := exec_cons h
      obtain ⟨bs, t', hbs, hseen, hR'⟩ := hstep s t a m hR hall.1 hm
      obtain ⟨cs, t'', hcs, hseen', hR''⟩ := ih hR' (hall.2 m hm) hrest
      refine ⟨bs ++ cs, t'', exec_append hbs hcs, ?_, hR''⟩
      rw [List.filterMap_append, hseen, hseen', List.filterMap_cons]
      cases seen a <;> rfl

end Transition

end EasyWebServer
