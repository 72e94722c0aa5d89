import Mathlib.Logic.Relation

/-!
# While loops

A loop body maps the loop state to the next state, `Sum.inl`, or to the value
the loop leaves with, `Sum.inr`.  `run` executes the loop with a bound on the
number of iterations, so a concrete loop can be evaluated.  `Returns` is the
same loop without the bound, as a relation, and it is what proofs induct on.
`states` lists the states in which the body is executed, and `Reaches` is the same without the
bound.

`returns_of_run` connects the two, and `exists_run_of_variant` is the
termination rule: a variant that every iteration decreases bounds the number
of iterations.  `Returns.follows` compares two loops, iteration by iteration.
-/

namespace EasyWebServer

namespace Loop

variable {σ ρ : Type*}

/-- Run the loop for at most `fuel` iterations. -/
def run (body : σ → σ ⊕ ρ) : Nat → σ → Option ρ
  | 0, _ => none
  | fuel + 1, s =>
      match body s with
      | .inl s' => run body fuel s'
      | .inr r => some r

/-- The loop started in `s` leaves with `r`. -/
inductive Returns (body : σ → σ ⊕ ρ) : σ → ρ → Prop where
  | done {s : σ} {r : ρ} (h : body s = .inr r) : Returns body s r
  | next {s s' : σ} {r : ρ} (h : body s = .inl s')
      (tail : Returns body s' r) : Returns body s r

variable {body : σ → σ ⊕ ρ}

theorem returns_of_run {fuel : Nat} {s : σ} {r : ρ}
    (h : run body fuel s = some r) : Returns body s r := by
  induction fuel generalizing s with
  | zero => simp [run] at h
  | succ fuel ih =>
      rw [run] at h
      split at h
      · rename_i s' hb
        exact .next hb (ih h)
      · rename_i r' hb
        cases h
        exact .done hb

/-- A loop leaves with one value only. -/
theorem Returns.det {s : σ} {r r' : ρ} (h : Returns body s r)
    (h' : Returns body s r') : r = r' := by
  induction h with
  | done hb =>
      cases h' with
      | done hb' => exact Sum.inr.inj (hb.symm.trans hb')
      | next hb' _ => simp [hb] at hb'
  | next hb _ ih =>
      cases h' with
      | done hb' => simp [hb] at hb'
      | next hb' tail' =>
          rw [hb] at hb'
          cases hb'
          exact ih tail'

/-- The invariant rule.  Every iteration that goes on keeps `inv`, and one that
leaves under `inv` leaves with a value in `post`. -/
theorem Returns.invariant (inv : σ → Prop) (post : ρ → Prop) {s : σ} {r : ρ}
    (h : Returns body s r) (hs : inv s)
    (hnext : ∀ s s', inv s → body s = .inl s' → inv s')
    (hdone : ∀ s r, inv s → body s = .inr r → post r) : post r := by
  induction h with
  | done hb => exact hdone _ _ hs hb
  | next hb _ ih => exact ih (hnext _ _ hs hb)

/-- What a body does in comparison with another one: both go on, in related states, or both
leave, with related values; or the first one leaves with a value that does not matter. -/
inductive Follows {τ ω : Type*} (R : σ → τ → Prop) (Q : ρ → ω → Prop) (P : ρ → Prop) :
    σ ⊕ ρ → τ ⊕ ω → Prop where
  | next {s : σ} {t : τ} (h : R s t) : Follows R Q P (.inl s) (.inl t)
  | done {r : ρ} {u : ω} (h : Q r u) : Follows R Q P (.inr r) (.inr u)
  | dropped {r : ρ} {x : τ ⊕ ω} (h : P r) : Follows R Q P (.inr r) x

/-- The relational rule: a loop whose body follows the other one does so as a whole. -/
theorem Returns.follows {τ ω : Type*} {body' : τ → τ ⊕ ω} {R : σ → τ → Prop} {Q : ρ → ω → Prop}
    {P : ρ → Prop} (hbody : ∀ s t, R s t → Follows R Q P (body s) (body' t)) {s : σ} {r : ρ}
    (h : Returns body s r) {t : τ} (hst : R s t) : P r ∨ ∃ u, Returns body' t u ∧ Q r u := by
  induction h generalizing t with
  | done hb =>
      have hrel := hbody _ _ hst
      rw [hb] at hrel
      generalize hb' : body' t = x at hrel
      cases hrel with
      | done hQ => exact .inr ⟨_, .done hb', hQ⟩
      | dropped hP => exact .inl hP
  | next hb _ ih =>
      have hrel := hbody _ _ hst
      rw [hb] at hrel
      generalize hb' : body' t = x at hrel
      cases hrel with
      | next hR =>
          rcases ih hR with hP | ⟨u, hu, hQ⟩
          · exact .inl hP
          · exact .inr ⟨u, .next hb' hu, hQ⟩

/-! ## The states of a loop -/

/-- The states in which the loop body is executed, for at most `fuel`
iterations. -/
def states (body : σ → σ ⊕ ρ) : Nat → σ → List σ
  | 0, _ => []
  | fuel + 1, s =>
      s :: match body s with
        | .inl s' => states body fuel s'
        | .inr _ => []

/-- An invariant of the iterations holds in every state of the loop. -/
theorem states_invariant (inv : σ → Prop)
    (hnext : ∀ s s', inv s → body s = .inl s' → inv s') {fuel : Nat} {s : σ}
    (hs : inv s) : ∀ x ∈ states body fuel s, inv x := by
  induction fuel generalizing s with
  | zero =>
      intro x hx
      rw [states] at hx
      exact absurd hx List.not_mem_nil
  | succ fuel ih =>
      intro x hx
      rw [states] at hx
      rcases List.mem_cons.mp hx with rfl | hx
      · exact hs
      · split at hx
        · rename_i s' hb
          exact ih (hnext s s' hs hb) x hx
        · exact absurd hx List.not_mem_nil

/-- The loop started in `s` executes its body in `s'`. -/
def Reaches (body : σ → σ ⊕ ρ) : σ → σ → Prop :=
  Relation.ReflTransGen (fun s s' => body s = .inl s')

/-- The invariant rule for the states of a loop. -/
theorem Reaches.invariant (inv : σ → Prop) {s s' : σ} (h : Reaches body s s') (hs : inv s)
    (hnext : ∀ s s', inv s → body s = .inl s' → inv s') : inv s' := by
  induction h with
  | refl => exact hs
  | tail _ hb ih => exact hnext _ _ ih hb

/-- The termination rule.  `inv` holds before every iteration and `variant`
drops in it, so the loop leaves within `variant s + 1` iterations. -/
theorem exists_run_of_variant (body : σ → σ ⊕ ρ) (inv : σ → Prop)
    (variant : σ → Nat)
    (hstep : ∀ s s', inv s → body s = .inl s' →
      inv s' ∧ variant s' < variant s) :
    ∀ (fuel : Nat) (s : σ), inv s → variant s < fuel →
      ∃ r, run body fuel s = some r := by
  intro fuel
  induction fuel with
  | zero => intro s _ h; omega
  | succ fuel ih =>
      intro s hinv hfuel
      rw [run]
      cases hb : body s with
      | inr r => exact ⟨r, rfl⟩
      | inl s' =>
          obtain ⟨hinv', hlt⟩ := hstep s s' hinv hb
          exact ih s' hinv' (by omega)

end Loop

end EasyWebServer
