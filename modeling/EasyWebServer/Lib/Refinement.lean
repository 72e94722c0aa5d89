import Mathlib.Data.List.Basic

/-!
# Refinement of objects

An object is a step function: an operation gives an answer and the next state,
or it stops, with a reason.  `replay` performs a list of operations and collects
the answers.

`Agree` compares two objects: both stop for the same reason, or both give the
same answer and reach related states.  `replay_agree` carries it from one
operation to every list of operations, which is forward simulation for objects
that are deterministic.

An abstract object that leaves a choice is a relation, and `Performs` is a list of
its operations with their answers.  `replay_performs` is forward simulation for
these.
-/

namespace EasyWebServer

namespace Refinement

variable {σ τ ι ο ε : Type*}

/-- Perform the operations, until one stops. -/
def replay (step : σ → ι → Except ε (ο × σ)) : σ → List ι → Except ε (List ο × σ)
  | s, [] => .ok ([], s)
  | s, op :: ops =>
      match step s op with
      | .error e => .error e
      | .ok (o, s') =>
          match replay step s' ops with
          | .error e => .error e
          | .ok (os, s'') => .ok (o :: os, s'')

/-- The same reason to stop, or the same answer and related states. -/
inductive Agree (R : σ → τ → Prop) : Except ε (ο × σ) → Except ε (ο × τ) → Prop where
  | stop (e : ε) : Agree R (.error e) (.error e)
  | answer (o : ο) {s : σ} {t : τ} (h : R s t) : Agree R (.ok (o, s)) (.ok (o, t))

variable {R : σ → τ → Prop} {step : σ → ι → Except ε (ο × σ)} {spec : τ → ι → Except ε (ο × τ)}

/-- Objects that agree on every operation agree on every list of operations. -/
theorem replay_agree (hstep : ∀ s t op, R s t → Agree R (step s op) (spec t op)) {s : σ} {t : τ}
    (h : R s t) (ops : List ι) : Agree R (replay step s ops) (replay spec t ops) := by
  induction ops generalizing s t with
  | nil => exact .answer [] h
  | cons op ops ih =>
      have hop := hstep s t op h
      rw [replay, replay]
      generalize step s op = r at hop
      generalize spec t op = r' at hop
      rcases hop with ⟨e⟩ | ⟨o, h'⟩
      · exact .stop e
      · rename_i s' t'
        have hops := ih h'
        show Agree R (match replay step s' ops with | .error e => _ | .ok (os, s'') => _)
          (match replay spec t' ops with | .error e => _ | .ok (os, t'') => _)
        generalize replay step s' ops = r at hops
        generalize replay spec t' ops = r' at hops
        rcases hops with ⟨e⟩ | ⟨os, h''⟩
        · exact .stop e
        · exact .answer (o :: os) h''

theorem replay_trace_append (inv : List (ι × ο) → σ → Prop)
    (hstep : ∀ trace s op o s', inv trace s → step s op = .ok (o, s') →
      inv (trace ++ [(op, o)]) s') :
    ∀ (ops : List ι) (trace : List (ι × ο)) {s s' : σ} {os : List ο}, inv trace s →
      replay step s ops = .ok (os, s') → inv (trace ++ ops.zip os) s' := by
  intro ops
  induction ops with
  | nil =>
      intro trace s s' os hinv h
      cases h
      rw [List.zip_nil_left, List.append_nil]
      exact hinv
  | cons op ops ih =>
      intro trace s s' os hinv h
      rw [replay] at h
      split at h
      · cases h
      · rename_i o m hop
        split at h
        · cases h
        · rename_i os' m' hops
          cases h
          have hrest := ih (trace ++ [(op, o)]) (hstep trace s op o m hinv hop) hops
          rw [List.append_assoc] at hrest
          exact hrest

/-- What holds at first, and behind every answer, holds behind every list of
answers.  `inv` may speak of the operations performed and their answers. -/
theorem replay_trace (inv : List (ι × ο) → σ → Prop)
    (hstep : ∀ trace s op o s', inv trace s → step s op = .ok (o, s') →
      inv (trace ++ [(op, o)]) s')
    {ops : List ι} {s s' : σ} {os : List ο} (hinv : inv [] s)
    (h : replay step s ops = .ok (os, s')) : inv (ops.zip os) s' :=
  replay_trace_append inv hstep ops [] hinv h

/-! ## Abstract objects that leave a choice -/

/-- The abstract object can give these answers to these operations. -/
inductive Performs (spec : τ → ι → ο → τ → Prop) : τ → List ι → List ο → τ → Prop where
  | nil (t : τ) : Performs spec t [] [] t
  | cons {t t' t'' : τ} {op : ι} {o : ο} {ops : List ι} {os : List ο} (h : spec t op o t')
      (tail : Performs spec t' ops os t'') : Performs spec t (op :: ops) (o :: os) t''

/-- When every answer is one that the abstract object can give, then so is every
list of answers. -/
theorem replay_performs {spec : τ → ι → ο → τ → Prop}
    (hstep : ∀ s t op o s', R s t → step s op = .ok (o, s') → ∃ t', spec t op o t' ∧ R s' t') :
    ∀ (ops : List ι) {s s' : σ} {t : τ} {os : List ο}, R s t → replay step s ops = .ok (os, s') →
      ∃ t', Performs spec t ops os t' ∧ R s' t' := by
  intro ops
  induction ops with
  | nil =>
      intro s s' t os h hreplay
      cases hreplay
      exact ⟨t, .nil t, h⟩
  | cons op ops ih =>
      intro s s' t os h hreplay
      rw [replay] at hreplay
      split at hreplay
      · cases hreplay
      · rename_i o m hop
        split at hreplay
        · cases hreplay
        · rename_i os' m' hops
          cases hreplay
          obtain ⟨t', hspec, hm⟩ := hstep s t op o m h hop
          obtain ⟨t'', htail, hs'⟩ := ih hm hops
          exact ⟨t'', .cons hspec htail, hs'⟩

/-- The reasons for which a list of operations stops are those for which one does. -/
theorem replay_error (inv : σ → Prop) (reason : ε → Prop)
    (hstep : ∀ s op o s', inv s → step s op = .ok (o, s') → inv s')
    (herror : ∀ s op e, inv s → step s op = .error e → reason e) :
    ∀ (ops : List ι) {s : σ} {e : ε}, inv s → replay step s ops = .error e → reason e := by
  intro ops
  induction ops with
  | nil =>
      intro s e _ h
      cases h
  | cons op ops ih =>
      intro s e hinv h
      rw [replay] at h
      split at h
      · rename_i e' hop
        cases h
        exact herror s op e hinv hop
      · rename_i o m hop
        split at h
        · rename_i e' hops
          cases h
          exact ih (hstep s op o m hinv hop) hops
        · cases h

end Refinement

end EasyWebServer
