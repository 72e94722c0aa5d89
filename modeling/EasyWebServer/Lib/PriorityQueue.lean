import Mathlib.Data.List.Perm.Basic

/-!
# A priority queue in a vector

`std::priority_queue` keeps a vector as a binary heap: the children of index `i`
are `2 * i + 1` and `2 * i + 2`.  `comp a b` says that `a` comes behind `b`, and
the top, at index 0, is an element that comes behind no other.

`push` and `pop` are `push_back` with `std::push_heap`, and `std::pop_heap` with
`pop_back`.  Both move a hole, and store one value at the place where it stops:

* `pushHole` moves it towards the root;
* `sinkHole` moves it down to a leaf, always to the child that comes first.

Moving the hole and storing the value permutes the vector, whatever its order
is.  So `push` adds one element, and `pop` removes the top.

When `comp` is a strict weak order, both keep the heap order (`IsHeap`).
`HoleHeap` is the heap order with a hole in it, and each move of the hole keeps
that.
-/

namespace EasyWebServer

namespace PriorityQueue

variable {α : Type*} (comp : α → α → Bool)

/-! ## push and pop -/

/-- `std::__push_heap`: the hole moves up while its parent comes behind `x`.  The
index of the hole is enough fuel. -/
def pushHole (x : α) : Nat → Nat → List α → List α
  | 0, hole, v => v.set hole x
  | fuel + 1, hole, v =>
      match v[(hole - 1) / 2]? with
      | none => v.set hole x
      | some parent =>
          if 0 < hole ∧ comp parent x then
            pushHole x fuel ((hole - 1) / 2) (v.set hole parent)
          else v.set hole x

/-- The loop of `std::__adjust_heap`: the hole moves down to the child that comes
first.  The answer is the index of the leaf, and the vector. -/
def sinkHole : Nat → Nat → List α → Nat × List α
  | 0, hole, v => (hole, v)
  | fuel + 1, hole, v =>
      match v[2 * hole + 1]?, v[2 * hole + 2]? with
      | some left, some right =>
          if comp right left then sinkHole fuel (2 * hole + 1) (v.set hole left)
          else sinkHole fuel (2 * hole + 2) (v.set hole right)
      | some left, none => (2 * hole + 1, v.set hole left)
      | none, _ => (hole, v)

/-- `push`. -/
def push (v : List α) (x : α) : List α :=
  pushHole comp x v.length v.length (v ++ [x])

/-- `pop`: the last element takes the place of the top.  On an empty queue it is
not defined, and its callers ask first. -/
def pop (v : List α) : List α :=
  match v.getLast?, v.dropLast with
  | some x, top :: rest =>
      let r := sinkHole comp v.length 0 (top :: rest)
      pushHole comp x r.1 r.1 r.2
  | _, _ => []

/-- The elements that a loop of `top` and `pop` meets, until the queue is empty. -/
def drain : Nat → List α → List α
  | 0, _ => []
  | _ + 1, [] => []
  | fuel + 1, top :: rest => top :: drain fuel (pop comp (top :: rest))

/-! ## They permute the vector -/

/-- The hole moves to `j`, and the element at `j` to the hole. -/
theorem set_set_perm {v : List α} {i j : Nat} {a : α} (x : α) (hi : i < v.length)
    (hj : v[j]? = some a) (hij : i ≠ j) :
    ((v.set i a).set j x).Perm (v.set i x) := by
  obtain ⟨hjlen, hja⟩ := List.getElem?_eq_some_iff.mp hj
  have hiset : i < (v.set i x).length := by
    rw [List.length_set]
    exact hi
  have hjset : j < (v.set i x).length := by
    rw [List.length_set]
    exact hjlen
  have hswap := List.set_set_perm hiset hjset
  have hleft : (v.set i x)[j] = a := by
    rw [List.getElem_set_ne hij]
    exact hja
  rw [hleft, List.getElem_set_self, List.set_set] at hswap
  exact hswap

theorem pushHole_perm (x : α) :
    ∀ (fuel hole : Nat) (v : List α), hole < v.length →
      (pushHole comp x fuel hole v).Perm (v.set hole x) := by
  intro fuel
  induction fuel with
  | zero =>
      intro hole v _
      rw [pushHole]
  | succ fuel ih =>
      intro hole v hlt
      rw [pushHole]
      split
      · exact .refl _
      · rename_i parent hparent
        split
        · rename_i hmove
          have hrest := ih ((hole - 1) / 2) (v.set hole parent) (by
            rw [List.length_set]
            omega)
          exact hrest.trans (set_set_perm x hlt hparent (by omega))
        · exact .refl _

/-- Whatever is stored at the leaf could have been stored at the first place of
the hole. -/
theorem sinkHole_perm (x : α) :
    ∀ (fuel hole : Nat) (v : List α), hole < v.length →
      (sinkHole comp fuel hole v).1 < (sinkHole comp fuel hole v).2.length ∧
        ((sinkHole comp fuel hole v).2.set (sinkHole comp fuel hole v).1 x).Perm
          (v.set hole x) := by
  intro fuel
  induction fuel with
  | zero =>
      intro hole v hlt
      exact ⟨hlt, .refl _⟩
  | succ fuel ih =>
      intro hole v hlt
      have hmove : ∀ (j : Nat) (a : α), v[j]? = some a → hole < j →
          j < (v.set hole a).length ∧ ((v.set hole a).set j x).Perm (v.set hole x) := by
        intro j a ha hj
        have hjlen : j < v.length := (List.getElem?_eq_some_iff.mp ha).1
        exact ⟨by rw [List.length_set]; exact hjlen, set_set_perm x hlt ha (by omega)⟩
      rw [sinkHole]
      split
      · rename_i left right hleft hright
        split
        · obtain ⟨hlen, hperm⟩ := hmove _ _ hleft (by omega)
          obtain ⟨hin, hrest⟩ := ih _ _ hlen
          exact ⟨hin, hrest.trans hperm⟩
        · obtain ⟨hlen, hperm⟩ := hmove _ _ hright (by omega)
          obtain ⟨hin, hrest⟩ := ih _ _ hlen
          exact ⟨hin, hrest.trans hperm⟩
      · rename_i left hleft _
        exact hmove _ _ hleft (by omega)
      · exact ⟨hlt, .refl _⟩

/-- `push` adds one element. -/
theorem push_perm (v : List α) (x : α) : (push comp v x).Perm (x :: v) := by
  have h := pushHole_perm comp x v.length v.length (v ++ [x]) (by simp)
  have hset : (v ++ [x]).set v.length x = v ++ [x] := by simp
  rw [hset] at h
  exact h.trans (List.perm_append_singleton x v)

/-- `pop` removes the top. -/
theorem pop_perm (v : List α) : (pop comp v).Perm v.tail := by
  rw [pop]
  split
  · rename_i x top rest hlast hinit
    have hv : v = top :: rest ++ [x] := by
      rw [← hinit]
      exact (List.dropLast_append_getLast? x hlast).symm
    obtain ⟨hin, hsink⟩ := sinkHole_perm comp x v.length 0 (top :: rest) (by simp)
    have hpush := pushHole_perm comp x (sinkHole comp v.length 0 (top :: rest)).1 _ _ hin
    have htail : (x :: rest).Perm v.tail := by
      rw [hv]
      simpa using (List.perm_append_singleton x rest).symm
    exact (hpush.trans hsink).trans htail
  · rename_i hnot
    rcases v with _ | ⟨a, _ | ⟨b, l⟩⟩
    · exact .refl _
    · exact .refl _
    · exact absurd rfl (hnot ((b :: l).getLast (by simp)) a (b :: l).dropLast
        (by simp [List.getLast?_eq_some_getLast]))

theorem length_pop (v : List α) : (pop comp v).length = v.length - 1 := by
  rw [(pop_perm comp v).length_eq, List.length_tail]

/-- A drained queue gives every element once. -/
theorem drain_perm :
    ∀ (fuel : Nat) (v : List α), v.length ≤ fuel → (drain comp fuel v).Perm v := by
  intro fuel
  induction fuel with
  | zero =>
      intro v hlen
      rw [List.length_eq_zero_iff.mp (Nat.le_zero.mp hlen), drain]
  | succ fuel ih =>
      intro v hlen
      rcases v with _ | ⟨top, rest⟩
      · rw [drain]
      · have hpop := ih (pop comp (top :: rest)) (by
          rw [length_pop]
          simp only [List.length_cons] at hlen ⊢
          omega)
        rw [drain]
        exact (hpop.trans (pop_perm comp (top :: rest))).cons top

/-- A queue built by pushes holds the elements pushed. -/
theorem foldl_push_perm (xs : List α) :
    ∀ v : List α, (xs.foldl (push comp) v).Perm (v ++ xs) := by
  induction xs with
  | nil =>
      intro v
      rw [List.foldl_nil, List.append_nil]
  | cons x xs ih =>
      intro v
      have hpush : (push comp v x ++ xs).Perm (v ++ x :: xs) :=
        ((push_perm comp v x).append_right xs).trans List.perm_middle.symm
      exact (ih (push comp v x)).trans hpush

/-! ## They keep the heap order -/

/-- A strict weak order, which `std::priority_queue` asks of its `comp`. -/
structure StrictWeak : Prop where
  asymm : ∀ a b, comp a b = true → comp b a = false
  trans : ∀ a b c, comp a b = false → comp b c = false → comp a c = false

/-- The element at `i` does not come behind the one at `j`. -/
def InOrder (v : List α) (i j : Nat) : Prop :=
  ∀ a b, v[i]? = some a → v[j]? = some b → comp a b = false

/-- No parent comes behind its child. -/
def IsHeap (v : List α) : Prop := ∀ i, 0 < i → InOrder comp v ((i - 1) / 2) i

/-- The heap order around a hole. -/
structure HoleHeap (v : List α) (hole : Nat) : Prop where
  except : ∀ i, 0 < i → i ≠ hole → (i - 1) / 2 ≠ hole → InOrder comp v ((i - 1) / 2) i
  grand : 0 < hole → ∀ i, 0 < i → (i - 1) / 2 = hole → InOrder comp v ((hole - 1) / 2) i

/-- An element that does not come behind the children of the hole. -/
def Fits (v : List α) (hole : Nat) (x : α) : Prop :=
  ∀ i b, 0 < i → (i - 1) / 2 = hole → v[i]? = some b → comp x b = false

variable {comp}

theorem StrictWeak.irrefl (hc : StrictWeak comp) (a : α) : comp a a = false := by
  rcases h : comp a a with _ | _
  · rfl
  · exact (hc.asymm a a h).symm.trans h |> Bool.noConfusion

theorem getElem?_set_hole {v : List α} {hole : Nat} (hin : hole < v.length) {x a : α}
    (h : (v.set hole x)[hole]? = some a) : a = x := by
  rw [List.getElem?_set_self hin] at h
  exact (Option.some.inj h).symm

namespace HoleHeap

variable {v : List α} {hole : Nat}

/-- The parent moves into the hole. -/
theorem up (hc : StrictWeak comp) (h : HoleHeap comp v hole) {x p : α}
    (hpos : 0 < hole) (hin : hole < v.length) (hp : v[(hole - 1) / 2]? = some p) (hbehind : comp p x = true) :
    HoleHeap comp (v.set hole p) ((hole - 1) / 2) ∧
      Fits comp (v.set hole p) ((hole - 1) / 2) x := by
  refine ⟨⟨?_, ?_⟩, ?_⟩
  · intro i hi hne hparent a b ha hb
    have hih : i ≠ hole := fun heq => hparent (by rw [heq])
    rw [List.getElem?_set_ne hih.symm] at hb
    by_cases hchild : (i - 1) / 2 = hole
    · rw [hchild] at ha
      rw [getElem?_set_hole hin ha]
      exact h.grand hpos i hi hchild p b hp hb
    · rw [List.getElem?_set_ne (Ne.symm hchild)] at ha
      exact h.except i hi hih hchild a b ha hb
  · intro hq i hi hchild a b ha hb
    rw [List.getElem?_set_ne (by omega)] at ha
    have hup : comp a p = false :=
      h.except ((hole - 1) / 2) hq (by omega) (by omega) a p ha hp
    by_cases hih : i = hole
    · rw [hih] at hb
      rw [getElem?_set_hole hin hb]
      exact hup
    · rw [List.getElem?_set_ne (Ne.symm hih)] at hb
      have hdown := h.except i hi hih (by omega) p b (by rw [hchild]; exact hp) hb
      exact hc.trans a p b hup hdown
  · intro i b hi hchild hb
    have hxp : comp x p = false := hc.asymm p x hbehind
    by_cases hih : i = hole
    · rw [hih] at hb
      rw [getElem?_set_hole hin hb]
      exact hxp
    · rw [List.getElem?_set_ne (Ne.symm hih)] at hb
      have hdown := h.except i hi hih (by omega) p b (by rw [hchild]; exact hp) hb
      exact hc.trans x p b hxp hdown

/-- A child that comes first moves into the hole. -/
theorem down (h : HoleHeap comp v hole) {c : Nat} {y : α} (hin : hole < v.length) (hpos : 0 < c)
    (hc : (c - 1) / 2 = hole) (hy : v[c]? = some y) (hfirst : Fits comp v hole y) :
    HoleHeap comp (v.set hole y) c := by
  refine ⟨?_, ?_⟩
  · intro i hi hne hparent a b ha hb
    by_cases hih : i = hole
    · rw [hih] at hb ha
      rw [List.getElem?_set_ne (by omega)] at ha
      rw [getElem?_set_hole hin hb]
      exact h.grand (by omega) c hpos hc a y ha hy
    · rw [List.getElem?_set_ne (Ne.symm hih)] at hb
      by_cases hchild : (i - 1) / 2 = hole
      · rw [hchild] at ha
        rw [getElem?_set_hole hin ha]
        exact hfirst i b hi hchild hb
      · rw [List.getElem?_set_ne (Ne.symm hchild)] at ha
        exact h.except i hi hih hchild a b ha hb
  · intro _ i hi hchild a b ha hb
    rw [hc] at ha
    rw [List.getElem?_set_ne (by omega)] at hb
    rw [getElem?_set_hole hin ha]
    exact h.except i hi (by omega) (by omega) y b (by rw [hchild]; exact hy) hb

/-- An element that fits closes the hole, when its parent does not come behind it. -/
theorem close (h : HoleHeap comp v hole) {x : α} (hin : hole < v.length)
    (hfits : Fits comp v hole x)
    (hparent : 0 < hole → ∀ p, v[(hole - 1) / 2]? = some p → comp p x = false) :
    IsHeap comp (v.set hole x) := by
  intro i hi a b ha hb
  by_cases hih : i = hole
  · rw [hih] at ha hb
    rw [List.getElem?_set_ne (by omega)] at ha
    rw [getElem?_set_hole hin hb]
    exact hparent (by omega) a ha
  · rw [List.getElem?_set_ne (Ne.symm hih)] at hb
    by_cases hchild : (i - 1) / 2 = hole
    · rw [hchild] at ha
      rw [getElem?_set_hole hin ha]
      exact hfits i b hi hchild hb
    · rw [List.getElem?_set_ne (Ne.symm hchild)] at ha
      exact h.except i hi hih hchild a b ha hb

end HoleHeap

theorem pushHole_heap (hc : StrictWeak comp) (x : α) :
    ∀ (fuel hole : Nat) (v : List α), hole ≤ fuel → hole < v.length → HoleHeap comp v hole →
      Fits comp v hole x → IsHeap comp (pushHole comp x fuel hole v) := by
  intro fuel
  induction fuel with
  | zero =>
      intro hole v hfuel hin h hfits
      rw [pushHole]
      exact h.close hin hfits (fun hpos => absurd hpos (by omega))
  | succ fuel ih =>
      intro hole v hfuel hin h hfits
      rw [pushHole]
      split
      · rename_i hnone
        refine h.close hin hfits (fun _ p hp => ?_)
        rw [hnone] at hp
        cases hp
      · rename_i parent hparent
        split
        · rename_i hmove
          obtain ⟨h', hfits'⟩ := h.up hc hmove.1 hin hparent hmove.2
          refine ih _ _ (by omega) ?_ h' hfits'
          rw [List.length_set]
          omega
        · rename_i hstop
          refine h.close hin hfits (fun hpos p hp => ?_)
          rw [hparent] at hp
          cases hp
          rcases hbehind : comp parent x with _ | _
          · rfl
          · exact absurd ⟨hpos, hbehind⟩ hstop

/-- The hole comes to a place without children. -/
theorem sinkHole_heap (hc : StrictWeak comp) :
    ∀ (fuel hole : Nat) (v : List α), v.length ≤ hole + fuel → hole < v.length →
      HoleHeap comp v hole →
      HoleHeap comp (sinkHole comp fuel hole v).2 (sinkHole comp fuel hole v).1 ∧
        (sinkHole comp fuel hole v).2.length ≤ 2 * (sinkHole comp fuel hole v).1 + 1 := by
  intro fuel
  induction fuel with
  | zero =>
      intro hole v hfuel hin _
      omega
  | succ fuel ih =>
      intro hole v hfuel hin h
      have hchild : ∀ i, 0 < i → (i - 1) / 2 = hole → i = 2 * hole + 1 ∨ i = 2 * hole + 2 := by
        intro i hi hparent
        omega
      have hlen : ∀ y, (v.set hole y).length = v.length := fun y => List.length_set
      rw [sinkHole]
      split
      · rename_i left right hleft hright
        have hltlen := (List.getElem?_eq_some_iff.mp hright).1
        split
        · rename_i hbehind
          have hfirst : Fits comp v hole left := by
            intro i b hi hparent hb
            rcases hchild i hi hparent with rfl | rfl
            · rw [hleft] at hb
              cases hb
              exact hc.irrefl left
            · rw [hright] at hb
              cases hb
              exact hc.asymm right left hbehind
          exact ih _ _ (by rw [hlen]; omega) (by rw [hlen]; omega)
            (h.down hin (by omega) (by omega) hleft hfirst)
        · rename_i hfront
          have hfirst : Fits comp v hole right := by
            intro i b hi hparent hb
            rcases hchild i hi hparent with rfl | rfl
            · rw [hleft] at hb
              cases hb
              exact Bool.eq_false_iff.mpr hfront
            · rw [hright] at hb
              cases hb
              exact hc.irrefl right
          exact ih _ _ (by rw [hlen]; omega) (by rw [hlen]; omega)
            (h.down hin (by omega) (by omega) hright hfirst)
      · rename_i left hleft hnone
        have hlast := List.getElem?_eq_none_iff.mp hnone
        have hfirst : Fits comp v hole left := by
          intro i b hi hparent hb
          rcases hchild i hi hparent with rfl | rfl
          · rw [hleft] at hb
            cases hb
            exact hc.irrefl left
          · rw [hnone] at hb
            cases hb
        refine ⟨h.down hin (by omega) (by omega) hleft hfirst, ?_⟩
        show (v.set hole left).length ≤ 2 * (2 * hole + 1) + 1
        rw [hlen]
        omega
      · rename_i hnone
        have hlast := List.getElem?_eq_none_iff.mp hnone
        exact ⟨h, hlast⟩

/-- `push` keeps the heap order. -/
theorem push_heap (hc : StrictWeak comp) {v : List α} (h : IsHeap comp v) (x : α) :
    IsHeap comp (push comp v x) := by
  have hlen : (v ++ [x]).length = v.length + 1 := by simp
  have hbefore : ∀ (i : Nat) (b : α), i ≠ v.length → (v ++ [x])[i]? = some b → v[i]? = some b := by
    intro i b hne hb
    have hlt := (List.getElem?_eq_some_iff.mp hb).1
    rw [List.getElem?_append_left (by omega)] at hb
    exact hb
  have hleaf : ∀ (i : Nat) (b : α), 0 < i → (i - 1) / 2 = v.length →
      (v ++ [x])[i]? ≠ some b := by
    intro i b hi hparent hb
    have hlt := (List.getElem?_eq_some_iff.mp hb).1
    omega
  apply pushHole_heap hc x v.length v.length (v ++ [x]) (Nat.le_refl _) (by omega)
  · refine ⟨?_, ?_⟩
    · intro i hi hne hparent a b ha hb
      exact h i hi a b (hbefore _ a hparent ha) (hbefore i b hne hb)
    · intro _ i hi hparent a b _ hb
      exact absurd hb (hleaf i b hi hparent)
  · intro i b hi hparent hb
    exact absurd hb (hleaf i b hi hparent)

/-- `pop` keeps the heap order. -/
theorem pop_heap (hc : StrictWeak comp) {v : List α} (h : IsHeap comp v) :
    IsHeap comp (pop comp v) := by
  rw [pop]
  split
  · rename_i x top rest hlast hinit
    have hv : v = top :: rest ++ [x] := by
      rw [← hinit]
      exact (List.dropLast_append_getLast? x hlast).symm
    have hbefore : ∀ (i : Nat) (b : α), (top :: rest)[i]? = some b → v[i]? = some b := by
      intro i b hb
      rw [hv, List.getElem?_append_left (List.getElem?_eq_some_iff.mp hb).1]
      exact hb
    have hhole : HoleHeap comp (top :: rest) 0 := by
      refine ⟨?_, fun hpos => absurd hpos (Nat.lt_irrefl 0)⟩
      intro i hi _ _ a b ha hb
      exact h i hi a b (hbefore _ a ha) (hbefore i b hb)
    have hfuel : (top :: rest).length ≤ 0 + v.length := by
      rw [hv, List.length_append]
      omega
    have hpos : 0 < (top :: rest).length := Nat.zero_lt_succ _
    obtain ⟨hsunk, hleaf⟩ := sinkHole_heap hc v.length 0 (top :: rest) hfuel hpos hhole
    have hin := (sinkHole_perm comp x v.length 0 (top :: rest) hpos).1
    refine pushHole_heap hc x _ _ _ (Nat.le_refl _) hin hsunk ?_
    intro i b hi hparent hb
    have hlt := (List.getElem?_eq_some_iff.mp hb).1
    omega
  · intro i _ a b ha _
    cases ha

/-- A queue built by pushes is a heap. -/
theorem foldl_push_heap (hc : StrictWeak comp) (xs : List α) :
    ∀ v : List α, IsHeap comp v → IsHeap comp (xs.foldl (push comp) v) := by
  induction xs with
  | nil => exact fun _ h => h
  | cons x xs ih => exact fun v h => ih (push comp v x) (push_heap hc h x)

theorem isHeap_nil : IsHeap comp [] := by
  intro i _ a b ha _
  cases ha

/-- The heap order depends on the comparisons between the elements only. -/
theorem IsHeap.congr {comp' : α → α → Bool} {v : List α} (h : IsHeap comp v)
    (hsame : ∀ a ∈ v, ∀ b ∈ v, comp' a b = comp a b) : IsHeap comp' v := by
  intro i hi a b ha hb
  rw [hsame a (List.mem_of_getElem? ha) b (List.mem_of_getElem? hb)]
  exact h i hi a b ha hb

/-- The top comes behind no element. -/
theorem IsHeap.top (hc : StrictWeak comp) {top : α} {rest : List α}
    (h : IsHeap comp (top :: rest)) : ∀ a ∈ top :: rest, comp top a = false := by
  intro a ha
  obtain ⟨i, hi⟩ := List.mem_iff_getElem?.mp ha
  clear ha
  induction i using Nat.strongRecOn generalizing a with
  | ind i ih =>
      rcases Nat.eq_zero_or_pos i with rfl | hpos
      · cases hi
        exact hc.irrefl top
      · have hlt := (List.getElem?_eq_some_iff.mp hi).1
        obtain ⟨p, hp⟩ : ∃ p, (top :: rest)[(i - 1) / 2]? = some p :=
          ⟨_, List.getElem?_eq_getElem (by omega)⟩
        exact hc.trans top p a (ih _ (by omega) p hp) (h i hpos p a hp hi)

end PriorityQueue

end EasyWebServer
