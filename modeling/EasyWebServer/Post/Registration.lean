import EasyWebServer.Lib.Transition
import EasyWebServer.Post.Accounts

/-!
# Registrations in several workers

The registration branch of `do_request` looks the name up in `users` before it
takes `m_lock`, and inserts behind it.  Each worker runs the branch in three
steps, and the steps of different workers may come in any order:

* the lookup `users.find(name)`;
* the section between `m_lock.lock()` and `m_lock.unlock()`, which runs the
  INSERT and the `insert` into the map;
* the choice of the page.

`Registry` is the shared state: the map, the rows that the database has
received, and the requests.  Every INSERT succeeds, and the table has no
uniqueness constraint.

`RegistryOk` is uniqueness: one `/login.html` and one row for a name, and a
reload of the table gives the map.  `StillFree` says that a name is still free
when its locked section runs.  `always_registryOk_iff` shows that the runs with
the first property are the runs whose steps have the second.
-/

namespace EasyWebServer.Post

open Transition

/-! ## The steps of a registration -/

/-- Where a register request is. -/
inductive RegisterPhase where
  /-- It has been read. -/
  | arrived
  /-- The lookup has not found the name. -/
  | free
  /-- The lookup has found the name. -/
  | known
  /-- The locked section has run. -/
  | inserted
  /-- The page is chosen. -/
  | answered (page : Page)
  deriving DecidableEq, Repr

/-- A register (`/3`) request that a worker handles. -/
structure RegisterRequest where
  name : Bytes
  password : Bytes
  phase : RegisterPhase

/-- What the workers share, and their requests. -/
structure Registry where
  users : UserMap
  /-- The rows that the database has received, in order. -/
  inserted : List (Bytes × Bytes)
  requests : List RegisterRequest

/-- A step of a run: a request arrives, or a worker takes a step with the request
at an index. -/
inductive RegisterAction where
  | arrive (name password : Bytes)
  | lookup (i : Nat)
  | lockedInsert (i : Nat)
  | choosePage (i : Nat)
  deriving DecidableEq, Repr

/-- The server after `initmysql_result` has read the table. -/
def startRegistry (rows : List (Bytes × Bytes)) : Registry :=
  ⟨initmysqlResult rows, [], []⟩

/-- The request at index `i` moves on. -/
def Registry.setPhase (s : Registry) (i : Nat) (r : RegisterRequest)
    (phase : RegisterPhase) : Registry :=
  { s with requests := s.requests.set i { r with phase := phase } }

/-- One step. -/
def registerStep (s : Registry) : RegisterAction → Option Registry
  | .arrive name password =>
      some { s with requests := s.requests ++ [⟨name, password, .arrived⟩] }
  | .lookup i =>
      match s.requests[i]? with
      | none => none
      | some r =>
          if r.phase = .arrived then
            some (s.setPhase i r (if s.users r.name = none then .free else .known))
          else none
  | .lockedInsert i =>
      match s.requests[i]? with
      | none => none
      | some r =>
          if r.phase = .free then
            some { s.setPhase i r .inserted with
              users := s.users.insert r.name r.password
              inserted := s.inserted ++ [(r.name, r.password)] }
          else none
  | .choosePage i =>
      match s.requests[i]? with
      | none => none
      | some r =>
          if r.phase = .inserted then some (s.setPhase i r (.answered .login))
          else if r.phase = .known then
            some (s.setPhase i r (.answered .registerError))
          else none

/-! ## Uniqueness -/

/-- The names of the rows that the database has received. -/
def Registry.names (s : Registry) : List Bytes := s.inserted.map Prod.fst

/-- Uniqueness, on the table `rows`. -/
structure RegistryOk (rows : List (Bytes × Bytes)) (s : Registry) : Prop where
  /-- At most one request for a name is answered with `/login.html`. -/
  one_login : ∀ (i j : Nat) (r r' : RegisterRequest), s.requests[i]? = some r →
    s.requests[j]? = some r' → r.name = r'.name → r.phase = .answered .login →
    r'.phase = .answered .login → i = j
  /-- The database receives at most one row for a name. -/
  one_row : s.names.Nodup
  /-- A restart gives every name the password it has in memory. -/
  reload : initmysqlResult (rows ++ s.inserted) = s.users

/-- A locked section runs for a name that is still free. -/
def StillFree (s : Registry) : RegisterAction → Prop
  | .lockedInsert i =>
      ∀ r : RegisterRequest, s.requests[i]? = some r → r.phase = .free →
        s.users r.name = none
  | _ => True

/-! ## What a step does -/

/-- The cases of a step that moves a request. -/
inductive RegisterMove (s : Registry) (r : RegisterRequest) :
    RegisterAction → RegisterPhase → Prop where
  | lookup (i : Nat) (hphase : r.phase = .arrived) :
      RegisterMove s r (.lookup i) (if s.users r.name = none then .free else .known)
  | login (i : Nat) (hphase : r.phase = .inserted) :
      RegisterMove s r (.choosePage i) (.answered .login)
  | refuse (i : Nat) (hphase : r.phase = .known) :
      RegisterMove s r (.choosePage i) (.answered .registerError)

/-- Every step lets a request arrive, moves one, or inserts a row. -/
theorem registerStep_cases {s s' : Registry} {a : RegisterAction}
    (h : registerStep s a = some s') :
    (∃ name password, a = .arrive name password ∧
      s' = { s with requests := s.requests ++ [⟨name, password, .arrived⟩] }) ∨
    (∃ i r phase, s.requests[i]? = some r ∧ RegisterMove s r a phase ∧
      s' = s.setPhase i r phase) ∨
    ∃ i r, a = .lockedInsert i ∧ s.requests[i]? = some r ∧ r.phase = .free ∧
      s' = { s.setPhase i r .inserted with
        users := s.users.insert r.name r.password
        inserted := s.inserted ++ [(r.name, r.password)] } := by
  cases a with
  | arrive name password =>
    exact Or.inl ⟨name, password, rfl, (Option.some.inj h).symm⟩
  | lookup i =>
    rw [registerStep] at h
    split at h
    · contradiction
    · rename_i r hr
      split at h
      · rename_i hphase
        exact Or.inr (Or.inl ⟨i, r, _, hr, .lookup i hphase, (Option.some.inj h).symm⟩)
      · contradiction
  | lockedInsert i =>
    rw [registerStep] at h
    split at h
    · contradiction
    · rename_i r hr
      split_ifs at h with hphase
      exact Or.inr (Or.inr ⟨i, r, rfl, hr, hphase, (Option.some.inj h).symm⟩)
  | choosePage i =>
    rw [registerStep] at h
    split at h
    · contradiction
    · rename_i r hr
      split_ifs at h with hins hknown
      · exact Or.inr (Or.inl ⟨i, r, _, hr, .login i hins, (Option.some.inj h).symm⟩)
      · exact Or.inr (Or.inl ⟨i, r, _, hr, .refuse i hknown, (Option.some.inj h).symm⟩)

/-- A request of the state behind a move: the one that has moved, or one that
was there. -/
theorem setPhase_getElem? {s : Registry} {i j : Nat} {r r' : RegisterRequest}
    {phase : RegisterPhase} (h : (s.setPhase i r phase).requests[j]? = some r') :
    i = j ∧ r' = { r with phase := phase } ∨ i ≠ j ∧ s.requests[j]? = some r' := by
  unfold Registry.setPhase at h
  rw [List.getElem?_set] at h
  split_ifs at h with hij hlt
  · exact Or.inl ⟨hij, (Option.some.inj h).symm⟩
  · exact Or.inr ⟨hij, h⟩

/-- A request of the state behind an arrival. -/
theorem arrive_getElem? {rs : List RegisterRequest} {q r : RegisterRequest} {j : Nat}
    (h : (rs ++ [q])[j]? = some r) : rs[j]? = some r ∨ r = q := by
  rcases Nat.lt_or_ge j rs.length with hlt | hge
  · rw [List.getElem?_append_left hlt] at h
    exact Or.inl h
  · rw [List.getElem?_append_right hge] at h
    apply Or.inr
    have hmem := List.mem_of_getElem? h
    rwa [List.mem_singleton] at hmem

/-! ## What every run keeps -/

/-- The facts that hold without any condition: the names of the map are those
of the table and of the received rows, and a name that a lookup has not found
is not in the table. -/
structure Consistent (rows : List (Bytes × Bytes)) (s : Registry) : Prop where
  users_iff : ∀ n, s.users n ≠ none ↔ initmysqlResult rows n ≠ none ∨ n ∈ s.names
  free : ∀ (i : Nat) (r : RegisterRequest), s.requests[i]? = some r →
    r.phase = .free → initmysqlResult rows r.name = none

theorem consistent_start (rows : List (Bytes × Bytes)) :
    Consistent rows (startRegistry rows) := by
  refine ⟨fun n => ?_, fun i r hr => ?_⟩
  · show initmysqlResult rows n ≠ none ↔ initmysqlResult rows n ≠ none ∨ n ∈ []
    simp
  · cases hr

/-- The names of a map behind an `insert`. -/
theorem insert_ne_none_iff (users : UserMap) (name password n : Bytes) :
    users.insert name password n ≠ none ↔ users n ≠ none ∨ n = name := by
  by_cases hfree : users name = none
  · rw [UserMap.insert_fresh password hfree, UserMap.assign_apply]
    by_cases hn : n = name
    · simp [hn]
    · simp [hn]
  · rw [UserMap.insert_known password hfree]
    constructor
    · exact Or.inl
    · rintro (h | rfl)
      · exact h
      · exact hfree

theorem Consistent.step {rows : List (Bytes × Bytes)} {s s' : Registry}
    {a : RegisterAction} (hs : Consistent rows s) (h : registerStep s a = some s') :
    Consistent rows s' := by
  rcases registerStep_cases h with ⟨name, password, rfl, rfl⟩ | ⟨i, r, phase, hr, hmove, rfl⟩ |
    ⟨i, r, rfl, hr, hphase, rfl⟩
  · refine ⟨hs.users_iff, fun j r hj hfree => ?_⟩
    rcases arrive_getElem? hj with hold | rfl
    · exact hs.free j r hold hfree
    · cases hfree
  · refine ⟨hs.users_iff, fun j r' hj hfree => ?_⟩
    rcases setPhase_getElem? hj with ⟨rfl, rfl⟩ | ⟨-, hold⟩
    · -- the request has moved: it is free by its lookup only
      have hnone : s.users r.name = none := by
        cases hmove with
        | lookup i _ =>
          by_contra hne
          simp [hne] at hfree
        | login i _ => cases hfree
        | refuse i _ => cases hfree
      by_contra hne
      exact (hs.users_iff r.name).mpr (Or.inl hne) hnone
    · exact hs.free j r' hold hfree
  · refine ⟨fun n => ?_, fun j r' hj hfree => ?_⟩
    · show s.users.insert r.name r.password n ≠ none ↔
        initmysqlResult rows n ≠ none ∨
          n ∈ (s.inserted ++ [(r.name, r.password)]).map Prod.fst
      rw [insert_ne_none_iff, hs.users_iff, List.map_append, List.mem_append, or_assoc]
      simp [Registry.names]
    · rcases setPhase_getElem? hj with ⟨rfl, rfl⟩ | ⟨-, hold⟩
      · cases hfree
      · exact hs.free j r' hold hfree

/-! ## Runs whose locked sections find the name free -/

/-- The INSERT of the request has succeeded. -/
def Done (phase : RegisterPhase) : Prop :=
  phase = .inserted ∨ phase = .answered .login

/-- Uniqueness, with the requests that it is about: a request whose INSERT has
succeeded is the only one for its name. -/
structure Unique (rows : List (Bytes × Bytes)) (s : Registry) : Prop where
  one_row : s.names.Nodup
  reload : initmysqlResult (rows ++ s.inserted) = s.users
  done_mem : ∀ (i : Nat) (r : RegisterRequest), s.requests[i]? = some r →
    Done r.phase → r.name ∈ s.names
  done_unique : ∀ (i j : Nat) (r r' : RegisterRequest), s.requests[i]? = some r →
    s.requests[j]? = some r' → r.name = r'.name → Done r.phase → Done r'.phase → i = j

theorem Unique.registryOk {rows : List (Bytes × Bytes)} {s : Registry}
    (hs : Unique rows s) : RegistryOk rows s :=
  ⟨fun i j r r' hi hj hname hr hr' =>
    hs.done_unique i j r r' hi hj hname (Or.inr hr) (Or.inr hr'), hs.one_row, hs.reload⟩

theorem unique_start (rows : List (Bytes × Bytes)) : Unique rows (startRegistry rows) := by
  refine ⟨List.nodup_nil, ?_, fun i r hr => ?_, fun i j r r' hr => ?_⟩
  · show initmysqlResult (rows ++ []) = initmysqlResult rows
    rw [List.append_nil]
  · cases hr
  · cases hr

/-- The table with one more row. -/
theorem initmysqlResult_append (rows : List (Bytes × Bytes)) (name password : Bytes) :
    initmysqlResult (rows ++ [(name, password)]) =
      (initmysqlResult rows).assign name password := by
  rw [initmysqlResult, List.foldl_append]
  rfl

/-- A request keeps being done, or not done, when it moves. -/
theorem RegisterMove.done_iff {s : Registry} {r : RegisterRequest} {a : RegisterAction}
    {phase : RegisterPhase} (h : RegisterMove s r a phase) : Done phase ↔ Done r.phase := by
  cases h with
  | lookup i hphase =>
    rw [hphase]
    split_ifs <;> simp [Done]
  | login i hphase => simp [Done, hphase]
  | refuse i hphase => simp [Done, hphase]

/-- Two distinct requests behind a change of the one at index `i` are requests
that were there, or one of them is the changed one. -/
theorem Unique.setPhase {rows : List (Bytes × Bytes)} {s : Registry} (hs : Unique rows s)
    {i : Nat} {r : RegisterRequest} {phase : RegisterPhase} (hr : s.requests[i]? = some r)
    (hphase : Done phase ↔ Done r.phase) : Unique rows (s.setPhase i r phase) := by
  -- every request stands for one of the old state with the same name
  have hback : ∀ (j : Nat) (q : RegisterRequest),
      (s.setPhase i r phase).requests[j]? = some q →
      ∃ q' : RegisterRequest, s.requests[j]? = some q' ∧ q.name = q'.name ∧
        (Done q.phase ↔ Done q'.phase) := by
    intro j q hq
    rcases setPhase_getElem? hq with ⟨rfl, rfl⟩ | ⟨-, hold⟩
    · exact ⟨r, hr, rfl, hphase⟩
    · exact ⟨q, hold, rfl, Iff.rfl⟩
  refine ⟨hs.one_row, hs.reload, fun j q hq hdone => ?_, fun j k q q' hq hq' hname hd hd' => ?_⟩
  · obtain ⟨p, hp, hn, hd⟩ := hback j q hq
    show q.name ∈ s.names
    rw [hn]
    exact hs.done_mem j p hp (hd.mp hdone)
  · obtain ⟨p, hp, hn, hdp⟩ := hback j q hq
    obtain ⟨p', hp', hn', hdp'⟩ := hback k q' hq'
    apply hs.done_unique j k p p' hp hp'
    · rw [← hn, hname, hn']
    · exact hdp.mp hd
    · exact hdp'.mp hd'

/-- A step whose locked section finds the name free. -/
theorem Unique.step {rows : List (Bytes × Bytes)} {s s' : Registry} {a : RegisterAction}
    (hs : Unique rows s) (hc : Consistent rows s) (hfree : StillFree s a)
    (h : registerStep s a = some s') : Unique rows s' := by
  rcases registerStep_cases h with ⟨name, password, rfl, rfl⟩ | ⟨i, r, phase, hr, hmove, rfl⟩ |
    ⟨i, r, rfl, hr, hphase, rfl⟩
  · have hold : ∀ (j : Nat) (q : RegisterRequest),
        (s.requests ++ [⟨name, password, .arrived⟩])[j]? = some q → Done q.phase →
        s.requests[j]? = some q := by
      intro j q hq hdone
      rcases arrive_getElem? hq with h1 | rfl
      · exact h1
      · rcases hdone with h1 | h1 <;> cases h1
    refine ⟨hs.one_row, hs.reload, fun j q hq hdone => ?_,
      fun j k q q' hq hq' hname hd hd' => ?_⟩
    · exact hs.done_mem j q (hold j q hq hdone) hdone
    · exact hs.done_unique j k q q' (hold j q hq hd) (hold k q' hq' hd') hname hd hd'
  · exact hs.setPhase hr hmove.done_iff
  · have hnone : s.users r.name = none := hfree r hr hphase
    have hnew : r.name ∉ s.names := fun hmem =>
      (hc.users_iff r.name).mpr (Or.inr hmem) hnone
    -- a done request has a name that is in the rows, so it is not for this name
    have hother : ∀ (j : Nat) (q : RegisterRequest), s.requests[j]? = some q →
        Done q.phase → q.name ≠ r.name := by
      intro j q hq hdone hname
      apply hnew
      rw [← hname]
      exact hs.done_mem j q hq hdone
    have hnames : ({ s.setPhase i r .inserted with
        users := s.users.insert r.name r.password
        inserted := s.inserted ++ [(r.name, r.password)] } : Registry).names =
        s.names ++ [r.name] := by
      simp [Registry.names]
    refine ⟨?_, ?_, fun j q hq hdone => ?_, fun j k q q' hq hq' hname hd hd' => ?_⟩
    · rw [hnames, List.nodup_append]
      refine ⟨hs.one_row, by simp, ?_⟩
      intro n hn m hm hnm
      rw [List.mem_singleton] at hm
      apply hnew
      rwa [← hm, ← hnm]
    · show initmysqlResult (rows ++ (s.inserted ++ [(r.name, r.password)])) =
        s.users.insert r.name r.password
      rw [← List.append_assoc, initmysqlResult_append, hs.reload,
        UserMap.insert_fresh r.password hnone]
    · rw [hnames, List.mem_append, List.mem_singleton]
      rcases setPhase_getElem? hq with ⟨-, rfl⟩ | ⟨-, hold⟩
      · exact Or.inr rfl
      · exact Or.inl (hs.done_mem j q hold hdone)
    · rcases setPhase_getElem? hq with ⟨rfl, rfl⟩ | ⟨-, hold⟩
      · rcases setPhase_getElem? hq' with ⟨rfl, -⟩ | ⟨-, hold'⟩
        · rfl
        · exact absurd hname.symm (hother k q' hold' hd')
      · rcases setPhase_getElem? hq' with ⟨rfl, rfl⟩ | ⟨-, hold'⟩
        · exact absurd hname (hother j q hold hd)
        · exact hs.done_unique j k q q' hold hold' hname hd hd'

/-! ## A locked section for a name that is taken -/

/-- A locked section that finds the name in the map leaves two rows for it. -/
theorem not_registryOk_of_taken {rows : List (Bytes × Bytes)} {s : Registry}
    {a : RegisterAction} (hc : Consistent rows s) (htaken : ¬ StillFree s a) :
    ∃ s', registerStep s a = some s' ∧ ¬ RegistryOk rows s' := by
  have htaken' : ∃ i r, a = .lockedInsert i ∧ s.requests[i]? = some r ∧ r.phase = .free ∧
      s.users r.name ≠ none := by
    cases a with
    | lockedInsert i =>
      simp only [StillFree] at htaken
      push Not at htaken
      obtain ⟨r, hr, hphase, hne⟩ := htaken
      exact ⟨i, r, rfl, hr, hphase, hne⟩
    | arrive _ _ => exact absurd trivial htaken
    | lookup _ => exact absurd trivial htaken
    | choosePage _ => exact absurd trivial htaken
  obtain ⟨i, r, rfl, hr, hphase, hne⟩ := htaken'
  refine ⟨{ s.setPhase i r .inserted with
    users := s.users.insert r.name r.password
    inserted := s.inserted ++ [(r.name, r.password)] }, ?_, fun hok => ?_⟩
  · rw [registerStep, hr]
    show (if r.phase = .free then _ else none) = _
    rw [if_pos hphase]
  · have hmem : r.name ∈ s.names := by
      rcases (hc.users_iff r.name).mp hne with hinit | hmem
      · exact absurd (hc.free i r hr hphase) hinit
      · exact hmem
    have hnodup := hok.one_row
    simp only [Registry.names, List.map_append, List.map_cons, List.map_nil] at hnodup
    rw [List.nodup_append] at hnodup
    exact hnodup.2.2 r.name hmem r.name (List.mem_singleton_self _) rfl

/-! ## Whole runs -/

theorem registry_run (rows : List (Bytes × Bytes)) (as : List RegisterAction) :
    ∀ s : Registry, Consistent rows s → Unique rows s →
      (Always registerStep (RegistryOk rows) s as ↔ AllSteps registerStep StillFree s as) := by
  induction as with
  | nil =>
    intro s _ hu
    exact iff_of_true hu.registryOk trivial
  | cons a as ih =>
    intro s hc hu
    by_cases hfree : StillFree s a
    · have hnext : ∀ s', registerStep s a = some s' →
          (Always registerStep (RegistryOk rows) s' as ↔
            AllSteps registerStep StillFree s' as) := by
        intro s' h
        exact ih s' (hc.step h) (hu.step hc hfree h)
      constructor
      · rintro ⟨-, h⟩
        exact ⟨hfree, fun s' hs' => (hnext s' hs').mp (h s' hs')⟩
      · rintro ⟨-, h⟩
        exact ⟨hu.registryOk, fun s' hs' => (hnext s' hs').mpr (h s' hs')⟩
    · obtain ⟨s', hs', hbad⟩ := not_registryOk_of_taken hc hfree
      apply iff_of_false
      · rintro ⟨-, h⟩
        exact hbad (h s' hs').head
      · rintro ⟨h, -⟩
        exact hfree h

/-- Registrations are unique in every state of a run exactly when every locked
section of the run finds its name still free. -/
theorem always_registryOk_iff (rows : List (Bytes × Bytes)) (as : List RegisterAction) :
    Always registerStep (RegistryOk rows) (startRegistry rows) as ↔
      AllSteps registerStep StillFree (startRegistry rows) as :=
  registry_run rows as (startRegistry rows) (consistent_start rows) (unique_start rows)

/-- Two requests for one name look it up before either inserts it. -/
theorem not_always_registryOk_race :
    ¬ Always registerStep (RegistryOk []) (startRegistry [])
      [.arrive (ascii "a") (ascii "1"), .arrive (ascii "a") (ascii "2"), .lookup 0,
        .lookup 1, .lockedInsert 0, .lockedInsert 1, .choosePage 0, .choosePage 1] := by
  intro h
  have hrow : ¬ [ascii "a", ascii "a"].Nodup := by decide
  exact hrow (h.last rfl).one_row

/-! ## One registration on its own -/

/-- The steps of a register request that no other step interrupts, for the
request at index `i`. -/
def aloneSteps (users : UserMap) (i : Nat) (name password : Bytes) : List RegisterAction :=
  if users name = none then
    [.arrive name password, .lookup i, .lockedInsert i, .choosePage i]
  else [.arrive name password, .lookup i, .choosePage i]

theorem concat_set (rs : List RegisterRequest) (q q' : RegisterRequest) :
    (rs ++ [q]).set rs.length q' = rs ++ [q'] := by
  rw [List.set_append_right _ _ (Nat.le_refl _), Nat.sub_self, List.set_cons_zero]

/-- Without interruption, the steps are the registration branch of
`do_request`. -/
theorem exec_alone (s : Registry) (name password : Bytes) :
    ∃ s', exec registerStep s (aloneSteps s.users s.requests.length name password) = some s' ∧
      s'.users = (registerUser s.users name password true).2 ∧
      s'.requests = s.requests ++
        [⟨name, password, .answered (registerUser s.users name password true).1⟩] := by
  unfold aloneSteps registerUser
  by_cases hfree : s.users name = none
  · simp only [if_pos hfree, exec, registerStep, List.getElem?_concat_length,
      Registry.setPhase, concat_set, if_true]
    exact ⟨_, rfl, rfl, rfl⟩
  · simp only [if_neg hfree, exec, registerStep, List.getElem?_concat_length,
      Registry.setPhase, concat_set, if_true, reduceCtorEq, if_false]
    exact ⟨_, rfl, rfl, rfl⟩

end EasyWebServer.Post
