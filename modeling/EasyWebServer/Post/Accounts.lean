import EasyWebServer.Lib.CString
import Mathlib.Data.List.Induction
import Mathlib.Logic.Function.Basic

/-!
# User accounts: registration and login

The global `map<string, string> users` is a partial map from names to
passwords.  `insert` is `map::insert`, which keeps the value of a key that is
present, and `assign` is `users[name] = password`, which replaces it.

`registerUser` and `loginUser` are the two branches of `do_request` that read
and write the map.  The outcome of `mysql_query` is an argument.  A failed
query is answered with `/registerError.html`, and the map keeps the entry all
the same.

The rest is about sequences of requests handled one after another.
`accountsOk_iff` says when the answers are the ones a user expects: exactly
when no INSERT fails for a name that is still free.
-/

namespace EasyWebServer.Post

/-! ## The user map -/

/-- `map<string, string>`. -/
abbrev UserMap := Bytes → Option Bytes

namespace UserMap

/-- The empty map. -/
def empty : UserMap := fun _ => none

/-- `users[name] = password`. -/
def assign (users : UserMap) (name password : Bytes) : UserMap :=
  Function.update users name (some password)

/-- `users.insert(pair<string, string>(name, password))`. -/
def insert (users : UserMap) (name password : Bytes) : UserMap :=
  match users name with
  | none => users.assign name password
  | some _ => users

theorem insert_fresh {users : UserMap} {name : Bytes} (password : Bytes)
    (h : users name = none) :
    users.insert name password = users.assign name password := by
  rw [insert, h]

theorem insert_known {users : UserMap} {name : Bytes} (password : Bytes)
    (h : users name ≠ none) : users.insert name password = users := by
  rw [insert]
  split
  · contradiction
  · rfl

theorem assign_apply (users : UserMap) (name password n : Bytes) :
    users.assign name password n =
      if n = name then some password else users n := by
  rw [assign, Function.update_apply]

end UserMap

/-- The loop of `initmysql_result` over the rows of the user table.  A later
row replaces an earlier one with the same name. -/
def initmysqlResult (rows : List (Bytes × Bytes)) : UserMap :=
  rows.foldl (fun users row => users.assign row.1 row.2) UserMap.empty

/-! ## The two requests -/

/-- The pages that `do_request` writes over `m_url`. -/
inductive Page where
  | login | registerError | welcome | loginError
  deriving DecidableEq, Repr

/-- The text of the page's URL. -/
def Page.text : Page → Bytes
  | .login => ascii "/login.html"
  | .registerError => ascii "/registerError.html"
  | .welcome => ascii "/welcome.html"
  | .loginError => ascii "/loginError.html"

/-- Registration, the `'3'` branch.  `queryOk` says that `mysql_query` returned
zero for the INSERT.  The map entry is made in both cases. -/
def registerUser (users : UserMap) (name password : Bytes) (queryOk : Bool) :
    Page × UserMap :=
  if users name = none then
    let users := users.insert name password
    if queryOk then (.login, users) else (.registerError, users)
  else (.registerError, users)

/-- Login, the `'2'` branch. -/
def loginUser (users : UserMap) (name password : Bytes) : Page :=
  if users name ≠ none ∧ users name = some password then .welcome
  else .loginError

/-- A register (`/3`) or login (`/2`) request with its credentials. -/
inductive AccountRequest where
  | register (name password : Bytes)
  | login (name password : Bytes)
  deriving DecidableEq, Repr

/-- One request, with the outcome its INSERT would have. -/
def serveAccount (users : UserMap) : AccountRequest → Bool → Page × UserMap
  | .register name password, queryOk => registerUser users name password queryOk
  | .login name password, _ => (loginUser users name password, users)

/-- The map after a sequence of requests. -/
def usersAfter (users : UserMap) : List (AccountRequest × Bool) → UserMap
  | [] => users
  | (r, ok) :: rs => usersAfter (serveAccount users r ok).2 rs

/-- The pages that answer a sequence of requests. -/
def answers (users : UserMap) : List (AccountRequest × Bool) → List Page
  | [] => []
  | (r, ok) :: rs =>
      (serveAccount users r ok).1 :: answers (serveAccount users r ok).2 rs

/-! ## What a user expects -/

/-- Some register request of the sequence, with exactly this name and password,
was answered with `/login.html`. -/
def Registered (users : UserMap) (rs : List (AccountRequest × Bool))
    (name password : Bytes) : Prop :=
  ∃ pre post ok, rs = pre ++ (.register name password, ok) :: post ∧
    (registerUser (usersAfter users pre) name password ok).1 = .login

/-- The answers to `rs` are the expected ones, on the table `rows`. -/
structure AccountsOk (rows : List (Bytes × Bytes))
    (rs : List (AccountRequest × Bool)) : Prop where
  /-- At every point, a login succeeds for the initial accounts and for those
  whose registration was confirmed, and for no other. -/
  login_iff : ∀ pre post, rs = pre ++ post → ∀ name password,
    loginUser (usersAfter (initmysqlResult rows) pre) name password = .welcome ↔
      initmysqlResult rows name = some password ∨
        Registered (initmysqlResult rows) pre name password
  /-- A refused registration has no effect on any later request. -/
  refused : ∀ pre post name password ok,
    rs = pre ++ (.register name password, ok) :: post →
    (registerUser (usersAfter (initmysqlResult rows) pre) name password ok).1 =
      .registerError →
    ∀ later,
      answers (usersAfter (initmysqlResult rows)
        (pre ++ [(.register name password, ok)])) later =
      answers (usersAfter (initmysqlResult rows) pre) later

/-- No INSERT fails for a name that is free when the request is handled. -/
def NoFailedInsert (rows : List (Bytes × Bytes))
    (rs : List (AccountRequest × Bool)) : Prop :=
  ∀ pre post name password, rs = pre ++ (.register name password, false) :: post →
    usersAfter (initmysqlResult rows) pre name ≠ none

/-! ## One request -/

theorem loginUser_eq_welcome_iff (users : UserMap) (name password : Bytes) :
    loginUser users name password = .welcome ↔ users name = some password := by
  unfold loginUser
  split
  · rename_i h
    simp [h.2]
  · rename_i h
    simp only [reduceCtorEq, false_iff]
    intro hp
    exact h ⟨by simp [hp], hp⟩

/-- A registration is confirmed exactly when the name is free and the INSERT
succeeds. -/
theorem registerUser_eq_login_iff (users : UserMap) (name password : Bytes)
    (ok : Bool) : (registerUser users name password ok).1 = .login ↔
      users name = none ∧ ok = true := by
  unfold registerUser
  split
  · rename_i h
    cases ok <;> simp [h]
  · rename_i h
    simp [h]

/-- The map after a registration depends on the name only: a free name is
entered, whatever the INSERT answers. -/
theorem registerUser_users (users : UserMap) (name password : Bytes)
    (ok : Bool) : (registerUser users name password ok).2 =
      if users name = none then users.assign name password else users := by
  unfold registerUser
  split
  · rename_i h
    cases ok <;> simp [UserMap.insert_fresh password h]
  · rfl

theorem usersAfter_append (users : UserMap)
    (as bs : List (AccountRequest × Bool)) :
    usersAfter users (as ++ bs) = usersAfter (usersAfter users as) bs := by
  induction as generalizing users with
  | nil => rfl
  | cons a as ih => exact ih _

theorem usersAfter_snoc (users : UserMap) (as : List (AccountRequest × Bool))
    (r : AccountRequest) (ok : Bool) :
    usersAfter users (as ++ [(r, ok)]) =
      (serveAccount (usersAfter users as) r ok).2 := by
  rw [usersAfter_append]
  rfl

/-- A name stays known. -/
theorem usersAfter_known (rs : List (AccountRequest × Bool)) :
    ∀ {users : UserMap} {name password : Bytes},
      users name = some password → usersAfter users rs name = some password := by
  induction rs with
  | nil => exact fun h => h
  | cons r rs ih =>
      intro users name password h
      obtain ⟨r, ok⟩ := r
      refine ih ?_
      cases r with
      | login _ _ => exact h
      | register n p =>
        rw [serveAccount, registerUser_users]
        split
        · rename_i hn
          rw [UserMap.assign_apply, if_neg (by rintro rfl; simp [hn] at h)]
          exact h
        · exact h

/-! ## Sequences of requests -/

/-- The confirmed registrations of a sequence and one more request. -/
theorem registered_snoc (users : UserMap) (rs : List (AccountRequest × Bool))
    (r : AccountRequest) (ok : Bool) (name password : Bytes) :
    Registered users (rs ++ [(r, ok)]) name password ↔
      Registered users rs name password ∨
        (r = .register name password ∧
          (registerUser (usersAfter users rs) name password ok).1 = .login) := by
  constructor
  · rintro ⟨pre, post, ok', hsplit, hans⟩
    rcases List.eq_nil_or_concat post with rfl | ⟨post', x, rfl⟩
    · obtain ⟨rfl, hx⟩ := List.append_inj' hsplit rfl
      simp only [List.cons.injEq, Prod.mk.injEq, and_true] at hx
      exact Or.inr ⟨hx.1, by rw [hx.2]; exact hans⟩
    · rw [List.concat_eq_append, ← List.cons_append, ← List.append_assoc] at hsplit
      obtain ⟨hrs, -⟩ := List.append_inj' hsplit rfl
      exact Or.inl ⟨pre, post', ok', hrs, hans⟩
  · rintro (⟨pre, post, ok', rfl, hans⟩ | ⟨rfl, hans⟩)
    · exact ⟨pre, post ++ [(r, ok)], ok', by simp, hans⟩
    · exact ⟨rs, [], ok, rfl, hans⟩

/-- A prefix of a sequence without failed INSERTs has none either. -/
theorem NoFailedInsert.left {rows : List (Bytes × Bytes)}
    {as bs : List (AccountRequest × Bool)}
    (h : NoFailedInsert rows (as ++ bs)) : NoFailedInsert rows as := by
  intro pre post name password hsplit
  exact h pre (post ++ bs) name password (by rw [hsplit]; simp)

/-- While no INSERT fails, the map holds the initial accounts and the confirmed
ones. -/
theorem usersAfter_eq_some_iff {rows : List (Bytes × Bytes)}
    (rs : List (AccountRequest × Bool)) (h : NoFailedInsert rows rs)
    (name password : Bytes) :
    usersAfter (initmysqlResult rows) rs name = some password ↔
      initmysqlResult rows name = some password ∨
        Registered (initmysqlResult rows) rs name password := by
  induction rs using List.reverseRecOn with
  | nil => simp [usersAfter, Registered]
  | append_singleton rs x ih =>
      obtain ⟨r, ok⟩ := x
      have hih := ih h.left
      rw [usersAfter_snoc, registered_snoc, ← or_assoc, ← hih]
      cases r with
      | login n p => simp [serveAccount]
      | register n p =>
        rw [serveAccount, registerUser_users, registerUser_eq_login_iff]
        by_cases hfree : usersAfter (initmysqlResult rows) rs n = none
        · have hok : ok = true := by
            cases ok with
            | true => rfl
            | false => exact absurd hfree (h rs [] n p rfl)
          rw [if_pos hfree, UserMap.assign_apply]
          by_cases hn : name = n
          · subst hn
            simp [hfree, hok]
          · simp [hn, Ne.symm hn]
        · rw [if_neg hfree]
          constructor
          · exact Or.inl
          · rintro (hs | ⟨heq, hnone, -⟩)
            · exact hs
            · cases heq
              exact absurd hnone hfree

/-- A registration that is refused without a failed INSERT leaves the map as it
is. -/
theorem registerUser_refused {users : UserMap} {name password : Bytes}
    {ok : Bool} (hok : users name = none → ok = true)
    (h : (registerUser users name password ok).1 = .registerError) :
    (registerUser users name password ok).2 = users := by
  rw [registerUser_users]
  split
  · rename_i hfree
    have hlogin := (registerUser_eq_login_iff users name password ok).mpr
      ⟨hfree, hok hfree⟩
    rw [h] at hlogin
    cases hlogin
  · rfl

/-- The answers are the expected ones exactly when no INSERT fails for a free
name. -/
theorem accountsOk_iff (rows : List (Bytes × Bytes))
    (rs : List (AccountRequest × Bool)) :
    AccountsOk rows rs ↔ NoFailedInsert rows rs := by
  constructor
  · intro hok pre post name password hsplit hfree
    -- the failed INSERT has left an entry that no confirmed request accounts for
    have hlogin := hok.login_iff (pre ++ [(.register name password, false)]) post
      (by rw [hsplit]; simp) name password
    have hmap : usersAfter (initmysqlResult rows)
        (pre ++ [(.register name password, false)]) name = some password := by
      rw [usersAfter_snoc, serveAccount, registerUser_users, if_pos hfree,
        UserMap.assign_apply, if_pos rfl]
    rw [loginUser_eq_welcome_iff, registered_snoc] at hlogin
    rcases hlogin.mp hmap with hinit | hreg | ⟨-, hans⟩
    · rw [usersAfter_known pre hinit] at hfree
      cases hfree
    · obtain ⟨p, q, ok, rfl, hans⟩ := hreg
      have hknown : usersAfter (initmysqlResult rows)
          (p ++ [(.register name password, ok)]) name = some password := by
        rw [usersAfter_snoc, serveAccount, registerUser_users,
          if_pos ((registerUser_eq_login_iff _ _ _ _).mp hans).1,
          UserMap.assign_apply, if_pos rfl]
      rw [show p ++ (AccountRequest.register name password, ok) :: q =
        (p ++ [(.register name password, ok)]) ++ q by simp,
        usersAfter_append, usersAfter_known q hknown] at hfree
      cases hfree
    · exact Bool.noConfusion ((registerUser_eq_login_iff _ _ _ _).mp hans).2
  · intro hno
    refine ⟨?_, ?_⟩
    · intro pre post hsplit name password
      rw [loginUser_eq_welcome_iff]
      exact usersAfter_eq_some_iff pre (NoFailedInsert.left (hsplit ▸ hno)) name password
    · intro pre post name password ok hsplit hans later
      rw [usersAfter_snoc, serveAccount]
      rw [registerUser_refused ?_ hans]
      intro hfree
      cases ok with
      | true => rfl
      | false => exact absurd hfree (hno pre post name password hsplit)

/-- A failed INSERT for a new user: the user is told that the registration
failed, and can log in. -/
theorem not_accountsOk_failed_insert :
    ¬ AccountsOk [] [(.register (ascii "bob") (ascii "pw"), false)] := by
  intro h
  have hlogin := (h.login_iff [(.register (ascii "bob") (ascii "pw"), false)] []
    rfl (ascii "bob") (ascii "pw")).mp (by decide)
  rcases hlogin with hinit | ⟨pre, post, ok, hsplit, hans⟩
  · exact absurd hinit (by decide)
  · have hfalse := ((registerUser_eq_login_iff _ _ _ _).mp hans).2
    cases pre with
    | nil =>
      rw [List.nil_append] at hsplit
      cases hsplit
      cases hfalse
    | cons x pre =>
      have hlen := congrArg List.length hsplit
      simp at hlen

end EasyWebServer.Post
