import EasyWebServer.Post.Request

/-!
# The credentials of a POST body

The account branch of `do_request` copies the name and the password out of the body with
two loops, and for a registration it puts them into an INSERT statement.  None of the
copies looks at the size of its array.

`copyLoop` is a loop with the indices it reads and the stores it makes.  `CredentialsOk`
is what the copies must do, and `credentialsOk_iff` says for which bodies they do it.
-/

namespace EasyWebServer.Post

open CString

/-! ## The loops -/

/-- The indices that a copying loop reads, its stores, each a byte and its index, and the
index at which it finds its stop byte. -/
structure CopyTrace where
  reads : List Nat
  stores : List (UInt8 × Nat)
  stop : Option Nat

/-- The loop `for (; m_string[i] != stop; ++i, ++j) array[j] = m_string[i]` over the
memory from index `i` on.  Behind the memory that is known it reads once more. -/
def copyLoop (stop : UInt8) : Bytes → Nat → Nat → CopyTrace
  | [], i, _ => ⟨[i], [], none⟩
  | b :: mem, i, j =>
      if b = stop then ⟨[i], [], some i⟩
      else
        let rest := copyLoop stop mem (i + 1) (j + 1)
        ⟨i :: rest.reads, (b, j) :: rest.stores, rest.stop⟩

/-- The first loop: `m_string[i] != '&'` from index 5 on. -/
def nameLoop (mem : Bytes) : CopyTrace := copyLoop ampersand (mem.drop 5) 5 0

/-- The second loop, which starts ten bytes behind the `&`. -/
def passwordLoop (mem : Bytes) : CopyTrace :=
  match (nameLoop mem).stop with
  | some i => copyLoop NUL (mem.drop (i + 10)) (i + 10) 0
  | none => ⟨[], [], none⟩

/-- `name` and `password`, which are zeroed first. -/
def storeAll {cap : Nat} (buf : CharBuf cap) (stores : List (UInt8 × Nat)) : CharBuf cap :=
  stores.foldl (fun buf x => buf.set x.2 x.1) buf

def nameArray (mem : Bytes) : CharBuf CREDENTIAL_LEN :=
  storeAll (CharBuf.zero CREDENTIAL_LEN) (nameLoop mem).stores

def passwordArray (mem : Bytes) : CharBuf CREDENTIAL_LEN :=
  storeAll (CharBuf.zero CREDENTIAL_LEN) (passwordLoop mem).stores

/-! ## The INSERT statement -/

/-- The arguments of `strcpy` and of the calls of `strcat`, in order. -/
def sqlParts (name password : Bytes) : List Bytes :=
  [ascii "INSERT INTO user(username, passwd) VALUES(", ascii "'", name, ascii "', '",
    password, ascii "')"]

/-- The stores of these calls: each part and its terminator, behind the parts before. -/
def catStores : List Bytes → Nat → List (UInt8 × Nat)
  | [], _ => []
  | s :: rest, i => (s ++ [NUL]).zipIdx i ++ catStores rest (i + s.length)

/-- The stores into `sql_insert`, once both loops have ended. -/
def sqlStores (mem : Bytes) : List (UInt8 × Nat) :=
  match (passwordLoop mem).stop with
  | some _ =>
      catStores (sqlParts (cstr (nameArray mem).bytes) (cstr (passwordArray mem).bytes)) 0
  | none => []

/-! ## What the copies must do -/

/-- For a body of `n` bytes at the start of `mem`: the loops read its bytes and its
terminator only, every store is inside its array, every array is terminated, and a body
of the form of the pages gives its two fields.  `kind` is the byte `'2'` or `'3'`, and
only a registration has a statement. -/
structure CredentialsOk (mem : Bytes) (n : Nat) (kind : UInt8) : Prop where
  reads : ∀ i ∈ (nameLoop mem).reads ++ (passwordLoop mem).reads, i ≤ n
  name : ∀ x ∈ (nameLoop mem).stores, x.2 < CREDENTIAL_LEN
  password : ∀ x ∈ (passwordLoop mem).stores, x.2 < CREDENTIAL_LEN
  sql : kind = 51 → ∀ x ∈ sqlStores mem, x.2 < SQL_LEN
  name_terminated : NUL ∈ (nameArray mem).bytes
  password_terminated : NUL ∈ (passwordArray mem).bytes
  /-- `sql_insert` is not initialised. -/
  sql_terminated : kind = 51 → ∀ buf : CharBuf SQL_LEN, NUL ∈ (storeAll buf (sqlStores mem)).bytes
  fields : ∀ name password, ampersand ∉ name →
    mem.take n = ascii "user=" ++ name ++ ascii "&password=" ++ password →
      cstr (nameArray mem).bytes = name ∧ cstr (passwordArray mem).bytes = password

/-- The name of a body: what stands behind the first five bytes, up to `&`. -/
def bodyName (body : Bytes) : Bytes := (body.drop 5).takeWhile (fun b => b != ampersand)

/-- The password: what stands ten bytes behind the `&`. -/
def bodyPassword (body : Bytes) : Bytes := body.drop (5 + (bodyName body).length + 10)

/-- There is an `&` behind the first five bytes, with nine bytes or more behind it, and the
name, the password and the statement fit their arrays. -/
structure CredentialsFit (body : Bytes) (kind : UInt8) : Prop where
  delimiter : 5 + (bodyName body).length + 10 ≤ body.length
  name : (bodyName body).length < CREDENTIAL_LEN
  password : (bodyPassword body).length < CREDENTIAL_LEN
  sql : kind = 51 →
    (sqlParts (bodyName body) (bodyPassword body)).flatten.length < SQL_LEN

/-! ## One loop -/

/-- A loop copies what stands before its stop byte, and reads one index more. -/
theorem copyLoop_eq (stop : UInt8) (mem : Bytes) : ∀ i j : Nat,
    copyLoop stop mem i j =
      ⟨List.range' i ((mem.takeWhile (fun b => b != stop)).length + 1),
        (mem.takeWhile (fun b => b != stop)).zipIdx j,
        if (mem.takeWhile (fun b => b != stop)).length < mem.length then
          some (i + (mem.takeWhile (fun b => b != stop)).length)
        else none⟩ := by
  induction mem with
  | nil => exact fun _ _ => rfl
  | cons b mem ih =>
      intro i j
      by_cases hb : b = stop
      · have htake : (b :: mem).takeWhile (fun b => b != stop) = [] := by
          rw [List.takeWhile_cons, hb, bne_self_eq_false]
          rfl
        rw [copyLoop, if_pos hb, htake]
        rfl
      · have htake : (b :: mem).takeWhile (fun b => b != stop) =
            b :: mem.takeWhile (fun b => b != stop) := by
          rw [List.takeWhile_cons, if_pos (bne_iff_ne.mpr hb)]
        rw [copyLoop, if_neg hb, ih, htake]
        simp only [List.length_cons, List.zipIdx_cons, Nat.add_lt_add_iff_right,
          List.range'_succ, Nat.add_assoc, Nat.add_comm 1]

/-- The loop reads the index at which it stops. -/
theorem copyLoop_last (stop : UInt8) (mem : Bytes) (i j : Nat) :
    i + (mem.takeWhile (fun b => b != stop)).length ∈ (copyLoop stop mem i j).reads := by
  rw [copyLoop_eq, List.mem_range'_1]
  omega

/-- The array that a loop fills from its start. -/
theorem storeAll_zipIdx {cap : Nat} (buf : CharBuf cap) (s : Bytes) (i : Nat) :
    storeAll buf (s.zipIdx i) = buf.write i s := CharBuf.foldl_set_zipIdx s buf i

/-- The stores of a loop are inside the array, and the array is terminated, exactly when
the copied text is shorter than the array. -/
theorem stores_fit_iff {cap : Nat} {s : Bytes} (hs : NUL ∉ s) :
    ((∀ x ∈ s.zipIdx 0, x.2 < cap) ∧ NUL ∈ (storeAll (CharBuf.zero cap) (s.zipIdx 0)).bytes) ↔
      s.length < cap := by
  rw [storeAll_zipIdx]
  constructor
  · rintro ⟨hstores, hnul⟩
    have hle : s.length ≤ cap := by
      by_contra hlong
      have hlast : (s.get ⟨cap, by omega⟩, cap) ∈ s.zipIdx 0 :=
        List.mk_mem_zipIdx_iff_getElem?.mpr (List.getElem?_eq_getElem _)
      exact absurd (hstores _ hlast) (Nat.lt_irrefl cap)
    exact (CharBuf.nul_mem_write_zero hs hle).mp hnul
  · intro hlt
    refine ⟨fun x hx => ?_, (CharBuf.nul_mem_write_zero hs hlt.le).mpr hlt⟩
    have := List.snd_lt_of_mem_zipIdx hx
    omega

/-! ## The statement -/

theorem catStores_le {x : UInt8 × Nat} (parts : List Bytes) : ∀ {i : Nat},
    x ∈ catStores parts i → x.2 ≤ i + parts.flatten.length := by
  induction parts with
  | nil =>
      intro i hx
      cases hx
  | cons s rest ih =>
      intro i hx
      rw [List.flatten_cons, List.length_append]
      rcases List.mem_append.mp hx with hx | hx
      · have hlt := List.snd_lt_of_mem_zipIdx hx
        rw [List.length_append, List.length_singleton] at hlt
        omega
      · have := ih hx
        omega

/-- The last store is the terminator of the whole text. -/
theorem catStores_last (parts : List Bytes) : ∀ (s : Bytes) (i : Nat),
    ∃ stores, catStores (s :: parts) i =
      stores ++ [(NUL, i + (s :: parts).flatten.length)] := by
  induction parts with
  | nil =>
      intro s i
      refine ⟨s.zipIdx i, ?_⟩
      rw [catStores, catStores, List.append_nil, List.zipIdx_append, List.flatten_cons,
        List.flatten_nil, List.append_nil]
      rfl
  | cons t rest ih =>
      intro s i
      obtain ⟨stores, hstores⟩ := ih t (i + s.length)
      have hlen : (s :: t :: rest).flatten.length = s.length + (t :: rest).flatten.length := by
        rw [List.flatten_cons, List.length_append]
      refine ⟨(s ++ [NUL]).zipIdx i ++ stores, ?_⟩
      rw [catStores, hstores, List.append_assoc, hlen, Nat.add_assoc]

/-- The statement fits `sql_insert` exactly when it is shorter than the array, and then
the array is terminated. -/
theorem sqlStores_fit_iff (name password : Bytes) :
    (∀ x ∈ catStores (sqlParts name password) 0, x.2 < SQL_LEN) ↔
      (sqlParts name password).flatten.length < SQL_LEN := by
  constructor
  · intro h
    obtain ⟨stores, hlast⟩ := catStores_last
      [ascii "'", name, ascii "', '", password, ascii "')"]
      (ascii "INSERT INTO user(username, passwd) VALUES(") 0
    have hmem := h (NUL, 0 + (sqlParts name password).flatten.length)
      (by rw [sqlParts, hlast]; exact List.mem_append_right _ List.mem_cons_self)
    rwa [Nat.zero_add] at hmem
  · intro hlt x hx
    have := catStores_le (sqlParts name password) hx
    omega

/-- The text that these stores leave is the statement of `do_request`. -/
theorem sqlInsert_eq (name password : Bytes) :
    sqlInsert name password =
      if (sqlParts name password).flatten.length < SQL_LEN then
        .ok (sqlParts name password).flatten
      else .error .outOfBounds := by
  have hflatten : (sqlParts name password).flatten =
      ascii "INSERT INTO user(username, passwd) VALUES(" ++ ascii "'" ++ name ++
        ascii "', '" ++ password ++ ascii "')" := by
    simp only [sqlParts, List.flatten_cons, List.flatten_nil, List.append_nil, List.append_assoc]
  rw [hflatten]
  rfl

theorem nul_mem_sqlStores {name password : Bytes} (buf : CharBuf SQL_LEN)
    (h : (sqlParts name password).flatten.length < SQL_LEN) :
    NUL ∈ (storeAll buf (catStores (sqlParts name password) 0)).bytes := by
  obtain ⟨stores, hlast⟩ := catStores_last
    [ascii "'", name, ascii "', '", password, ascii "')"]
    (ascii "INSERT INTO user(username, passwd) VALUES(") 0
  have hlen : (storeAll buf (catStores (sqlParts name password) 0)).bytes.length = SQL_LEN :=
    (storeAll buf _).size_eq
  have hget : (storeAll buf (catStores (sqlParts name password) 0)).get
      (sqlParts name password).flatten.length = NUL := by
    rw [storeAll, sqlParts, hlast, List.foldl_append, Nat.zero_add]
    exact CharBuf.get_set_self _ NUL h
  rw [CharBuf.get, List.getD_eq_getElem _ _ (by omega)] at hget
  rw [← hget]
  exact List.getElem_mem _

/-! ## Both loops -/

section Body

variable {body rest : Bytes} {kind : UInt8}

/-- A prefix of a text that ends before the text does. -/
theorem takeWhile_append_short {p : UInt8 → Bool} {s t : Bytes}
    (h : (s.takeWhile p).length < s.length) : (s ++ t).takeWhile p = s.takeWhile p := by
  rw [List.takeWhile_append, if_neg (by omega)]

/-- A body that the first loop does not leave has an `&`. -/
theorem delimiter_of_reads
    (h : 5 + (((body ++ NUL :: rest).drop 5).takeWhile (fun b => b != ampersand)).length ≤
      body.length) : (bodyName body).length < (body.drop 5).length := by
  have hdrop : (body ++ NUL :: rest).drop 5 = body.drop 5 ++ NUL :: rest := by
    rw [List.drop_append_of_le_length (by omega)]
  have hle : (bodyName body).length ≤ (body.drop 5).length :=
    (List.takeWhile_prefix _).length_le
  rcases Nat.eq_or_lt_of_le hle with heq | hlt
  · -- the loop goes on behind the terminator
    have hnul : (NUL != ampersand) = true := by decide
    unfold bodyName at heq
    rw [hdrop, List.takeWhile_append, if_pos heq, List.takeWhile_cons, if_pos hnul,
      List.length_append, List.length_cons, List.length_drop] at h
    omega
  · exact hlt

/-- An `&` with nine bytes behind it is one behind the name. -/
theorem bodyName_lt_of_delimiter (h : 5 + (bodyName body).length + 10 ≤ body.length) :
    (bodyName body).length < (body.drop 5).length := by
  rw [List.length_drop]
  omega

/-- What the first loop copies. -/
theorem takeWhile_name (rest : Bytes) (h : (bodyName body).length < (body.drop 5).length) :
    ((body ++ NUL :: rest).drop 5).takeWhile (fun b => b != ampersand) = bodyName body ∧
      (bodyName body).length < ((body ++ NUL :: rest).drop 5).length := by
  have h5 : 5 ≤ body.length := by
    rw [List.length_drop] at h
    omega
  have hdrop : (body ++ NUL :: rest).drop 5 = body.drop 5 ++ NUL :: rest :=
    List.drop_append_of_le_length h5
  rw [hdrop, List.length_append]
  exact ⟨takeWhile_append_short h, by omega⟩

theorem nameLoop_eq (rest : Bytes) (h : (bodyName body).length < (body.drop 5).length) :
    nameLoop (body ++ NUL :: rest) =
      ⟨List.range' 5 ((bodyName body).length + 1), (bodyName body).zipIdx 0,
        some (5 + (bodyName body).length)⟩ := by
  obtain ⟨htake, hlt⟩ := takeWhile_name rest h
  rw [nameLoop, copyLoop_eq, htake, if_pos hlt]

/-- What the second loop copies. -/
theorem takeWhile_password (rest : Bytes) (hnul : NUL ∉ body)
    (h : 5 + (bodyName body).length + 10 ≤ body.length) :
    ((body ++ NUL :: rest).drop (5 + (bodyName body).length + 10)).takeWhile
        (fun b => b != NUL) = bodyPassword body ∧
      (bodyPassword body).length <
        ((body ++ NUL :: rest).drop (5 + (bodyName body).length + 10)).length := by
  have hdrop : (body ++ NUL :: rest).drop (5 + (bodyName body).length + 10) =
      bodyPassword body ++ NUL :: rest := List.drop_append_of_le_length h
  have hpassword : ∀ b ∈ bodyPassword body, (b != NUL) = true := fun b hb =>
    bne_iff_ne.mpr (fun he => hnul (he ▸ List.mem_of_mem_drop hb))
  have hstop : (NUL :: rest).takeWhile (fun b => b != NUL) = [] := rfl
  rw [hdrop, List.takeWhile_append_of_pos hpassword, hstop, List.append_nil, List.length_append,
    List.length_cons]
  exact ⟨rfl, by omega⟩

theorem passwordLoop_eq (rest : Bytes) (hnul : NUL ∉ body)
    (h : 5 + (bodyName body).length + 10 ≤ body.length) :
    passwordLoop (body ++ NUL :: rest) =
      ⟨List.range' (5 + (bodyName body).length + 10) ((bodyPassword body).length + 1),
        (bodyPassword body).zipIdx 0, some body.length⟩ := by
  have hname := bodyName_lt_of_delimiter h
  have hlen : 5 + (bodyName body).length + 10 + (bodyPassword body).length = body.length := by
    rw [bodyPassword, List.length_drop]
    omega
  obtain ⟨htake, hlt⟩ := takeWhile_password rest hnul h
  unfold passwordLoop
  simp only [nameLoop_eq rest hname]
  rw [copyLoop_eq, htake, if_pos hlt, hlen]

theorem nul_notMem_bodyName (hnul : NUL ∉ body) : NUL ∉ bodyName body := fun h =>
  hnul (List.mem_of_mem_drop ((List.takeWhile_prefix _).subset h))

theorem nul_notMem_bodyPassword (hnul : NUL ∉ body) : NUL ∉ bodyPassword body := fun h =>
  hnul (List.mem_of_mem_drop h)

/-- The arrays of a body whose name and password fit. -/
theorem cstr_nameArray (hnul : NUL ∉ body) (h : CredentialsFit body kind) :
    cstr (nameArray (body ++ NUL :: rest)).bytes = bodyName body := by
  have hname := bodyName_lt_of_delimiter h.delimiter
  rw [nameArray, nameLoop_eq rest hname, storeAll_zipIdx, CharBuf.bytes_write_zero h.name.le]
  exact cstr_append_replicate (nul_notMem_bodyName hnul) _

theorem cstr_passwordArray (hnul : NUL ∉ body) (h : CredentialsFit body kind) :
    cstr (passwordArray (body ++ NUL :: rest)).bytes = bodyPassword body := by
  rw [passwordArray, passwordLoop_eq rest hnul h.delimiter, storeAll_zipIdx,
    CharBuf.bytes_write_zero h.password.le]
  exact cstr_append_replicate (nul_notMem_bodyPassword hnul) _

theorem sqlStores_eq (hnul : NUL ∉ body) (h : CredentialsFit body kind) :
    sqlStores (body ++ NUL :: rest) =
      catStores (sqlParts (bodyName body) (bodyPassword body)) 0 := by
  unfold sqlStores
  rw [cstr_nameArray hnul h, cstr_passwordArray hnul h, passwordLoop_eq rest hnul h.delimiter]

/-- The fields of a body as the pages send it. -/
theorem body_fields {name password : Bytes} (hname : ampersand ∉ name)
    (hbody : body = ascii "user=" ++ name ++ ascii "&password=" ++ password) :
    bodyName body = name ∧ bodyPassword body = password := by
  have hdrop : body.drop 5 = name ++ (ascii "&password=" ++ password) := by
    rw [hbody, List.append_assoc, List.append_assoc]
    exact List.drop_left' rfl
  have hword : ∀ b ∈ name, (b != ampersand) = true :=
    fun b hb => bne_iff_ne.mpr (fun he => hname (he ▸ hb))
  have hn : bodyName body = name := by
    have hstop : (ascii "&password=" ++ password).takeWhile (fun b => b != ampersand) = [] := rfl
    rw [bodyName, hdrop, List.takeWhile_append_of_pos hword, hstop, List.append_nil]
  refine ⟨hn, ?_⟩
  have hlen : 5 + name.length + 10 = (ascii "user=" ++ name ++ ascii "&password=").length := by
    simp only [List.length_append]
    rfl
  rw [bodyPassword, hn, hbody, hlen]
  exact List.drop_left

/-- For a body that fits, the two fields are those that `do_request` works with. -/
theorem extractCredentials_of_fit (hnul : NUL ∉ body) (h : CredentialsFit body kind) :
    extractCredentials (body ++ NUL :: rest) = .ok (bodyName body, bodyPassword body) := by
  obtain ⟨hname, hnlt⟩ := takeWhile_name rest (bodyName_lt_of_delimiter h.delimiter)
  obtain ⟨hpassword, hplt⟩ := takeWhile_password rest hnul h.delimiter
  have hcstr : cstr (bodyName body) = bodyName body := by
    have hstring := cstr_append_replicate (nul_notMem_bodyName hnul) 0
    rwa [List.replicate_zero, List.append_nil] at hstring
  unfold extractCredentials copyUntil
  simp only [hname, if_pos (And.intro hnlt h.name), hpassword, if_pos (And.intro hplt h.password),
    hcstr]

/-- Copies that do what they must have found the `&` and stayed inside their arrays. -/
theorem CredentialsOk.fits (hnul : NUL ∉ body)
    (h : CredentialsOk (body ++ NUL :: rest) body.length kind) : CredentialsFit body kind := by
  have hlast : 5 + (((body ++ NUL :: rest).drop 5).takeWhile
      (fun b => b != ampersand)).length ≤ body.length :=
    h.reads _ (List.mem_append_left _ (copyLoop_last _ _ 5 0))
  have hdelim := delimiter_of_reads hlast
  have hnameLoop := nameLoop_eq rest hdelim
  -- the second loop reads its first index
  have hten : 5 + (bodyName body).length + 10 ≤ body.length := by
    apply h.reads
    apply List.mem_append_right
    unfold passwordLoop
    simp only [hnameLoop]
    rw [copyLoop_eq, List.mem_range'_1]
    omega
  have hpasswordLoop := passwordLoop_eq rest hnul hten
  have hname : (bodyName body).length < CREDENTIAL_LEN := by
    refine (stores_fit_iff (nul_notMem_bodyName hnul)).mp ⟨?_, ?_⟩
    · have hstores := h.name
      rwa [hnameLoop] at hstores
    · have hterm := h.name_terminated
      rwa [nameArray, hnameLoop] at hterm
  have hpassword : (bodyPassword body).length < CREDENTIAL_LEN := by
    refine (stores_fit_iff (nul_notMem_bodyPassword hnul)).mp ⟨?_, ?_⟩
    · have hstores := h.password
      rwa [hpasswordLoop] at hstores
    · have hterm := h.password_terminated
      rwa [passwordArray, hpasswordLoop] at hterm
  refine ⟨hten, hname, hpassword, fun hkind => ?_⟩
  have hfit : CredentialsFit body 50 := ⟨hten, hname, hpassword, fun h => absurd h (by decide)⟩
  have hsql := h.sql hkind
  rw [sqlStores_eq hnul hfit] at hsql
  exact (sqlStores_fit_iff _ _).mp hsql

/-- The loops stop inside a body that fits. -/
theorem CredentialsFit.reads_le (hnul : NUL ∉ body) (h : CredentialsFit body kind) :
    ∀ i ∈ (nameLoop (body ++ NUL :: rest)).reads ++ (passwordLoop (body ++ NUL :: rest)).reads,
      i ≤ body.length := by
  intro i hi
  have hten := h.delimiter
  have hlen : (bodyPassword body).length = body.length - (5 + (bodyName body).length + 10) :=
    List.length_drop
  rw [nameLoop_eq rest (bodyName_lt_of_delimiter h.delimiter), passwordLoop_eq rest hnul h.delimiter] at hi
  rcases List.mem_append.mp hi with hi | hi
  · have := List.mem_range'_1.mp hi
    omega
  · have := List.mem_range'_1.mp hi
    omega

/-- The copies of a body that fits. -/
theorem CredentialsFit.copies (hnul : NUL ∉ body) (h : CredentialsFit body kind) :
    CredentialsOk (body ++ NUL :: rest) body.length kind := by
  have hnameLoop := nameLoop_eq rest (bodyName_lt_of_delimiter h.delimiter)
  have hpasswordLoop := passwordLoop_eq rest hnul h.delimiter
  obtain ⟨hname, hnameNul⟩ := (stores_fit_iff (nul_notMem_bodyName hnul)).mpr h.name
  obtain ⟨hpassword, hpasswordNul⟩ :=
    (stores_fit_iff (nul_notMem_bodyPassword hnul)).mpr h.password
  constructor
  case reads => exact h.reads_le hnul
  case name =>
    rw [hnameLoop]
    exact hname
  case password =>
    rw [hpasswordLoop]
    exact hpassword
  case sql =>
    intro hkind
    rw [sqlStores_eq hnul h]
    exact (sqlStores_fit_iff _ _).mpr (h.sql hkind)
  case name_terminated =>
    rw [nameArray, hnameLoop]
    exact hnameNul
  case password_terminated =>
    rw [passwordArray, hpasswordLoop]
    exact hpasswordNul
  case sql_terminated =>
    intro hkind buf
    rw [sqlStores_eq hnul h]
    exact nul_mem_sqlStores buf (h.sql hkind)
  case fields =>
    intro name password hamp hbody
    rw [List.take_left] at hbody
    rw [cstr_nameArray hnul h, cstr_passwordArray hnul h]
    exact body_fields hamp hbody

/-- The copies of the account branch do what they must exactly for the bodies that fit. -/
theorem credentialsOk_iff (hnul : NUL ∉ body) :
    CredentialsOk (body ++ NUL :: rest) body.length kind ↔ CredentialsFit body kind :=
  ⟨CredentialsOk.fits hnul, CredentialsFit.copies hnul⟩

end Body

theorem credentialsOk_bob :
    CredentialsOk (ascii "user=bob&password=secret" ++ NUL :: [])
      (ascii "user=bob&password=secret").length 51 :=
  (credentialsOk_iff (by decide)).mpr
    ⟨by decide, by decide, by decide, fun _ => by decide⟩

/-- A body without an `&`: the first loop runs over the terminator. -/
theorem not_credentialsOk_noDelimiter :
    ¬ CredentialsOk (ascii "user=bob" ++ NUL :: []) (ascii "user=bob").length 50 := by
  intro h
  have hread : 9 ∈ (nameLoop (ascii "user=bob" ++ NUL :: [])).reads := by decide
  exact absurd (h.reads 9 (List.mem_append_left _ hread)) (by decide)

end EasyWebServer.Post
