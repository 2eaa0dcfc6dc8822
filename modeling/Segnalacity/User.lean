import Segnalacity.Database

/-! # Users

`user.c`: registration, authentication and the queries on the `users` table. -/

namespace Segnalacity

open CStr StateProg

/-! ### Passwords -/

/-- One round of DJB2. -/
def djb2 (h : UInt64) (c : UInt8) : UInt64 := ((h <<< 5) + h) + c.toUInt64

def hexDigit (n : ℕ) : UInt8 := (bytes "0123456789abcdef").getD n 0

/-- `%016llx`. -/
def hex16 (h : UInt64) : Bytes :=
  (List.range 16).map fun i => hexDigit (h.toNat / 16 ^ (15 - i) % 16)

def hashPassword (salt plain : Bytes) : Bytes :=
  let h := (cstr plain).foldl djb2 ((cstr salt).foldl djb2 5381)
  snprintf (pwdHashLen + 1) (hex16 h ++ hex16 (h ^^^ 0xDEADBEEFDEADBEEF))

/-- The first `PWD_HASH_LEN` bytes of a zero-filled array that holds the C string `s`. -/
def padHash (s : Bytes) : Bytes := (s ++ List.replicate pwdHashLen 0).take pwdHashLen

def constantTimeCompare (a b : Bytes) : Bool := padHash a = padHash b

theorem hashPassword_cstr (salt plain : Bytes) :
    hashPassword (cstr salt) plain = hashPassword salt plain := by
  unfold hashPassword
  rw [cstr_cstr]

theorem zero_notMem_hex16 (h : UInt64) : (0 : UInt8) ∉ hex16 h := by
  intro hmem
  obtain ⟨i, -, hi⟩ := List.mem_map.mp hmem
  exact hexDigit_ne_zero ⟨_, Nat.mod_lt (h.toNat / 16 ^ (15 - i)) (show 0 < 16 by decide)⟩ hi

theorem short_hashPassword (salt plain : Bytes) :
    (0 : UInt8) ∉ hashPassword salt plain ∧ (hashPassword salt plain).length ≤ pwdHashLen := by
  constructor
  · intro hmem
    rcases List.mem_append.mp (List.mem_of_mem_take hmem) with h | h
    · exact zero_notMem_hex16 _ h
    · exact zero_notMem_hex16 _ h
  · exact List.length_take_le _ _

/-! ### Rows -/

def cursorToUser (r : UserRow) : User where
  userId := u64 r.id
  username := strncpy r.username (usernameLen - 1)
  passwordHash := strncpy r.passwordHash pwdHashLen
  salt := strncpy r.salt saltHexLen
  city := strncpy r.city (cityLen - 1)
  role := UserRole.ofInt r.role

/-- The columns of an insertion give the salt and the digest back. -/
theorem cursorToUser_hash {r : UserRow} {salt plain : Bytes} (hsalt : salt.length ≤ saltHexLen)
    (hr : r.salt = cstr salt) (hhash : r.passwordHash = cstr (hashPassword salt plain)) :
    (cursorToUser r).salt = cstr salt ∧ (cursorToUser r).passwordHash = hashPassword salt plain := by
  obtain ⟨hzero, hlen⟩ := short_hashPassword salt plain
  constructor
  · show strncpy r.salt saltHexLen = _
    rw [hr]
    exact strncpy_eq_self (zero_notMem_cstr salt) ((List.takeWhile_sublist _).length_le.trans hsalt)
  · show strncpy r.passwordHash pwdHashLen = _
    rw [hhash, cstr_eq_self hzero]
    exact strncpy_eq_self hzero hlen

theorem cursorToUser_password {r : UserRow} {salt plain : Bytes} (hsalt : salt.length ≤ saltHexLen)
    (hr : r.salt = cstr salt) (hhash : r.passwordHash = cstr (hashPassword salt plain)) :
    constantTimeCompare (cursorToUser r).passwordHash
      (hashPassword (cursorToUser r).salt plain) = true := by
  obtain ⟨hsalt', hhash'⟩ := cursorToUser_hash hsalt hr hhash
  rw [hsalt', hhash', hashPassword_cstr]
  exact decide_eq_true rfl

def userIsOperator (u : User) : Bool := u.role = .operator

def userIsAdmin (u : User) : Bool := u.role = .admin

variable [Platform]

/-- `INSERT INTO users`; `username` is unique. -/
def insertUser (username hash : Bytes) (role : ℤ) (city salt : Bytes) (db : Database) :
    Option Database :=
  if db.users.any fun u => u.username = cstr username then none
  else match nextRowid db.userSeq with
    | none => none
    | some id => some { db with
        users := db.users ++ [⟨id, cstr username, cstr hash, role, cstr city, cstr salt⟩]
        userSeq := id
        lastInsertRowid := id
        changes := 1 }

theorem insertUser_eq_some {username hash city salt : Bytes} {role : ℤ} {db db' : Database}
    (h : insertUser username hash role city salt db = some db') :
    (∀ row ∈ db.users, row.username ≠ cstr username) ∧
      ∃ id, nextRowid db.userSeq = some id ∧ db' = { db with
        users := db.users ++ [⟨id, cstr username, cstr hash, role, cstr city, cstr salt⟩]
        userSeq := id, lastInsertRowid := id, changes := 1 } := by
  unfold insertUser at h
  split at h
  · cases h
  · rename_i hfree
    refine ⟨by simpa using hfree, ?_⟩
    split at h
    · cases h
    · rename_i id hid
      exact ⟨id, hid, (Option.some.inj h).symm⟩

theorem insertUser_eq_none {username hash city salt : Bytes} {role : ℤ} {db : Database}
    (h : insertUser username hash role city salt db = none) :
    (∃ row ∈ db.users, row.username = cstr username) ∨ ¬ db.userSeq < 2 ^ 63 - 1 := by
  unfold insertUser at h
  split at h
  · rename_i htaken
    exact Or.inl (by simpa using htaken)
  · right
    split at h
    · rename_i hseq
      unfold nextRowid at hseq
      split_ifs at hseq with hlt
      exact hlt
    · cases h

/-! ### Operations -/

def userRegister (username plainPassword city : Bytes) (role : UserRole) : App ℤ := do
  let salt ← generateSalt
  dbExec (insertUser username (hashPassword salt plainPassword) role.toInt city salt)

def selectUsersByName (username : Bytes) (db : Database) : List UserRow :=
  Sql.select (fun u => Sql.eq3 (some u.username) (some (cstr username))) db.users

theorem selectUsersByName_row {before after : List UserRow} {row : UserRow} {name : Bytes}
    {db : Database} (hdb : db.users = before ++ row :: after)
    (hfree : ∀ x ∈ before, x.username ≠ row.username) (hname : row.username = cstr name) :
    (selectUsersByName name db).head? = some row := by
  unfold selectUsersByName
  rw [hdb]
  refine Sql.head?_select_append (fun x hx => ?_) ((Sql.holds_key _ _).mpr hname)
  rw [Bool.eq_false_iff, Ne, Sql.holds_key, ← hname]
  exact hfree x hx

def selectUsersById (id : UInt64) (db : Database) : List UserRow :=
  Sql.select (fun u => Sql.eq3 (some u.id) (some (i64 id))) db.users

def selectAdmins (city : Bytes) (db : Database) : List UserRow :=
  Sql.select (fun u => Sql.and3 (Sql.eq3 (some u.role) (some 2))
    (Sql.eq3 (some u.city) (some (cstr city)))) db.users

def selectOperators (city : Bytes) (db : Database) : List UserRow :=
  Platform.orderText UserRow.username
    (Sql.select (fun u => Sql.and3 (Sql.eq3 (some u.role) (some 1))
      (Sql.eq3 (some u.city) (some (cstr city)))) db.users)

/-- The user when the credentials are right. -/
def userAuthenticate (username plainPassword : Bytes) : App (Option User) := do
  let row ← firstRow (selectUsersByName username)
  match row with
  | none => pure none
  | some row =>
      let out := cursorToUser row
      let loginHash := hashPassword out.salt plainPassword
      pure (if constantTimeCompare out.passwordHash loginHash then some out else none)

def userGetById (id : UInt64) : App (Option User) := do
  let row ← firstRow (selectUsersById id)
  pure (row.map cursorToUser)

def userRegisterAdmin (username plainPassword city : Bytes) : App ℤ := do
  let admin ← firstRow (selectAdmins city)
  if admin.isSome then pure (-2)
  else userRegister username plainPassword city .admin

/-- One element of the operator list; without its object the item is dropped. -/
def operatorItem (row : UserRow) : App (List (JsonObject Double)) := do
  let item ← jsonCreate
  if item then do
    let obj ← jsonAddFields [
      (bytes "id", .number row.id),
      (bytes "username", .string row.username)]
    pure [obj]
  else pure []

/-- `user_get_operators_json`: the length written and the buffer. -/
def userGetOperatorsJson (buf : Bytes) (max : ℕ) (city : Bytes) : App (ℕ × Bytes) := do
  let c ← dbCursorOpen (selectOperators city)
  match c with
  | none =>
      if max > 2 then pure (2, overlay (bytes "[]" ++ [0]) buf) else pure (0, buf)
  | some rows => do
      let root ← jsonCreate
      let items ← drainRows operatorItem rows
      if !root then pure (0, buf)
      else match Platform.printPreallocated items max with
        | none => pure (0, Platform.printResidue items max buf)
        | some text => pure (text.length, overlay (text ++ [0]) buf)

/-! ### Runs -/

section runs
variable {e : Env} {w w' : World}

theorem userRegister_run {username plain city : Bytes} {role : UserRole} {rc : ℤ}
    (h : userRegister username plain city role e w = (rc, w')) :
    w'.sessions = w.sessions ∧ w'.cache = w.cache ∧ w'.ctr.ticks = w.ctr.ticks ∧
      ((rc = -1 ∧ w'.db = w.db) ∨
        (rc = 0 ∧ ∃ hash salt db, insertUser username hash role.toInt city salt w.db = some db ∧
          w'.db = db)) := by
  obtain ⟨salt, w₁, h₁, h₂⟩ := Prog.bind_run_iff.mp h
  obtain ⟨rfl, rfl⟩ := generateSalt_run h₁
  rcases dbExec_run h₂ with ⟨rfl, rfl, -⟩ | ⟨rfl, -, db, hdb, rfl⟩
  · exact ⟨rfl, rfl, rfl, Or.inl ⟨rfl, rfl⟩⟩
  · exact ⟨rfl, rfl, rfl, Or.inr ⟨rfl, _, _, db, hdb, rfl⟩⟩

theorem userGetById_run {id : UInt64} {u : Option User} (h : userGetById id e w = (u, w')) :
    ReadsOnly w w' ∧ ∀ x ∈ u, ∃ row ∈ w.db.users, row.id = i64 id ∧ x = cursorToUser row := by
  obtain ⟨row, w₁, h₁, h₂⟩ := Prog.bind_run_iff.mp h
  obtain ⟨rfl, rfl⟩ := Prog.pure_run_iff.mp h₂
  refine ⟨firstRow_readsOnly h₁, ?_⟩
  rintro x hx
  obtain ⟨row', rfl, rfl⟩ := Option.map_eq_some_iff.mp hx
  obtain ⟨hmem, hid⟩ := Sql.of_head?_select (firstRow_some h₁)
  obtain ⟨v, hv, hv'⟩ := (Sql.holds_eq3 _ _).mp hid
  exact ⟨row', hmem, (Option.some.inj hv).trans (Option.some.inj hv').symm, rfl⟩

theorem userGetById_succeeded {id : UInt64} {u : User}
    (h : userGetById id e w = (some u, w')) : Succeeded e 2 w w' := by
  obtain ⟨row, w₁, h₁, h₂⟩ := Prog.bind_run_iff.mp h
  obtain ⟨hu, rfl⟩ := Prog.pure_run_iff.mp h₂
  obtain ⟨row', rfl, -⟩ := Option.map_eq_some_iff.mp hu.symm
  exact firstRow_succeeded h₁

theorem userAuthenticate_run {username plain : Bytes} {u : Option User}
    (h : userAuthenticate username plain e w = (u, w')) :
    ReadsOnly w w' ∧
      ∀ x ∈ u, ∃ row, (selectUsersByName username w.db).head? = some row ∧ x = cursorToUser row := by
  obtain ⟨row, w₁, h₁, h₂⟩ := Prog.bind_run_iff.mp h
  cases row with
  | none =>
      obtain ⟨rfl, rfl⟩ := Prog.pure_run_iff.mp h₂
      exact ⟨firstRow_readsOnly h₁, by simp⟩
  | some row =>
      obtain ⟨rfl, rfl⟩ := Prog.pure_run_iff.mp h₂
      refine ⟨firstRow_readsOnly h₁, ?_⟩
      intro x hx
      split_ifs at hx with hc
      · obtain rfl := Option.some.inj hx
        exact ⟨row, firstRow_some h₁, rfl⟩
      · cases hx

theorem userAuthenticate_compares {username plain : Bytes} {x : User}
    (h : userAuthenticate username plain e w = (some x, w')) :
    constantTimeCompare x.passwordHash (hashPassword x.salt plain) = true := by
  obtain ⟨row, w₁, h₁, h₂⟩ := Prog.bind_run_iff.mp h
  cases row with
  | none => exact absurd (Prog.pure_run_iff.mp h₂).1 (by simp)
  | some row =>
      have hx := (Prog.pure_run_iff.mp h₂).1.symm
      split_ifs at hx with hc
      rw [← Option.some.inj hx]
      exact hc

/-- The password of the first row of that name is accepted unless a call fails. -/
theorem userAuthenticate_accepts {username plain : Bytes} {row : UserRow} {u : Option User}
    (hrow : (selectUsersByName username w.db).head? = some row)
    (hpw : constantTimeCompare (cursorToUser row).passwordHash
      (hashPassword (cursorToUser row).salt plain) = true)
    (hf : e.fails w.ctr.calls = false) (hf' : e.fails (w.ctr.calls + 1) = false)
    (h : userAuthenticate username plain e w = (u, w')) : u = some (cursorToUser row) := by
  obtain ⟨r, w₁, h₁, h₂⟩ := Prog.bind_run_iff.mp h
  rcases firstRow_run h₁ with ⟨-, hf₁, -⟩ | ⟨-, -, hr⟩
  · rw [hf] at hf₁
    cases hf₁
  · rw [hf', if_neg (by decide), hrow] at hr
    subst hr
    rw [(Prog.pure_run_iff.mp h₂).1]
    exact if_pos hpw

theorem userRegisterAdmin_run {username plain city : Bytes} {rc : ℤ}
    (h : userRegisterAdmin username plain city e w = (rc, w')) :
    w'.sessions = w.sessions ∧ w'.cache = w.cache ∧ w'.ctr.ticks = w.ctr.ticks ∧
      (w'.db = w.db ∨ ∃ hash salt db, insertUser username hash 2 city salt w.db = some db ∧
        w'.db = db) := by
  obtain ⟨row, w₁, h₁, h₂⟩ := Prog.bind_run_iff.mp h
  have hr := firstRow_readsOnly h₁
  rw [Prog.ite_run] at h₂
  split_ifs at h₂
  · obtain ⟨-, rfl⟩ := Prog.pure_run_iff.mp h₂
    exact ⟨hr.sessions, hr.cache, hr.ticks, Or.inl hr.db⟩
  · obtain ⟨hs, hc, ht, hdb⟩ := userRegister_run h₂
    refine ⟨hs.trans hr.sessions, hc.trans hr.cache, ht.trans hr.ticks, ?_⟩
    rcases hdb with ⟨-, hdb⟩ | ⟨-, hash, salt, db, hins, hdb⟩
    · exact Or.inl (hdb.trans hr.db)
    · rw [hr.db] at hins
      exact Or.inr ⟨hash, salt, db, hins, hdb⟩

end runs

end Segnalacity
