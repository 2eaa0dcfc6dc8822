import Segnalacity.ListedCities
import Segnalacity.Passwords

/-! # Registration and login

Both handlers read the same two fields into buffers of the same sizes, and the salt, the digest and
the columns of the account fit where they are copied to.  So the credentials of a form that was
registered are accepted in every later state: `register_then_login`. -/

namespace Segnalacity

open CStr StateProg Sql Http HashTable

/-! ### Encoded fields -/

/-- The text of a field as it stands in the body, up to the byte that ends it. -/
def encodedField (src : Option Bytes) (paramName : Bytes) : Option Bytes :=
  (src.bind fun p => findField paramName true (cstr p)).map
    fun v => v.takeWhile fun c => !isDelimiter c

theorem urlDecode_takeWhile (room : ℕ) (v : Bytes) :
    urlDecode room (v.takeWhile fun c => !isDelimiter c) = urlDecode room v := by
  have hsplit := List.takeWhile_append_dropWhile (p := fun c => !isDelimiter c) (l := v)
  cases hrest : v.dropWhile fun c => !isDelimiter c with
  | nil =>
      rw [hrest, List.append_nil] at hsplit
      rw [hsplit]
  | cons t rest =>
      have hend : isDelimiter t = true := by
        have hhead := List.head?_dropWhile_not (fun c => !isDelimiter c) v
        rw [hrest] at hhead
        simpa using hhead
      have hdigit : isXDigit t = false := by
        revert hend
        unfold isDelimiter
        simp only [Bool.or_eq_true, decide_eq_true_eq]
        rintro ((((rfl | rfl) | rfl) | rfl) | rfl) <;> decide
      rw [hrest] at hsplit
      rcases (urlDecode_append hdigit rest room (v.takeWhile fun c => !isDelimiter c)).2 with
        heq | ⟨b, r, hstep, -⟩
      · rw [hsplit] at heq
        exact heq.symm
      · rw [decodeStep_delimiter rest hend] at hstep
        cases hstep

/-- Equal encodings are decoded alike. -/
theorem getField_congr {src src' : Option Bytes} {paramName : Bytes}
    (h : encodedField src paramName = encodedField src' paramName) (max : ℕ) :
    getField src paramName max = getField src' paramName max := by
  have hdecode : ∀ src : Option Bytes, getField src paramName max =
      ((encodedField src paramName).map (urlDecode (max - 1))).getD [] := by
    intro src
    unfold getField encodedField
    cases src.bind fun p => findField paramName true (cstr p) with
    | none => rfl
    | some v => exact (urlDecode_takeWhile _ v).symm
  rw [hdecode, hdecode, h]

/-! ### The cookie -/

/-- The cookie of a login. -/
def loginCookie (token : Bytes) : Bytes :=
  sessionCookieName ++ bytes "=" ++ token ++ bytes "; Path=/; HttpOnly; Max-Age=" ++
    showNat sessionMaxAge ++ bytes "; SameSite=Lax"

/-- The buffer of the handler holds it. -/
theorem loginCookie_fits (f : Fin 32 → Fin 16) :
    snprintf cookieMax (loginCookie (hexString f)) = loginCookie (hexString f) := by
  refine List.take_of_length_le ?_
  have hfixed : sessionCookieName.length + (bytes "=").length +
      (bytes "; Path=/; HttpOnly; Max-Age=").length + (showNat sessionMaxAge).length +
      (bytes "; SameSite=Lax").length = 51 := by decide
  have hlength := hexString_length f
  unfold loginCookie cookieMax
  simp only [List.length_append]
  omega

section platform

variable [Platform]

/-! ### The account -/

section account
variable {e : Env} {w w' : World} {req : HttpRequest} {resp resp' : HttpResponse}

theorem userRegister_inserts {username plain city : Bytes} {role : UserRole} {rc : ℤ}
    (h : userRegister username plain city role e w = (rc, w')) (hnew : w'.db.users ≠ w.db.users) :
    userRegister username plain city role e w = (0, w') := by
  rcases (userRegister_run h).2.2.2 with ⟨-, hdb⟩ | ⟨rfl, -⟩
  · exact absurd (congrArg Database.users hdb) hnew
  · exact h

/-- A registration that adds a row has drawn a salt and inserted the row of its form. -/
theorem routePostRegister_inserts (h : routePostRegister req resp e w = (resp', w'))
    (hnew : w'.db.users ≠ w.db.users) :
    ∃ w₁, w₁.db = w.db ∧ userRegister (formUsername req) (formPassword req) (formCity req)
      (formRole req) e w₁ = (0, w') := by
  rcases routePostRegister_cases h with ⟨-, rfl⟩ | ⟨-, rc, ⟨hadmin, h₁⟩ | ⟨-, h₁⟩⟩
  · exact absurd rfl hnew
  · obtain ⟨found, w₁, h₂, h₃⟩ := Prog.bind_run_iff.mp h₁
    have hdb := (firstRow_readsOnly h₂).db
    rcases Prog.ite_run_iff.mp h₃ with ⟨-, h₄⟩ | ⟨-, h₄⟩
    · obtain ⟨-, rfl⟩ := Prog.pure_run_iff.mp h₄
      exact absurd (congrArg Database.users hdb) hnew
    · rw [hadmin]
      exact ⟨w₁, hdb, userRegister_inserts h₄ (by rw [hdb]; exact hnew)⟩
  · exact ⟨w, rfl, userRegister_inserts h₁ hnew⟩

/-! ### The session -/

/-- The token gives the user back in every later state that keeps the session, up to its age. -/
def Verifies (e : Env) (w : World) (token : Bytes) (u : User) : Prop :=
  ∀ w', htGet w'.sessions (sessionKey token) = htGet w.sessions (sessionKey token) →
    e.clock w'.ctr.ticks - e.clock (w.ctr.ticks - 1) ≤ sessionMaxAge →
    (sessionVerify token e w').1 = some u

theorem verifies_of_get {token : Bytes} {u : User}
    (h : htGet w.sessions (sessionKey token) = some ⟨u, e.clock (w.ctr.ticks - 1)⟩) :
    Verifies e w token u := by
  intro w' hkept hage
  rw [h] at hkept
  rcases sessionVerify_run (Prod.mk.eta (p := sessionVerify token e w')).symm with
    ⟨hnone, -⟩ | ⟨s, hs, ⟨hexpired, -⟩ | ⟨-, hu, -⟩⟩
  · rw [hkept] at hnone
    cases hnone
  · obtain rfl := Option.some.inj (hkept.symm.trans hs)
    exact absurd hage (not_le.mpr hexpired)
  · obtain rfl := Option.some.inj (hkept.symm.trans hs)
    exact hu

/-- A login with the right credentials sets the cookie of a token that verifies. -/
theorem routePostLogin_accepts (hw : w.sessions.WF) {u : User} {w₁ : World}
    (hauth : userAuthenticate (formUsername req) (formPassword req) e w = (some u, w₁))
    (hs : w₁.sessions = w.sessions) (h : routePostLogin req resp e w = (resp', w')) :
    sessionCreate u e w₁ = (none, w') ∨ ∃ token, sessionCreate u e w₁ = (some token, w') ∧
      resp' = redirect resp (bytes "/home") (some (loginCookie token)) ∧ Verifies e w' token u := by
  obtain ⟨u', w₂, h₁, h₂⟩ := Prog.bind_run_iff.mp h
  obtain ⟨rfl, rfl⟩ := Prod.mk.inj (hauth.symm.trans h₁)
  obtain ⟨token, w₃, h₃, h₄⟩ := Prog.bind_run_iff.mp h₂
  cases token with
  | none =>
      obtain rfl := loginError_run h₄
      exact Or.inl h₃
  | some token =>
      obtain ⟨rfl, rfl⟩ := Prog.pure_run_iff.mp h₄
      have hw₁ : w₁.sessions.WF := hs ▸ hw
      rcases sessionCreate_run hw₁ h₃ with
        ⟨hnone, -⟩ | ⟨t, w₄, ht, ⟨f, rfl⟩, -, -, -, -, hticks, hget⟩
      · cases hnone
      obtain rfl := Option.some.inj ht
      refine Or.inr ⟨_, h₃, ?_, ?_⟩
      · show redirect resp _ (some (snprintf cookieMax (loginCookie (hexString f)))) = _
        rw [loginCookie_fits]
      · refine verifies_of_get ?_
        rw [hget, hticks, Nat.add_sub_cancel]
        exact Function.update_self ..

/-- A login that redirects has opened a session. -/
theorem routePostLogin_opened {u : User} {w₁ : World}
    (hauth : userAuthenticate (formUsername req) (formPassword req) e w = (some u, w₁))
    (hstatus : resp'.statusCode = 302) (h : routePostLogin req resp e w = (resp', w')) :
    (sessionCreate u e w₁).1 ≠ none := by
  obtain ⟨u', w₂, h₁, h₂⟩ := Prog.bind_run_iff.mp h
  obtain ⟨rfl, rfl⟩ := Prod.mk.inj (hauth.symm.trans h₁)
  obtain ⟨token, w₃, h₃, h₄⟩ := Prog.bind_run_iff.mp h₂
  rw [h₃]
  rintro rfl
  exact respRenderTpl_status h₄ hstatus

end account

/-! ### The result -/

section result
variable {e : Env} {w w₁ w₂ w₃ : World} {req lreq : HttpRequest}
  {resp resp₁ lresp lresp' : HttpResponse}

omit [Platform] in
theorem cursorToUser_formRow {row : UserRow} (hname : row.username = cstr (formUsername req))
    (hrole : row.role = (formRole req).toInt) (hcity : row.city = cstr (formCity req)) :
    (cursorToUser row).username = formUsername req ∧ (cursorToUser row).city = formCity req ∧
      (cursorToUser row).role = formRole req := by
  have hshort : Short (formUsername req) := short_getField req.bodyPtr (bytes "username=")
  have hshort' : Short (formCity req) := short_getField req.bodyPtr (bytes "city=")
  refine ⟨?_, ?_, ?_⟩
  · show strncpy row.username (usernameLen - 1) = _
    rw [hname, cstr_eq_self hshort.1]
    exact strncpy_eq_self hshort.1 hshort.2
  · show strncpy row.city (cityLen - 1) = _
    rw [hcity, cstr_eq_self hshort'.1]
    exact strncpy_eq_self hshort'.1 hshort'.2
  · show UserRole.ofInt row.role = _
    rw [hrole]
    rcases requestedRole_cases (getField req.bodyPtr (bytes "role=") 4) with h | h | h <;>
      simp [formRole, h, UserRole.toInt, UserRole.ofInt]

/-- **Registration, then login.** -/
theorem register_then_login {seed : UInt64} {tableOk poolOk : Bool}
    {sessions : HashTable Session} (h₀ : sessionInit seed tableOk poolOk = some sessions)
    {log : List ((HttpRequest × HttpResponse) × HttpResponse)}
    (hrun : Run answer e (emptyWorld sessions) log w)
    (hregister : routePostRegister req resp e w = (resp₁, w₁))
    (hnew : w₁.db.users ≠ w.db.users)
    {log' : List ((HttpRequest × HttpResponse) × HttpResponse)} (hlater : Run answer e w₁ log' w₂)
    (hname : encodedField lreq.bodyPtr (bytes "username=") =
      encodedField req.bodyPtr (bytes "username="))
    (hpassword : encodedField lreq.bodyPtr (bytes "password=") =
      encodedField req.bodyPtr (bytes "password="))
    (hopen : e.fails w₂.ctr.calls = false) (hnext : e.fails (w₂.ctr.calls + 1) = false)
    (hlogin : routePostLogin lreq lresp e w₂ = (lresp', w₃)) :
    ∃ u w', userAuthenticate (formUsername lreq) (formPassword lreq) e w₂ = (some u, w') ∧
      (u.username = formUsername req ∧ u.city = formCity req ∧ u.role = formRole req) ∧
      (sessionCreate u e w' = (none, w₃) ∨ ∃ token, sessionCreate u e w' = (some token, w₃) ∧
        lresp' = redirect lresp (bytes "/home") (some (loginCookie token)) ∧
        Verifies e w₃ token u) := by
  have hw : Consistent w := consistent h₀ hrun
  obtain ⟨hsessions, heffect⟩ := routePostRegister_effect hw.wf hregister
  have hw₁ : Consistent w₁ := hw.of_effect hsessions heffect
  obtain ⟨w₀, hdb, hinsert⟩ := routePostRegister_inserts hregister hnew
  obtain ⟨hfree, row, hrow, hrname, hrrole, hrcity, salt, hsalt, hs, hhash⟩ :=
    userRegister_row hinsert
  rw [hdb] at hfree hrow
  have hname' : formUsername lreq = formUsername req := getField_congr hname _
  have hpassword' : formPassword lreq = formPassword req := getField_congr hpassword _
  have hfirst : (selectUsersByName (formUsername lreq) w₂.db).head? = some row := by
    rw [hname']
    exact selectUsersByName_later hw₁ hrow (by rw [hrname]; exact hfree) hrname hlater
  have hright : constantTimeCompare (cursorToUser row).passwordHash
      (hashPassword (cursorToUser row).salt (formPassword lreq)) = true := by
    rw [hpassword']
    exact cursorToUser_password hsalt.le hs hhash
  cases hauth : userAuthenticate (formUsername lreq) (formPassword lreq) e w₂ with
  | mk u w' =>
      obtain rfl := userAuthenticate_accepts hfirst hright hopen hnext hauth
      have hread := (userAuthenticate_run hauth).1
      exact ⟨_, w', rfl, cursorToUser_formRow hrname hrrole hrcity,
        routePostLogin_accepts (hw₁.run hlater).wf hauth hread.sessions hlogin⟩

end result

end platform

/-! ### Ada -/

def adaRegister : HttpRequest :=
  (formRequest "/register" "" "username=ada&password=secret1&city=Torino&role=0").1

def adaLogin : HttpRequest := (formRequest "/login" "" "password=secret1&username=ada").1

/-- A login with another password, and another account that is opened and used. -/
def meanwhile : List (HttpRequest × HttpResponse) := [
  formRequest "/login" "" "username=ada&password=secret2",
  formRequest "/register" "" "username=bob&password=secret2&city=Torino&role=1",
  formRequest "/login" "" "username=bob&password=secret2"]

def adaOpened : HttpResponse × @World samplePlatform :=
  @routePostRegister samplePlatform adaRegister blankResponse townEnv
    (@emptyWorld samplePlatform noSessions)

def meanwhileRun : List ((HttpRequest × HttpResponse) × HttpResponse) × @World samplePlatform :=
  letI := samplePlatform
  Run.exec answer townEnv adaOpened.2 meanwhile

def adaLoggedIn : HttpResponse × @World samplePlatform :=
  @routePostLogin samplePlatform adaLogin blankResponse townEnv meanwhileRun.2

/-- The other password is refused, with a page that is not loaded here. -/
theorem meanwhile_statuses :
    letI := samplePlatform
    adaOpened.2.db.users.length = 1 ∧
      meanwhileRun.1.map (fun x => x.2.statusCode) = [500, 302, 302] ∧
      adaLoggedIn.1.statusCode = 302 := by
  decide +kernel

theorem adaLogin_fields :
    (encodedField adaLogin.bodyPtr (bytes "username="),
      encodedField adaLogin.bodyPtr (bytes "password=")) =
    (encodedField adaRegister.bodyPtr (bytes "username="),
      encodedField adaRegister.bodyPtr (bytes "password=")) := by
  decide +kernel

theorem register_then_login_ada :
    letI := samplePlatform
    meanwhileRun.1.map (fun x => x.2.statusCode) = [500, 302, 302] ∧
    ∃ u token, u.username = formUsername adaRegister ∧
      adaLoggedIn.1 = redirect blankResponse (bytes "/home") (some (loginCookie token)) ∧
      Verifies townEnv adaLoggedIn.2 token u := by
  let := samplePlatform
  obtain ⟨hlength, hmeanwhile, hstatus⟩ := meanwhile_statuses
  obtain ⟨hname, hpassword⟩ := Prod.mk.inj adaLogin_fields
  have hnew : adaOpened.2.db.users ≠ (emptyWorld noSessions).db.users := by
    intro hnil
    rw [hnil] at hlength
    cases hlength
  have hfails : ∀ n, @Env.fails samplePlatform townEnv n = false := fun _ => rfl
  have hlater : Run answer townEnv adaOpened.2 meanwhileRun.1 meanwhileRun.2 := Run.of_exec _ _ _ _
  have hlogin : routePostLogin adaLogin blankResponse townEnv meanwhileRun.2 =
      (adaLoggedIn.1, adaLoggedIn.2) := Prod.mk.eta.symm
  have hregister : routePostRegister adaRegister blankResponse townEnv (emptyWorld noSessions) =
      (adaOpened.1, adaOpened.2) := Prod.mk.eta.symm
  obtain ⟨u, w', hauth, huser, hsession⟩ := register_then_login sessionInit_noSessions .nil hregister
    hnew hlater hname hpassword (hfails _) (hfails _) hlogin
  have hopened := routePostLogin_opened hauth hstatus hlogin
  rcases hsession with hnone | ⟨token, -, hresponse, hverifies⟩
  · exact absurd (congrArg Prod.fst hnone) hopened
  · exact ⟨hmeanwhile, u, token, huser.1, hresponse, hverifies⟩

end Segnalacity
