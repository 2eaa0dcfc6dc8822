import Segnalacity.GeoLoad
import Segnalacity.Http.Form
import Segnalacity.Registration

/-! # Listed municipalities

A name that the loader has listed comes back in the form of a registration, where `get_field`
cuts it to the 31 bytes of a `CITY_LEN` field before it is looked up.  From there it is kept: the
column, the row mapper and the session have the same length.  So a listed municipality can be used
exactly when its name is not empty and not longer than that: `city_usable_iff`. -/

namespace Segnalacity

open CStr StateProg Sql Http HashTable

section platform

variable [Platform]

/-! ### Forms -/

/-- The body of the request encodes the form. -/
def Carries (req : HttpRequest) (form : List (Bytes × Bytes)) : Prop :=
  ∃ src, req.bodyPtr = some src ∧ EncodesForm form (cstr src)

/-- The form of a citizen. -/
def registerForm (username password city : Bytes) : List (Bytes × Bytes) :=
  [(bytes "username", username), (bytes "password", password), (bytes "city", city),
    (bytes "role", bytes "0")]

def loginForm (username password : Bytes) : List (Bytes × Bytes) :=
  [(bytes "username", username), (bytes "password", password)]

/-- A POST request for `path` with a form. -/
structure Posts (req : HttpRequest) (path : Bytes) (form : List (Bytes × Bytes)) : Prop where
  method : req.method.text = bytes "POST"
  path : req.path.text = path
  form : Carries req form

omit [Platform] in
theorem Carries.field {req : HttpRequest} {form : List (Bytes × Bytes)} (h : Carries req form)
    {k : Bytes} (hk : ∀ c ∈ k, isPlain c = true) (max : ℕ) :
    Http.getField req.bodyPtr (k ++ [61]) max = (formValue k form).take (max - 1) := by
  obtain ⟨src, hsrc, hform⟩ := h
  rw [hsrc]
  exact hform.field hk max

section registration
variable {req : HttpRequest} {username password city : Bytes}

omit [Platform] in
theorem Carries.formUsername (h : Carries req (registerForm username password city)) :
    formUsername req = username.take 31 :=
  h.field (k := bytes "username") (by decide) usernameLen

omit [Platform] in
theorem Carries.formPassword (h : Carries req (registerForm username password city)) :
    formPassword req = password.take 127 :=
  h.field (k := bytes "password") (by decide) pwdPlainLen

omit [Platform] in
theorem Carries.formCity (h : Carries req (registerForm username password city)) :
    formCity req = city.take 31 :=
  h.field (k := bytes "city") (by decide) cityLen

omit [Platform] in
theorem Carries.formRole (h : Carries req (registerForm username password city)) :
    formRole req = .citizen := by
  have hrole : Http.getField req.bodyPtr (bytes "role=") 4 = bytes "0" :=
    h.field (k := bytes "role") (by decide) 4
  unfold Segnalacity.formRole
  rw [hrole]
  decide

end registration

theorem handleRequest_register {req : HttpRequest} {resp : HttpResponse}
    (hmethod : req.method.text = bytes "POST") (hpath : req.path.text = bytes "/register") :
    handleRequest req resp = routePostRegister req resp := by
  refine handleRequest_first 6 (bytes "POST") (bytes "/register") rfl (fun x hx => ?_)
    (decide_eq_true hpath) (decide_eq_true hmethod)
  unfold httpIsRequestPath httpIsRequestMethod
  rw [hpath, hmethod]
  have hall : ∀ x ∈ (routes.take 6).map fun r => (r.path, r.method),
      decide (bytes "/register" = x.1) = false ∨ decide (bytes "POST" = x.2) = false := by
    have heq : ((routes.take 6).map fun r => (r.path, r.method)) = [
        (bytes "/", bytes "GET"), (bytes "/home", bytes "GET"), (bytes "/register", bytes "GET"),
        (bytes "/submit", bytes "GET"), (bytes "/logout", bytes "GET"),
        (bytes "/login", bytes "POST")] := rfl
    rw [heq]
    decide
  exact hall _ (List.mem_map_of_mem hx)

theorem handleRequest_login {req : HttpRequest} {resp : HttpResponse}
    (hmethod : req.method.text = bytes "POST") (hpath : req.path.text = bytes "/login") :
    handleRequest req resp = routePostLogin req resp :=
  handleRequest_eq 5 (bytes "POST") (bytes "/login") rfl (by decide) (decide_eq_true hpath)
    (decide_eq_true hmethod)

/-! ### The account -/

section account
variable {e : Env} {w w' : World} {req : HttpRequest} {resp resp' : HttpResponse}

/-- An accepted form of a citizen is registered. -/
theorem routePostRegister_citizen (hform : Accepted e req) (hrole : formRole req = .citizen)
    (h : routePostRegister req resp e w = (resp', w')) :
    ∃ rc, userRegister (formUsername req) (formPassword req) (formCity req) .citizen e w =
      (rc, w') := by
  rcases routePostRegister_cases h with ⟨hno, -⟩ | ⟨-, rc, ⟨hadmin, -⟩ | ⟨-, h₁⟩⟩
  · exact absurd hform hno
  · rw [hrole] at hadmin
    cases hadmin
  · rw [hrole] at h₁
    exact ⟨rc, h₁⟩

/-- The row of the form, when the statement of the insertion does not fail. -/
theorem routePostRegister_row (hform : Accepted e req) (hrole : formRole req = .citizen)
    (hfree : ∀ row ∈ w.db.users, row.username ≠ formUsername req)
    (hseq : w.db.userSeq < 2 ^ 63 - 1) (hok : e.fails w.ctr.calls = false)
    (h : routePostRegister req resp e w = (resp', w')) :
    w'.db.users = w.db.users ++ [formRow req (w.db.userSeq + 1)
      (cstr (hashPassword (hexString (e.salt w.ctr.salts)) (formPassword req)))
      (cstr (hexString (e.salt w.ctr.salts)))] := by
  obtain ⟨rc, hregister⟩ := routePostRegister_citizen hform hrole h
  obtain ⟨salt, w₁, h₁, h₂⟩ := Prog.bind_run_iff.mp hregister
  obtain ⟨rfl, rfl⟩ := generateSalt_run h₁
  have hname : cstr (formUsername req) = formUsername req :=
    cstr_eq_self (short_getField req.bodyPtr (bytes "username=")).1
  have hcity : cstr (formCity req) = formCity req :=
    cstr_eq_self (short_getField req.bodyPtr (bytes "city=")).1
  rcases dbExec_run h₂ with ⟨-, -, hfail | hnone⟩ | ⟨-, -, db, hins, rfl⟩
  · rw [show e.fails w.ctr.calls = true from hfail] at hok
    cases hok
  · rcases insertUser_eq_none hnone with ⟨row, hrow, htaken⟩ | hfull
    · exact absurd (htaken.trans hname) (hfree row hrow)
    · exact absurd hseq hfull
  · obtain ⟨-, id, hid, hnew⟩ := insertUser_eq_some hins
    have hid' : nextRowid w.db.userSeq = some (w.db.userSeq + 1) := if_pos hseq
    obtain rfl : w.db.userSeq + 1 = id := Option.some.inj (hid'.symm.trans hid)
    rw [hname, hcity] at hnew
    show db.users = _
    rw [hnew, formRow, hrole]

end account

/-! ### Using a listed name -/

/-- The loader has put the name into the table of the application and into the list of cities. -/
def Listed [GeoPlatform] (e : Env) (name : Bytes) : Prop :=
  ∃ inp hash seed tableOk poolOk n names,
    geoInit inp hash seed tableOk poolOk = some (n, some e.cityTable, some names) ∧
    name ∈ names ∧ (htGet e.cityTable (geoKey name)).isSome = true

/-- The registration `w ⟶ w₁` from a form has made an account in the city, and from then on, whatever
is requested in between, this account can log in and its sessions are in the city. -/
structure CityUsable (e : Env) (req : HttpRequest) (w w₁ : World)
    (username password city : Bytes) : Prop where
  known : (geoLookup (formCity req) e w).1.isSome = true
  account : ∃ row, w₁.db.users = w.db.users ++ [row] ∧ row.username = username.take 31 ∧
    row.role = 0 ∧ row.city = city
  login : ∀ log w₂, Run answer e w₁ log w₂ → e.fails w₂.ctr.calls = false →
    e.fails (w₂.ctr.calls + 1) = false →
    ∃ u, (userAuthenticate (username.take 31) (password.take 127) e w₂).1 = some u ∧ u.city = city
  session : ∀ log w₂, Run answer e w₁ log w₂ → ∀ lreq lresp lresp' w₃,
    Posts lreq (bytes "/login") (loginForm username password) →
    handleRequest lreq lresp e w₂ = (lresp', w₃) → ∀ key s, htGet w₃.sessions key = some s →
      htGet w₂.sessions key = some s ∨ s.user.city = city

section usable
variable {e : Env} {w w₁ : World} {req : HttpRequest} {resp resp₁ : HttpResponse}
  {username password city : Bytes}

/-- The form of a short name passes every check. -/
theorem Carries.accepted (h : Carries req (registerForm username password city))
    (hgeo : (htGet e.cityTable (geoKey city)).isSome = true) (hname : username ≠ [])
    (hpw : 6 ≤ password.length) (hcity : 1 ≤ city.length ∧ city.length ≤ 31) :
    Accepted e req := by
  have hpassword := congrArg List.length h.formPassword
  rw [List.length_take] at hpassword
  have hcity' := h.formCity
  rw [List.take_of_length_le hcity.2] at hcity'
  refine ⟨?_, ⟨fun hnil => ?_, by omega⟩, fun hnil => ?_, by rw [hcity']; exact hgeo⟩
  · rw [h.formUsername]
    intro hnil
    rcases List.take_eq_nil_iff.mp hnil with h0 | h0
    · exact absurd h0 (by decide)
    · exact hname h0
  · rw [hnil, List.length_nil] at hpassword
    omega
  · rw [hcity'] at hnil
    rw [hnil] at hcity
    exact absurd hcity.1 (by decide)

/-- The account of a registered row, after any further requests. -/
theorem selectUsersByName_later (hw₁ : Consistent w₁) {row : UserRow}
    (hrow : w₁.db.users = w.db.users ++ [row])
    (hfree : ∀ x ∈ w.db.users, x.username ≠ row.username) {name : Bytes}
    (hname : row.username = cstr name)
    {log : List ((HttpRequest × HttpResponse) × HttpResponse)} {w₂ : World}
    (hrun : Run answer e w₁ log w₂) : (selectUsersByName name w₂.db).head? = some row := by
  obtain ⟨after, hafter⟩ := users_kept hw₁ hrun
  rw [hrow, List.append_assoc, List.singleton_append] at hafter
  exact selectUsersByName_row hafter.symm hfree hname

theorem Consistent.run (hw : Consistent w)
    {log : List ((HttpRequest × HttpResponse) × HttpResponse)} {w₂ : World}
    (hrun : Run answer e w log w₂) : Consistent w₂ := by
  refine hrun.invariant (I := fun _ w => Consistent w) hw ?_
  intro log w x resp' w' hw h
  exact hw.step h

/-- A short name can be used. -/
theorem Posts.usable (hpost : Posts req (bytes "/register") (registerForm username password city))
    (hw : Consistent w) (hgeo : (htGet e.cityTable (geoKey city)).isSome = true)
    (hname : username ≠ []) (hfree : ∀ row ∈ w.db.users, row.username ≠ username.take 31)
    (hpw : 6 ≤ password.length) (hcity : 1 ≤ city.length ∧ city.length ≤ 31)
    (hok : e.fails w.ctr.calls = false) (hseq : w.db.userSeq < 2 ^ 63 - 1)
    (h : handleRequest req resp e w = (resp₁, w₁)) :
    CityUsable e req w w₁ username password city := by
  have hw₁ : Consistent w₁ := hw.step h
  rw [handleRequest_register hpost.method hpost.path] at h
  have hform : Accepted e req := hpost.form.accepted hgeo hname hpw hcity
  have hcity' : formCity req = city := by
    rw [hpost.form.formCity, List.take_of_length_le hcity.2]
  have hfree' : ∀ row ∈ w.db.users, row.username ≠ formUsername req := by
    rw [hpost.form.formUsername]
    exact hfree
  have hrow := routePostRegister_row hform hpost.form.formRole hfree' hseq hok h
  have hzero : cstr (formUsername req) = formUsername req :=
    cstr_eq_self (short_getField req.bodyPtr (bytes "username=")).1
  -- the row is the first one of its name from now on
  have hlater : ∀ {log : List ((HttpRequest × HttpResponse) × HttpResponse)} {w₂ : World},
      Run answer e w₁ log w₂ → (selectUsersByName (formUsername req) w₂.db).head? = some _ :=
    fun hrun => selectUsersByName_later hw₁ hrow hfree' hzero.symm hrun
  have hsnapshot : ∀ {id : ℤ} {hash salt : Bytes},
      (cursorToUser (formRow req id hash salt)).city = city := by
    intro id hash salt
    have hshort : Short (formCity req) := short_getField req.bodyPtr (bytes "city=")
    exact (strncpy_eq_self hshort.1 hshort.2).trans hcity'
  refine ⟨hform.geo, ⟨_, hrow, hpost.form.formUsername, ?_, hcity'⟩, ?_, ?_⟩
  · show (formRole req).toInt = 0
    rw [hpost.form.formRole]
    rfl
  · intro log w₂ hrun hf hf'
    have hlogin := hlater hrun
    rw [hpost.form.formUsername] at hlogin
    refine ⟨_, userAuthenticate_accepts hlogin ?_ hf hf' rfl, hsnapshot⟩
    rw [← hpost.form.formPassword]
    exact cursorToUser_password (hexString_length _).le rfl rfl
  · intro log w₂ hrun lreq lresp lresp' w₃ hlpost hlogin key s hs
    rw [handleRequest_login hlpost.method hlpost.path] at hlogin
    have hlname : formUsername lreq = formUsername req :=
      (hlpost.form.field (k := bytes "username") (by decide) usernameLen).trans
        hpost.form.formUsername.symm
    rcases (routePostLogin_run (hw₁.run hrun).wf hlogin).2.2.2 key s hs with hold | ⟨row, hfirst, hu⟩
    · exact Or.inl hold
    · right
      rw [show getField lreq.bodyPtr (bytes "username=") usernameLen = formUsername req from hlname,
        hlater hrun] at hfirst
      rw [hu, ← Option.some.inj hfirst, hsnapshot]

/-- **Listed municipalities.**  A citizen can use a listed name when it is not empty and fits the
field of a form, and the row can be inserted. -/
theorem city_usable_iff [GeoPlatform] {seed : UInt64} {tableOk poolOk : Bool}
    {sessions : HashTable Session} (h₀ : sessionInit seed tableOk poolOk = some sessions)
    {log : List ((HttpRequest × HttpResponse) × HttpResponse)}
    (hrun : Run answer e (emptyWorld sessions) log w) (hlisted : Listed e city)
    (hname : username ≠ []) (hfree : ∀ row ∈ w.db.users, row.username ≠ username.take 31)
    (hpw : 6 ≤ password.length ∧ password.length ≤ 127)
    (hpost : Posts req (bytes "/register") (registerForm username password city))
    (h : handleRequest req resp e w = (resp₁, w₁)) :
    CityUsable e req w w₁ username password city ↔
      (1 ≤ city.length ∧ city.length ≤ 31) ∧ e.fails w.ctr.calls = false ∧
        w.db.userSeq < 2 ^ 63 - 1 := by
  obtain ⟨-, -, -, -, -, -, -, -, -, hgeo⟩ := hlisted
  constructor
  · intro husable
    obtain ⟨row, hrow, -, -, hcity⟩ := husable.account
    rw [handleRequest_register hpost.method hpost.path] at h
    have hregisters := routePostRegister_registers h
    cases hregisters with
    | refused _ hsame =>
        rw [hsame] at hrow
        exact absurd hrow (by simp)
    | inserted n hash salt hins hcall hok hnew =>
        rw [hrow] at hnew
        obtain rfl := List.singleton_inj.mp (List.append_cancel_left hnew)
        have hcity' : formCity req = city := hcity
        have hrole : formRole req ≠ .admin := by
          rw [hpost.form.formRole]
          decide
        obtain rfl := hcall.unique (.direct hrole)
        refine ⟨⟨?_, ?_⟩, hok, hins.seq⟩
        · rw [← hcity']
          exact List.length_pos_of_ne_nil hins.form.city
        · rw [← hcity']
          exact (short_getField req.bodyPtr (bytes "city=")).2
  · rintro ⟨hcity, hok, hseq⟩
    exact hpost.usable (consistent h₀ hrun) hgeo hname hfree hpw.1 hcity hok hseq h

end usable

end platform

/-! ### A name that fits and a name that does not -/

def lodi : String := "Lodi"

def primiero : String := "Primiero San Martino di Castrozza"

/-- `cJSON` on a file with both. -/
@[reducible] def listedGeoPlatform : @GeoPlatform samplePlatform :=
  letI := samplePlatform
  { sampleGeoPlatform with
    parseWithLength := fun data =>
      if data = mapText lodi primiero then some (mapTree lodi primiero) else none }

def listedInit : Option (ℤ × Option (HashTable (@CityGeo samplePlatform)) × Option (List Bytes)) :=
  @geoInit samplePlatform listedGeoPlatform (mapLoad lodi primiero) hashKey 7 true true

def listedEnv : @Env samplePlatform :=
  letI := samplePlatform
  { sampleEnv with cityTable := (listedInit.bind fun r => r.2.1).getD emptyCities }

/-- The request for `path` with a form. -/
def postRequest (path : String) (form : List (Bytes × Bytes)) : HttpRequest :=
  (httpRequestParse (formRaw (bytes path) [] (formEncode form))).getD
    ⟨[], ⟨0, []⟩, ⟨0, []⟩, [], 0, none, 0⟩

def adaForm (city : String) : List (Bytes × Bytes) :=
  registerForm (bytes "ada") (bytes "secret1") (bytes city)

def adaRegistered (city : String) : HttpResponse × @World samplePlatform :=
  @handleRequest samplePlatform (postRequest "/register" (adaForm city)) blankResponse listedEnv
    (@emptyWorld samplePlatform noSessions)

theorem listedInit_eq {n : ℤ} {names : List Bytes}
    (h : listedInit.map (fun r => (r.1, r.2.1.isSome, r.2.2)) = some (n, true, some names)) :
    listedInit = some (n, some (@Env.cityTable samplePlatform listedEnv), some names) := by
  obtain ⟨⟨n', table, names'⟩, hinit, hr⟩ := Option.map_eq_some_iff.mp h
  obtain ⟨rfl, hr'⟩ := Prod.mk.inj hr
  obtain ⟨htable, rfl⟩ := Prod.mk.inj hr'
  obtain ⟨t, rfl⟩ := Option.isSome_iff_exists.mp htable
  rw [listedEnv, hinit]
  rfl

theorem listedInit_facts :
    letI := samplePlatform
    listedInit.map (fun r => (r.1, r.2.1.isSome, r.2.2)) =
      some (2, true, some [bytes lodi, bytes primiero]) ∧
    ∀ city ∈ [lodi, primiero], (htGet listedEnv.cityTable (geoKey (bytes city))).isSome = true := by
  decide +kernel

theorem listed_of_mem {city : String} (hmem : city ∈ [lodi, primiero]) :
    @Listed samplePlatform listedGeoPlatform listedEnv (bytes city) :=
  ⟨_, _, _, _, _, _, _, listedInit_eq listedInit_facts.1, List.mem_map_of_mem hmem,
    listedInit_facts.2 city hmem⟩

theorem adaForm_facts : ∀ city ∈ [lodi, primiero],
    (fun req : HttpRequest => (req.method.text, req.path.text, req.bodyPtr))
      (postRequest "/register" (adaForm city)) =
        (bytes "POST", bytes "/register", some (formEncode (adaForm city))) ∧
    cstr (formEncode (adaForm city)) = formEncode (adaForm city) ∧
    ∀ p ∈ adaForm city, FormPair p := by
  decide +kernel

theorem posts_adaForm {city : String} (hmem : city ∈ [lodi, primiero]) :
    Posts (postRequest "/register" (adaForm city)) (bytes "/register") (adaForm city) := by
  obtain ⟨hrequest, hzero, hpairs⟩ := adaForm_facts city hmem
  obtain ⟨hmethod, hrest⟩ := Prod.mk.inj hrequest
  obtain ⟨hpath, hbody⟩ := Prod.mk.inj hrest
  refine ⟨hmethod, hpath, _, hbody, ?_⟩
  rw [hzero]
  exact encodesForm_formEncode (adaForm city) hpairs

theorem lodi_mem : lodi ∈ [lodi, primiero] := List.mem_cons_self

theorem primiero_mem : primiero ∈ [lodi, primiero] := List.mem_cons_of_mem _ (List.mem_singleton_self _)

theorem handleRequest_ada (city : String) :
    @handleRequest samplePlatform (postRequest "/register" (adaForm city)) blankResponse listedEnv
      (@emptyWorld samplePlatform noSessions) =
      ((adaRegistered city).1, (adaRegistered city).2) := by
  unfold adaRegistered
  exact Prod.mk.eta.symm

theorem city_usable_iff_lodi :
    letI := samplePlatform
    CityUsable listedEnv (postRequest "/register" (adaForm lodi)) (emptyWorld noSessions)
      (adaRegistered lodi).2 (bytes "ada") (bytes "secret1") (bytes lodi) := by
  let := samplePlatform
  let := listedGeoPlatform
  have h := city_usable_iff (e := listedEnv) (w := emptyWorld noSessions) sessionInit_noSessions
    .nil (listed_of_mem lodi_mem) (by decide) (fun _ hrow => absurd hrow List.not_mem_nil) (by decide)
    (posts_adaForm lodi_mem) (handleRequest_ada lodi)
  exact h.mpr ⟨by decide, rfl, show (0 : ℤ) < 2 ^ 63 - 1 by decide⟩

theorem primiero_facts :
    letI := samplePlatform
    (geoLookup (formCity (postRequest "/register" (adaForm primiero))) listedEnv
      (emptyWorld noSessions)).1.isNone = true ∧
    (adaRegistered primiero).2.db.users = [] := by decide +kernel

/-- A shipped name of 33 bytes is listed, and its registration is refused. -/
theorem primiero_unusable :
    letI := samplePlatform
    letI := listedGeoPlatform
    Listed listedEnv (bytes primiero) ∧
    Posts (postRequest "/register" (adaForm primiero)) (bytes "/register") (adaForm primiero) ∧
    (geoLookup (formCity (postRequest "/register" (adaForm primiero))) listedEnv
      (emptyWorld noSessions)).1.isNone = true ∧
    (adaRegistered primiero).2.db.users = [] ∧
    ¬ CityUsable listedEnv (postRequest "/register" (adaForm primiero)) (emptyWorld noSessions)
      (adaRegistered primiero).2 (bytes "ada") (bytes "secret1") (bytes primiero) := by
  let := samplePlatform
  let := listedGeoPlatform
  obtain ⟨hunknown, husers⟩ := primiero_facts
  refine ⟨listed_of_mem primiero_mem, posts_adaForm primiero_mem, hunknown, husers, fun husable => ?_⟩
  obtain ⟨row, hrow, -⟩ := husable.account
  rw [husers] at hrow
  exact absurd hrow (by simp)

end Segnalacity
