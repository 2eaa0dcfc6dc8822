import Segnalacity.Routes.Endpoints
import Segnalacity.Routes.Handler

/-! # What a request does to the data

`handleRequest_effect`: whatever the request, the database is left alone, or gets one user from a
registration, one report from a submission, or the outcome of one of the four writing endpoints;
the report cache changes only with a list or a write; and every session stored afterwards was
stored before or is a snapshot of a registered user. -/

namespace Segnalacity

open CStr StateProg Sql Http HashTable

/-! ### Forms -/

/-- A text that fits a buffer of 32 bytes. -/
def Short (s : Bytes) : Prop := (0 : UInt8) ∉ s ∧ s.length ≤ 31

theorem requestedRole_cases (s : Bytes) :
    requestedRole s = .citizen ∨ requestedRole s = .operator ∨ requestedRole s = .admin := by
  unfold requestedRole
  dsimp only
  split_ifs <;> simp

theorem short_getField (src : Option Bytes) (name : Bytes) : Short (getField src name 32) :=
  ⟨zero_notMem_getField _ _ _, getField_length_le _ _ _⟩

def formUsername (req : HttpRequest) : Bytes :=
  getField req.bodyPtr (bytes "username=") usernameLen

def formPassword (req : HttpRequest) : Bytes :=
  getField req.bodyPtr (bytes "password=") pwdPlainLen

def formCity (req : HttpRequest) : Bytes := getField req.bodyPtr (bytes "city=") cityLen

def formRole (req : HttpRequest) : UserRole := requestedRole (getField req.bodyPtr (bytes "role=") 4)

variable [Platform]

/-- The form passes every check before the database is asked. -/
structure Accepted (e : Env) (req : HttpRequest) : Prop where
  username : formUsername req ≠ []
  password : formPassword req ≠ [] ∧ 6 ≤ (formPassword req).length
  city : formCity req ≠ []
  geo : (htGet e.cityTable (geoKey (formCity req))).isSome = true

omit [Platform] in
theorem formFilled_iff {req : HttpRequest} :
    ¬ (formUsername req = [] || formPassword req = [] || formCity req = []) = true ↔
      formUsername req ≠ [] ∧ formPassword req ≠ [] ∧ formCity req ≠ [] := by
  simp only [Bool.or_eq_true, decide_eq_true_eq, not_or, and_assoc, ne_eq]

theorem Accepted.filled {e : Env} {req : HttpRequest} (h : Accepted e req) :
    ¬ (formUsername req = [] || formPassword req = [] || formCity req = []) = true :=
  formFilled_iff.mpr ⟨h.username, h.password.1, h.city⟩

theorem Accepted.not_isNone {e : Env} {req : HttpRequest} (h : Accepted e req) :
    ¬ (htGet e.cityTable (geoKey (formCity req))).isNone = true := by
  rw [Bool.not_eq_true, Option.isNone_eq_false_iff]
  exact h.geo

theorem accepted_of_checks {e : Env} {req : HttpRequest}
    (hfilled : ¬ (formUsername req = [] || formPassword req = [] || formCity req = []) = true)
    (hlong : ¬ (formPassword req).length < 6)
    (hknown : ¬ (htGet e.cityTable (geoKey (formCity req))).isNone = true) : Accepted e req := by
  obtain ⟨hname, hpassword, hcity⟩ := formFilled_iff.mp hfilled
  rw [Bool.not_eq_true, Option.isNone_eq_false_iff] at hknown
  exact ⟨hname, ⟨hpassword, not_lt.mp hlong⟩, hcity, hknown⟩

/-! ### Lists leave the data alone -/

/-- The tables, the sessions and the report cache. -/
def World.stored (w : World) : Database × HashTable Session × List CacheEntry :=
  (w.db, w.sessions, w.cache)

/-- The tables and the sessions. -/
def World.data (w : World) : Database × HashTable Session := (w.db, w.sessions)

section keeps

theorem keeps_now : Prog.Keeps World.stored now := fun _ _ => rfl

theorem keeps_attempt : Prog.Keeps World.stored attempt := fun _ _ => rfl

theorem keeps_attemptAlloc : Prog.Keeps World.stored attemptAlloc := fun _ _ => rfl

theorem keeps_dbCursorOpen {α : Type} (query : Database → List α) :
    Prog.Keeps World.stored (dbCursorOpen query) :=
  keeps_attempt.bind fun _ => (Prog.keeps_view _ _).ite (Prog.keeps_pure _ _)

theorem keeps_drainRows {α β : Type} {body : α → App (List β)}
    (hbody : ∀ r, Prog.Keeps World.stored (body r)) (rows : List α) :
    Prog.Keeps World.stored (drainRows body rows) := by
  induction rows with
  | nil => exact keeps_attempt.bind fun _ => Prog.keeps_pure _ _
  | cons r rows ih =>
      exact keeps_attempt.bind fun _ =>
        ((hbody r).bind fun _ => ih.bind fun _ => Prog.keeps_pure _ _).ite (Prog.keeps_pure _ _)

theorem keeps_drainCursor {α β : Type} {body : α → App (List β)}
    (hbody : ∀ r, Prog.Keeps World.stored (body r)) (c : Option (List α)) :
    Prog.Keeps World.stored (drainCursor body c) := by
  cases c with
  | none => exact Prog.keeps_pure _ _
  | some rows => exact keeps_drainRows hbody rows

theorem keeps_jsonAddFields (fields : List (Bytes × JsonValue Double)) :
    Prog.Keeps World.stored (jsonAddFields fields) := by
  induction fields with
  | nil => exact Prog.keeps_pure _ _
  | cons f fields ih => exact keeps_attemptAlloc.bind fun _ => ih.bind fun _ => Prog.keeps_pure _ _

theorem keeps_reportToCjson (r : Report) : Prog.Keeps World.stored (reportToCjson r) :=
  keeps_attemptAlloc.bind fun _ =>
    ((keeps_jsonAddFields _).bind fun _ => Prog.keeps_pure _ _).ite (Prog.keeps_pure _ _)

theorem keeps_cursorToJsonArray (c : Option (List ReportRow)) (buf : Bytes) (max : ℕ) :
    Prog.Keeps World.stored (cursorToJsonArray c buf max) :=
  keeps_attemptAlloc.bind fun _ => (Prog.keeps_pure _ _).ite
    ((keeps_drainCursor (fun _ => (keeps_reportToCjson _).bind fun _ => Prog.keeps_pure _ _) c).bind
      fun _ => Prog.keeps_pure _ _)

theorem data_of_stored {α : Type} {m : App α} (h : Prog.Keeps World.stored m) :
    Prog.Keeps World.data m := h.comp fun s => (s.1, s.2.1)

theorem keeps_cacheUpdate (f : World → List CacheEntry) :
    Prog.Keeps World.data (Prog.update fun w => { w with cache := f w } : App Unit) :=
  Prog.keeps_update fun _ => rfl

theorem keeps_cacheStore (city : Bytes) (userId : UInt64) (isOperator isArchived : Bool)
    (json : Bytes) : Prog.Keeps World.data (cacheStore city userId isOperator isArchived json) :=
  (Prog.keeps_pure _ _).ite ((data_of_stored keeps_now).bind fun _ => keeps_cacheUpdate _)

theorem keeps_cachedList (query : UInt64 → Bool → Database → List ReportRow) (isArchived : Bool)
    (buf : Bytes) (max : ℕ) (userId : UInt64) (city : Bytes) (isOperator : Bool) :
    Prog.Keeps World.data (cachedList query isArchived buf max userId city isOperator) := by
  refine (data_of_stored keeps_now).bind fun t => (Prog.keeps_view _ _).bind fun hit =>
    (keeps_cacheUpdate _).bind fun _ => ?_
  cases hit with
  | some entry => exact Prog.keeps_pure _ _
  | none =>
      exact (data_of_stored (keeps_dbCursorOpen _)).bind fun c =>
        (data_of_stored (keeps_cursorToJsonArray c buf max)).bind fun _ =>
          ((keeps_cacheStore _ _ _ _ _).bind fun _ => Prog.keeps_pure _ _).ite (Prog.keeps_pure _ _)

theorem keeps_allCityItem (x : ReportRow × Bytes) : Prog.Keeps World.stored (allCityItem x) := by
  refine (keeps_reportToCjson _).bind fun obj => ?_
  cases obj with
  | none => exact Prog.keeps_pure _ _
  | some obj => exact (keeps_jsonAddFields _).bind fun _ => Prog.keeps_pure _ _

theorem keeps_reportGetAllCityJson (buf : Bytes) (max : ℕ) (city : Bytes) :
    Prog.Keeps World.stored (reportGetAllCityJson buf max city) := by
  refine (keeps_dbCursorOpen _).bind fun c => ?_
  cases c with
  | none => exact Prog.keeps_pure _ _
  | some rows =>
      exact keeps_attemptAlloc.bind fun _ => (Prog.keeps_pure _ _).ite
        ((keeps_drainRows keeps_allCityItem rows).bind fun _ => Prog.keeps_pure _ _)

theorem keeps_operatorItem (row : UserRow) : Prog.Keeps World.stored (operatorItem row) :=
  keeps_attemptAlloc.bind fun _ =>
    ((keeps_jsonAddFields _).bind fun _ => Prog.keeps_pure _ _).ite (Prog.keeps_pure _ _)

theorem keeps_userGetOperatorsJson (buf : Bytes) (max : ℕ) (city : Bytes) :
    Prog.Keeps World.stored (userGetOperatorsJson buf max city) := by
  refine (keeps_dbCursorOpen _).bind fun c => ?_
  cases c with
  | none => exact (Prog.keeps_pure _ _).ite (Prog.keeps_pure _ _)
  | some rows =>
      refine keeps_attemptAlloc.bind fun root => (keeps_drainRows keeps_operatorItem rows).bind
        fun items => (Prog.keeps_pure _ _).ite ?_
      cases Platform.printPreallocated items max with
      | none => exact Prog.keeps_pure _ _
      | some text => exact Prog.keeps_pure _ _

end keeps

/-! ### Effects -/

/-- Sessions are kept, dropped, or new snapshots of registered users. -/
structure SessionsFrom (w w' : World) : Prop where
  wf : w'.sessions.WF
  get : ∀ key s, htGet w'.sessions key = some s → htGet w.sessions key = some s ∨
    ∃ row ∈ w.db.users, s.user = cursorToUser row

/-- The query behind a cached list. -/
def listQuery (isArchived : Bool) : UInt64 → Bool → Database → List ReportRow :=
  if isArchived then selectArchived else selectActive

/-- What one request does to the database and the report cache. -/
inductive Effect (e : Env) (req : HttpRequest) (w w' : World) : Prop
  | same : w'.db = w.db → w'.cache = w.cache → Effect e req w w'
  | listed (u : User) (isArchived : Bool) (buf : Bytes) (r : ℕ × Bytes) (w₁ : World) :
      LoggedInAs e w req u → w₁.db = w.db → w₁.cache = w.cache → w'.db = w.db →
      cachedList (listQuery isArchived) isArchived buf responseBufferSize u.userId u.city
        (userIsOperator u) e w₁ = (r, w') → Effect e req w w'
  | registered (username hash city salt : Bytes) (role : UserRole) : Short username → Short city →
      (role = .citizen ∨ role = .operator ∨ role = .admin) →
      insertUser username hash role.toInt city salt w.db = some w'.db → w'.cache = w.cache →
      Effect e req w w'
  | submitted (u : User) (lat lon : Double) (category desc : Bytes) (t : ℤ) :
      LoggedInAs e w req u → userIsOperator u = false → userIsAdmin u = false →
      insertReport u.userId lat lon u.city category desc t w.db = some w'.db →
      (0 < w'.db.reportSeq → w'.cache = w.cache.map (invalidateEntry u.city u.userId)) →
      Effect e req w w'
  | wrote (ep : Endpoint) (u : User) (w₁ : World) (rc : ℤ) : LoggedInAs e w req u →
      ep.Checked w.db req u → w₁.db = w.db → w₁.cache = w.cache → ep.Acted e req u w₁ w' rc →
      Effect e req w w'

theorem SessionsFrom.of_evicts {e : Env} {w w₁ w' : World} (h : Evicts e w w₁)
    (hs : w'.sessions = w₁.sessions) : SessionsFrom w w' :=
  ⟨hs ▸ h.wf, fun _ _ hk => Or.inl (h.some (hs ▸ hk))⟩

section effects
variable {e : Env} {w w' : World} {req : HttpRequest} {resp resp' : HttpResponse}

/-- Evictions and then nothing but reads. -/
theorem looked {w₁ : World} (h : Evicts e w w₁) (hs : w'.stored = w₁.stored) :
    SessionsFrom w w' ∧ Effect e req w w' := by
  obtain ⟨hdb, hrest⟩ := Prod.mk.inj hs
  obtain ⟨hsess, hcache⟩ := Prod.mk.inj hrest
  exact ⟨.of_evicts h hsess, .same (hdb.trans h.data.db) (hcache.trans h.data.cache)⟩

/-- A page is never a redirection. -/
theorem respRenderTpl_status {tplName : Bytes} {vars : List TplVar}
    (h : respRenderTpl resp tplName vars e w = (resp', w')) : resp'.statusCode ≠ 302 := by
  obtain ⟨tpl, w₁, -, h₂⟩ := Prog.bind_run_iff.mp h
  cases tpl with
  | none =>
      rw [(Prog.pure_run_iff.mp h₂).1]
      exact show 500 ≠ 302 by decide
  | some tpl =>
      rw [(Prog.pure_run_iff.mp h₂).1]
      exact show 200 ≠ 302 by decide

theorem loginError_run {msg : Bytes} (h : loginError resp msg e w = (resp', w')) : w' = w :=
  respRenderTpl_run h

theorem registerError_run {msg : Bytes} (h : registerError resp msg e w = (resp', w')) : w' = w :=
  respRenderTpl_run h

theorem submitError_run {u : User} {msg : Bytes} (h : submitError resp u msg e w = (resp', w')) :
    w' = w := submitPage_run h

theorem routeGetRoot_effect (hw : w.sessions.WF) (h : routeGetRoot req resp e w = (resp', w')) :
    SessionsFrom w w' ∧ Effect e req w w' := by
  obtain ⟨u, w₁, h₁, h₂⟩ := Prog.bind_run_iff.mp h
  obtain ⟨hev, -⟩ := getSessionUser_loggedIn hw h₁
  cases u with
  | none => exact looked hev (by rw [respRenderTpl_run h₂])
  | some u => exact looked hev (by rw [(Prog.pure_run_iff.mp h₂).2])

theorem routeGetHome_effect (hw : w.sessions.WF) (h : routeGetHome req resp e w = (resp', w')) :
    SessionsFrom w w' ∧ Effect e req w w' := by
  obtain ⟨u, w₁, h₁, h₂⟩ := Prog.bind_run_iff.mp h
  obtain ⟨hev, -⟩ := getSessionUser_loggedIn hw h₁
  cases u with
  | none => exact looked hev (by rw [(Prog.pure_run_iff.mp h₂).2])
  | some u =>
      obtain ⟨mv, w₂, h₃, h₄⟩ := Prog.bind_run_iff.mp h₂
      exact looked hev (by rw [respRenderTpl_run h₄, buildMapVars_run h₃])

theorem routeGetSubmit_effect (hw : w.sessions.WF)
    (h : routeGetSubmit req resp e w = (resp', w')) : SessionsFrom w w' ∧ Effect e req w w' := by
  obtain ⟨u, w₁, h₁, h₂⟩ := Prog.bind_run_iff.mp h
  obtain ⟨hev, -⟩ := getSessionUser_loggedIn hw h₁
  cases u with
  | none => exact looked hev (by rw [(Prog.pure_run_iff.mp h₂).2])
  | some u =>
      rcases Prog.ite_run_iff.mp h₂ with ⟨-, h₃⟩ | ⟨-, h₃⟩
      · exact looked hev (by rw [(Prog.pure_run_iff.mp h₃).2])
      · exact looked hev (by rw [submitPage_run h₃])

theorem routeGetLogout_effect (hw : w.sessions.WF)
    (h : routeGetLogout req resp e w = (resp', w')) : SessionsFrom w w' ∧ Effect e req w w' := by
  rcases Prog.ite_run_iff.mp h with ⟨-, h₁⟩ | ⟨-, h₁⟩
  · obtain ⟨v, w₁, h₂, h₃⟩ := Prog.bind_run_iff.mp h₁
    obtain ⟨-, rfl⟩ := Prog.pure_run_iff.mp h₃
    obtain ⟨hdata, hwf, -, hget⟩ := sessionDestroy_run hw h₂
    refine ⟨⟨hwf, fun key s hs => Or.inl ?_⟩, .same hdata.db hdata.cache⟩
    rw [hget] at hs
    by_cases hk : key = sessionKey (httpRequestCookie req sessionCookieName (tokenHexLen + 2))
    · rw [hk, Function.update_self] at hs
      cases hs
    · rw [Function.update_of_ne hk] at hs
      exact hs
  · obtain ⟨-, rfl⟩ := Prog.pure_run_iff.mp h₁
    exact looked (Evicts.refl hw) rfl

/-- A login stores at most one session, of the first user of that name. -/
theorem routePostLogin_run (hw : w.sessions.WF) (h : routePostLogin req resp e w = (resp', w')) :
    w'.sessions.WF ∧ w'.db = w.db ∧ w'.cache = w.cache ∧
      ∀ key s, htGet w'.sessions key = some s → htGet w.sessions key = some s ∨
        ∃ row, (selectUsersByName (getField req.bodyPtr (bytes "username=") usernameLen) w.db).head? =
          some row ∧ s.user = cursorToUser row := by
  obtain ⟨u, w₁, h₁, h₂⟩ := Prog.bind_run_iff.mp h
  obtain ⟨hread, hu⟩ := userAuthenticate_run h₁
  have hw₁ : w₁.sessions.WF := by rw [hread.sessions]; exact hw
  cases u with
  | none =>
      obtain rfl := loginError_run h₂
      exact ⟨hw₁, hread.db, hread.cache, fun key s hs => Or.inl (hread.sessions ▸ hs)⟩
  | some u =>
      obtain ⟨row, hrow, rfl⟩ := hu u rfl
      obtain ⟨token, w₂, h₃, h₄⟩ := Prog.bind_run_iff.mp h₂
      have hw₂ : w' = w₂ := by
        cases token with
        | none => exact loginError_run h₄
        | some token => exact (Prog.pure_run_iff.mp h₄).2
      subst hw₂
      rcases sessionCreate_run hw₁ h₃ with ⟨-, hev⟩ | ⟨t, w₃, -, -, hev, -, hdata, hwf, -, hget⟩
      · refine ⟨hev.wf, hev.data.db.trans hread.db, hev.data.cache.trans hread.cache,
          fun key s hs => Or.inl ?_⟩
        rw [← hread.sessions]
        exact hev.some hs
      · refine ⟨hwf, hdata.db.trans hread.db, hdata.cache.trans hread.cache, fun key s hs => ?_⟩
        rw [hget] at hs
        by_cases hk : key = sessionKey t
        · rw [hk, Function.update_self] at hs
          obtain rfl := Option.some.inj hs
          exact Or.inr ⟨row, hrow, rfl⟩
        · rw [Function.update_of_ne hk] at hs
          rw [← hread.sessions]
          exact Or.inl (hev.some hs)

theorem routePostLogin_effect (hw : w.sessions.WF)
    (h : routePostLogin req resp e w = (resp', w')) : SessionsFrom w w' ∧ Effect e req w w' := by
  obtain ⟨hwf, hdb, hcache, hget⟩ := routePostLogin_run hw h
  refine ⟨⟨hwf, fun key s hs => ?_⟩, .same hdb hcache⟩
  rcases hget key s hs with hold | ⟨row, hrow, hu⟩
  · exact Or.inl hold
  · exact Or.inr ⟨row, (of_head?_select hrow).1, hu⟩

/-- A registration changes nothing or calls into `user.c` with an accepted form. -/
theorem routePostRegister_cases (h : routePostRegister req resp e w = (resp', w')) :
    (¬ Accepted e req ∧ w' = w) ∨ (Accepted e req ∧ ∃ rc,
      (formRole req = .admin ∧
        userRegisterAdmin (formUsername req) (formPassword req) (formCity req) e w = (rc, w')) ∨
      (formRole req ≠ .admin ∧
        userRegister (formUsername req) (formPassword req) (formCity req) (formRole req) e w =
          (rc, w'))) := by
  rcases Prog.ite_run_iff.mp h with ⟨hempty, h₁⟩ | ⟨hfilled, h₁⟩
  · exact Or.inl ⟨fun hform => hform.filled hempty, registerError_run h₁⟩
  rcases Prog.ite_run_iff.mp h₁ with ⟨hshort, h₂⟩ | ⟨hlong, h₂⟩
  · exact Or.inl ⟨fun hform => absurd hform.password.2 (not_le.mpr hshort), registerError_run h₂⟩
  obtain ⟨geo, w₁, h₃, h₄⟩ := Prog.bind_run_iff.mp h₂
  obtain ⟨rfl, rfl⟩ := geoLookup_run h₃
  rcases Prog.ite_run_iff.mp h₄ with ⟨hunknown, h₅⟩ | ⟨hknown, h₅⟩
  · exact Or.inl ⟨fun hform => hform.not_isNone hunknown, registerError_run h₅⟩
  refine Or.inr ⟨accepted_of_checks hfilled hlong hknown, ?_⟩
  rcases Prog.ite_run_iff.mp h₅ with ⟨hadmin, h₆⟩ | ⟨hother, h₆⟩
  · obtain ⟨rc, w₂, h₇, h₈⟩ := Prog.bind_run_iff.mp h₆
    have hw' : w' = w₂ := by
      rcases Prog.ite_run_iff.mp h₈ with ⟨-, h₉⟩ | ⟨-, h₉⟩
      · exact registerError_run h₉
      rcases Prog.ite_run_iff.mp h₉ with ⟨-, h₁₀⟩ | ⟨-, h₁₀⟩
      · exact registerError_run h₁₀
      · exact (Prog.pure_run_iff.mp h₁₀).2
    subst hw'
    exact ⟨rc, Or.inl ⟨hadmin, h₇⟩⟩
  · obtain ⟨rc, w₂, h₇, h₈⟩ := Prog.bind_run_iff.mp h₆
    have hw' : w' = w₂ := by
      rcases Prog.ite_run_iff.mp h₈ with ⟨-, h₉⟩ | ⟨-, h₉⟩
      · exact registerError_run h₉
      · exact (Prog.pure_run_iff.mp h₉).2
    subst hw'
    exact ⟨rc, Or.inr ⟨hother, h₇⟩⟩

theorem routePostRegister_effect (hw : w.sessions.WF)
    (h : routePostRegister req resp e w = (resp', w')) :
    SessionsFrom w w' ∧ Effect e req w w' := by
  have hname := short_getField req.bodyPtr (bytes "username=")
  have hcity := short_getField req.bodyPtr (bytes "city=")
  rcases routePostRegister_cases h with ⟨-, rfl⟩ | ⟨-, rc, ⟨-, h₁⟩ | ⟨-, h₁⟩⟩
  · exact looked (Evicts.refl hw) rfl
  · obtain ⟨hs, hcache, -, hdb | ⟨hash, salt, db, hins, hdb⟩⟩ := userRegisterAdmin_run h₁
    · exact looked (Evicts.refl hw) (by rw [World.stored, hdb, hs, hcache]; rfl)
    · refine ⟨.of_evicts (Evicts.refl (e := e) hw) hs,
        .registered _ hash _ salt .admin hname hcity (by simp) ?_ hcache⟩
      rw [hdb]
      exact hins
  · obtain ⟨hs, hcache, -, ⟨-, hdb⟩ | ⟨-, hash, salt, db, hins, hdb⟩⟩ := userRegister_run h₁
    · exact looked (Evicts.refl hw) (by rw [World.stored, hdb, hs, hcache]; rfl)
    · refine ⟨.of_evicts (Evicts.refl (e := e) hw) hs, .registered _ hash _ salt _ hname hcity
        (requestedRole_cases (getField req.bodyPtr (bytes "role=") 4)) ?_ hcache⟩
      rw [hdb]
      exact hins

theorem routePostSubmit_effect (hw : w.sessions.WF)
    (h : routePostSubmit req resp e w = (resp', w')) : SessionsFrom w w' ∧ Effect e req w w' := by
  obtain ⟨u, w₁, h₁, h₂⟩ := Prog.bind_run_iff.mp h
  obtain ⟨hev, hu⟩ := getSessionUser_loggedIn hw h₁
  cases u with
  | none => exact looked hev (by rw [(Prog.pure_run_iff.mp h₂).2])
  | some u =>
      rcases Prog.ite_run_iff.mp h₂ with ⟨-, h₃⟩ | ⟨hrole, h₃⟩
      · exact looked hev (by rw [(Prog.pure_run_iff.mp h₃).2])
      rcases Prog.ite_run_iff.mp h₃ with ⟨-, h₄⟩ | ⟨-, h₄⟩
      · exact looked hev (by rw [submitError_run h₄])
      obtain ⟨geo, w₂, h₅, h₆⟩ := Prog.bind_run_iff.mp h₄
      obtain ⟨-, rfl⟩ := geoLookup_run h₅
      rcases Prog.ite_run_iff.mp h₆ with ⟨-, h₇⟩ | ⟨-, h₇⟩
      · exact looked hev (by rw [submitError_run h₇])
      obtain ⟨rid, w₃, h₈, h₉⟩ := Prog.bind_run_iff.mp h₇
      have hw' : w' = w₃ := by
        rcases Prog.ite_run_iff.mp h₉ with ⟨-, h₁₀⟩ | ⟨-, h₁₀⟩
        · exact submitError_run h₁₀
        · exact (Prog.pure_run_iff.mp h₁₀).2
      subst hw'
      obtain ⟨hsame, -, ⟨-, hdb, hcache⟩ | ⟨db, hins, hdb, -, hcache⟩⟩ := reportInsert_run h₈
      · exact looked hev (by rw [World.stored, hdb, hsame.sessions, hcache]; rfl)
      · simp only [Bool.or_eq_true, not_or, Bool.not_eq_true] at hrole
        rw [hev.data.db, ← hdb] at hins
        refine ⟨.of_evicts hev hsame.sessions,
          .submitted u _ _ _ _ _ (hu u rfl) hrole.1 hrole.2 hins fun hseq => ?_⟩
        rw [hdb] at hseq
        rcases hcache with ⟨-, hle, -⟩ | ⟨-, -, hcache⟩
        · exact absurd hseq (not_lt.mpr hle)
        · rw [hcache, hev.data.cache]

theorem listHandler_effect {list : User → App (ℕ × Bytes)}
    (hlist : ∀ u, Prog.Keeps World.stored (list u)) {session : App (Option User)}
    (hsession : ∀ u w₁, session e w = (u, w₁) → Evicts e w w₁) {refuse : HttpResponse}
    (h : (session >>= fun u => match u with
      | none => pure refuse
      | some u => do
          let r ← list u
          pure (respList resp r) : App HttpResponse) e w = (resp', w')) :
    SessionsFrom w w' ∧ Effect e req w w' := by
  obtain ⟨u, w₁, h₁, h₂⟩ := Prog.bind_run_iff.mp h
  have hev := hsession u w₁ h₁
  cases u with
  | none => exact looked hev (by rw [(Prog.pure_run_iff.mp h₂).2])
  | some u =>
      obtain ⟨r, w₂, h₃, h₄⟩ := Prog.bind_run_iff.mp h₂
      obtain ⟨-, rfl⟩ := Prog.pure_run_iff.mp h₄
      exact looked hev ((hlist u).out h₃)

theorem cachedHandler_effect (isArchived : Bool) (hw : w.sessions.WF)
    (h : (getSessionUser req >>= fun u => match u with
      | none => pure (respJsonError resp 401 (bytes "unauthorized"))
      | some u => do
          let r ← cachedList (listQuery isArchived) isArchived resp.body responseBufferSize u.userId
            u.city (userIsOperator u)
          pure (respList resp r) : App HttpResponse) e w = (resp', w')) :
    SessionsFrom w w' ∧ Effect e req w w' := by
  obtain ⟨u, w₁, h₁, h₂⟩ := Prog.bind_run_iff.mp h
  obtain ⟨hev, hu⟩ := getSessionUser_loggedIn hw h₁
  cases u with
  | none => exact looked hev (by rw [(Prog.pure_run_iff.mp h₂).2])
  | some u =>
      obtain ⟨r, w₂, h₃, h₄⟩ := Prog.bind_run_iff.mp h₂
      obtain ⟨-, rfl⟩ := Prog.pure_run_iff.mp h₄
      obtain ⟨hdb, hsess⟩ := Prod.mk.inj ((keeps_cachedList _ _ _ _ _ _ _).out h₃)
      exact ⟨.of_evicts hev hsess, .listed u isArchived resp.body r w₁ (hu u rfl) hev.data.db
        hev.data.cache (hdb.trans hev.data.db) h₃⟩

theorem Endpoint.Acted.accounts {ep : Endpoint} {u : User} {rc : ℤ}
    (h : ep.Acted e req u w w' rc) : SameAccounts w w' := by
  cases h with
  | called hrun => exact (ReportCall.run_spec hrun).1
  | refused hrun hread _ => exact (ReportCall.run_spec hrun).1.trans hread.sameAccounts
  | reassigned _ hre =>
      obtain ⟨w₁, w₂, w₃, rr, rc₁, hassign, hget, -, hreset, hassign'⟩ := hre.run
      have h₁ := (ReportCall.run_spec hassign).1
      have h₂ := (reportGetById_run hget).1.sameAccounts
      have h₃ := (resetReport_run hreset).1
      exact ((h₁.trans h₂).trans h₃).trans (ReportCall.run_spec hassign').1

theorem Endpoint.effect (ep : Endpoint) (hw : w.sessions.WF)
    (h : ep.handler req resp e w = (resp', w')) : SessionsFrom w w' ∧ Effect e req w w' := by
  cases ep.run_spec hw h with
  | refused w₁ hev hread _ => exact looked hev (by rw [World.stored, hread.db, hread.sessions, hread.cache]; rfl)
  | acted u w₁ w₂ rc hlog hev hread _ hchecked hacted _ =>
      exact ⟨.of_evicts hev (hacted.accounts.sessions.trans hread.sessions),
        .wrote ep u w₂ rc hlog hchecked (hread.db.trans hev.data.db)
          (hread.cache.trans hev.data.cache) hacted⟩

/-- Users are added and never removed or changed. -/
theorem Effect.users_kept (h : Effect e req w w') : w.db.users <+: w'.db.users := by
  cases h with
  | same hdb => exact hdb ▸ List.prefix_rfl
  | listed _ _ _ _ _ _ _ _ hdb => exact hdb ▸ List.prefix_rfl
  | registered _ _ _ _ _ _ _ _ hins =>
      obtain ⟨-, id, -, hdb⟩ := insertUser_eq_some hins
      rw [hdb]
      exact List.prefix_append _ _
  | submitted _ _ _ _ _ _ _ _ _ hins =>
      obtain ⟨-, hdb⟩ := insertReport_eq_some hins
      rw [hdb]
  | wrote ep u w₁ rc _ _ hdb _ hacted =>
      rw [hacted.accounts.users, hdb]

/-- **The effect of a request.** -/
theorem handleRequest_effect (hw : w.sessions.WF)
    (h : handleRequest req resp e w = (resp', w')) : SessionsFrom w w' ∧ Effect e req w w' := by
  rcases handleRequest_run h with rfl | ⟨r, hr, -, -, hrun⟩
  · exact looked (Evicts.refl hw) rfl
  · simp only [routes, List.mem_cons, List.not_mem_nil, or_false] at hr
    rcases hr with rfl | rfl | rfl | rfl | rfl | rfl | rfl | rfl | rfl | rfl | rfl | rfl | rfl | rfl |
      rfl | rfl | rfl | rfl | rfl
    · exact routeGetRoot_effect hw hrun
    · exact routeGetHome_effect hw hrun
    · exact looked (Evicts.refl hw) (by rw [respRenderTpl_run hrun])
    · exact routeGetSubmit_effect hw hrun
    · exact routeGetLogout_effect hw hrun
    · exact routePostLogin_effect hw hrun
    · exact routePostRegister_effect hw hrun
    · exact routePostSubmit_effect hw hrun
    · exact looked (Evicts.refl hw) (by rw [serveTpl_run hrun])
    · exact cachedHandler_effect false hw hrun
    · exact cachedHandler_effect true hw hrun
    · exact listHandler_effect (fun u => keeps_reportGetAllCityJson _ _ _)
        (fun u w₁ h₁ => (sessionUserWith_run hw h₁).1) hrun
    · exact listHandler_effect (fun u => keeps_userGetOperatorsJson _ _ _)
        (fun u w₁ h₁ => (sessionUserWith_run hw h₁).1) hrun
    · exact Endpoint.status.effect hw hrun
    · exact Endpoint.respond.effect hw hrun
    · exact Endpoint.feedback.effect hw hrun
    · exact Endpoint.assign.effect hw hrun
    · exact looked (Evicts.refl hw) (by rw [serveTpl_run hrun])
    · exact looked (Evicts.refl hw) (by rw [serveTpl_run hrun])

end effects

end Segnalacity
