import Segnalacity.Authorization
import Segnalacity.Logout
import Segnalacity.RegisterLogin
import Segnalacity.SubmittedText

/-! # Authentication

Who a request counts as is decided by a cookie and a table in memory.  Over whole runs of requests
this adds up to `authenticated_iff`: a request counts as a user exactly when an earlier login gave
the token of its cookie to a client that presented the password of that user, no logout with this
token has followed, and the login is not too long ago.  So nothing but a login opens a session,
nothing but its logout and its age ends it, and no later login takes over a token in use. -/

namespace Segnalacity

open CStr StateProg Sql Http HashTable

/-! ### Logins and logouts -/

def IsLogin (req : HttpRequest) : Prop :=
  req.method.text = bytes "POST" ∧ req.path.text = bytes "/login"

def IsLogout (req : HttpRequest) : Prop :=
  req.method.text = bytes "GET" ∧ req.path.text = bytes "/logout"

theorem IsLogin.not_logout {req : HttpRequest} (h : IsLogin req) : ¬ IsLogout req := by
  intro hout
  have hpath := h.2.symm.trans hout.2
  revert hpath
  decide

/-- The token that `get_session_user` reads from the request. -/
def sessionToken (req : HttpRequest) : Bytes :=
  httpRequestCookie req sessionCookieName (tokenHexLen + 1)

/-- The token that `route_get_logout` reads, into one byte more. -/
def logoutToken (req : HttpRequest) : Bytes :=
  httpRequestCookie req sessionCookieName (tokenHexLen + 2)

/-- The request logs out whoever has the token. -/
def Closes (req : HttpRequest) (token : Bytes) : Prop := IsLogout req ∧ logoutToken req = token

theorem sessionKey_cookie (req : HttpRequest) (name : Bytes) (max : ℕ) :
    sessionKey (httpRequestCookie req name max) = httpRequestCookie req name max ++ [0] := by
  unfold sessionKey
  rw [cstr_eq_self (zero_notMem_httpRequestCookie _ _ _)]

theorem hexString_ne_nil (f : Fin 32 → Fin 16) : hexString f ≠ [] := by
  intro hnil
  have hlength := hexString_length f
  rw [hnil] at hlength
  cases hlength

/-- A cookie has the key of a drawn token only if it is that token. -/
theorem cookie_eq_of_key {req : HttpRequest} {name : Bytes} {max : ℕ} {f : Fin 32 → Fin 16}
    (h : sessionKey (httpRequestCookie req name max) = sessionKey (hexString f)) :
    httpRequestCookie req name max = hexString f := by
  rw [sessionKey_cookie, sessionKey_hexString] at h
  exact List.append_cancel_right h

theorem loginCookie_inj {t t' : Bytes} (h : loginCookie t = loginCookie t') : t = t' := by
  unfold loginCookie at h
  have h₁ := List.append_cancel_right (List.append_cancel_right (List.append_cancel_right h))
  exact List.append_cancel_left h₁

section platform

variable [Platform]

/-- The form names `u` and has the password of `u`. -/
structure Presents (db : Database) (req : HttpRequest) (u : User) : Prop where
  row : ∃ row, (selectUsersByName (formUsername req) db).head? = some row ∧ u = cursorToUser row
  password : constantTimeCompare u.passwordHash (hashPassword u.salt (formPassword req)) = true

/-- The user of a form is determined by its name. -/
theorem Presents.unique {db : Database} {req : HttpRequest} {u u' : User} (h : Presents db req u)
    (h' : Presents db req u') : u = u' := by
  obtain ⟨row, hrow, rfl⟩ := h.row
  obtain ⟨row', hrow', rfl⟩ := h'.row
  rw [hrow] at hrow'
  rw [Option.some.inj hrow']

/-- A login that is answered with the cookie of the token. -/
structure Opens (db : Database) (req : HttpRequest) (resp : HttpResponse) (token : Bytes)
    (u : User) : Prop where
  login : IsLogin req
  presents : Presents db req u
  redirected : resp.statusCode = 302
  cookie : resp.setCookie = loginCookie token

/-- In the log the token was given to `u` by a login whose last reading of the clock was `t`, and
no logout with the token has followed. -/
inductive Granted (e : Env) (w₀ : World) (log : List ((HttpRequest × HttpResponse) × HttpResponse))
    (token : Bytes) (u : User) (t : ℤ) : Prop
  | intro (before after : List ((HttpRequest × HttpResponse) × HttpResponse))
      (x : (HttpRequest × HttpResponse) × HttpResponse) (w₁ w₂ : World) :
      log = before ++ x :: after → Run answer e w₀ before w₁ → answer x.1 e w₁ = (x.2, w₂) →
      Opens w₁.db x.1.1 x.2 token u → t = e.clock (w₂.ctr.ticks - 1) →
      (∀ y ∈ after, ¬ Closes y.1.1 token) → Granted e w₀ log token u t

theorem Granted.snoc {e : Env} {w₀ : World}
    {log : List ((HttpRequest × HttpResponse) × HttpResponse)} {token : Bytes} {u : User} {t : ℤ}
    (h : Granted e w₀ log token u t) {y : (HttpRequest × HttpResponse) × HttpResponse}
    (hy : ¬ Closes y.1.1 token) : Granted e w₀ (log ++ [y]) token u t := by
  obtain ⟨before, after, x, w₁, w₂, rfl, hrun, hx, hopens, ht, hafter⟩ := h
  refine .intro before (after ++ [y]) x w₁ w₂ (by simp) hrun hx hopens ht fun z hz => ?_
  rcases List.mem_append.mp hz with hz | hz
  · exact hafter z hz
  · rw [List.mem_singleton.mp hz]
    exact hy

/-! ### Sessions pass only with time -/

/-- From `w` to `w'` sessions are kept, or dropped after a reading that shows them expired. -/
structure Lapses (e : Env) (w w' : World) : Prop where
  wf : w'.sessions.WF
  ticks : w.ctr.ticks ≤ w'.ctr.ticks
  get : ∀ key, htGet w'.sessions key = htGet w.sessions key ∨
    (htGet w'.sessions key = none ∧ ∃ s, htGet w.sessions key = some s ∧
      ∃ i, w.ctr.ticks ≤ i ∧ i < w'.ctr.ticks ∧ e.clock i - s.createdAt > sessionMaxAge)

section lapses
variable {e : Env} {w w₁ w' : World}

theorem Evicts.lapses (h : Evicts e w w') : Lapses e w w' := ⟨h.wf, h.ticks, h.get⟩

theorem Lapses.refl (hw : w.sessions.WF) : Lapses e w w := (Evicts.refl hw).lapses

/-- What follows does not touch the table. -/
theorem Lapses.untouched (h : Lapses e w w₁) (hs : w'.sessions = w₁.sessions)
    (ht : w₁.ctr.ticks ≤ w'.ctr.ticks) : Lapses e w w' := by
  refine ⟨hs ▸ h.wf, h.ticks.trans ht, fun key => ?_⟩
  rw [hs]
  rcases h.get key with hsame | ⟨hnone, s, hs, i, hi, hi', hexp⟩
  · exact .inl hsame
  · exact .inr ⟨hnone, s, hs, i, hi, lt_of_lt_of_le hi' ht, hexp⟩

theorem Lapses.of_some (h : Lapses e w w') {key : Bytes} {s : Session}
    (hk : htGet w'.sessions key = some s) : htGet w.sessions key = some s := by
  rcases h.get key with hsame | ⟨hnone, -⟩
  · rw [← hsame, hk]
  · rw [hnone] at hk
    cases hk

/-- A session that no reading shows to be expired is kept. -/
theorem Lapses.kept (h : Lapses e w w') {key : Bytes} {s : Session}
    (hk : htGet w.sessions key = some s)
    (hlive : ∀ i < w'.ctr.ticks, e.clock i - s.createdAt ≤ sessionMaxAge) :
    htGet w'.sessions key = some s := by
  rcases h.get key with hsame | ⟨-, s', hs', i, -, hi, hexp⟩
  · rw [hsame, hk]
  · rw [hk] at hs'
    obtain rfl := Option.some.inj hs'
    exact absurd (hlive i hi) (not_le.mpr hexp)

end lapses

/-! ### The clock goes on -/

/-- No reading of the clock is taken back. -/
def Later (w w' : World) : Prop := w.ctr.ticks ≤ w'.ctr.ticks

instance : Std.Refl Later := ⟨fun _ => le_rfl⟩

instance : IsTrans World Later := ⟨fun _ _ _ => le_trans⟩

section later
variable {e : Env}

theorem later_now : Prog.Moves e Later now := fun _ => Nat.le_succ _

theorem later_attempt : Prog.Moves e Later attempt := fun _ => le_rfl

theorem later_attemptAlloc : Prog.Moves e Later attemptAlloc := fun _ => le_rfl

theorem later_view {α : Type} (f : World → α) : Prog.Moves e Later (Prog.view f) := fun _ => le_rfl

theorem later_dbCursorOpen {α : Type} (query : Database → List α) :
    Prog.Moves e Later (dbCursorOpen query) :=
  later_attempt.bind fun _ => (later_view _).ite (Prog.moves_pure _)

theorem later_drainRows {α β : Type} {body : α → App (List β)}
    (hbody : ∀ r, Prog.Moves e Later (body r)) (rows : List α) :
    Prog.Moves e Later (drainRows body rows) := by
  induction rows with
  | nil => exact later_attempt.bind fun _ => Prog.moves_pure _
  | cons r rows ih =>
      exact later_attempt.bind fun _ =>
        ((hbody r).bind fun _ => ih.bind fun _ => Prog.moves_pure _).ite (Prog.moves_pure _)

theorem later_drainCursor {α β : Type} {body : α → App (List β)}
    (hbody : ∀ r, Prog.Moves e Later (body r)) (c : Option (List α)) :
    Prog.Moves e Later (drainCursor body c) := by
  cases c with
  | none => exact Prog.moves_pure _
  | some rows => exact later_drainRows hbody rows

theorem later_jsonAddFields (fields : List (Bytes × JsonValue Double)) :
    Prog.Moves e Later (jsonAddFields fields) := by
  induction fields with
  | nil => exact Prog.moves_pure _
  | cons f fields ih =>
      exact later_attemptAlloc.bind fun _ => ih.bind fun _ => Prog.moves_pure _

theorem later_reportToCjson (r : Report) : Prog.Moves e Later (reportToCjson r) :=
  later_attemptAlloc.bind fun _ =>
    ((later_jsonAddFields _).bind fun _ => Prog.moves_pure _).ite (Prog.moves_pure _)

theorem later_cursorToJsonArray (c : Option (List ReportRow)) (buf : Bytes) (max : ℕ) :
    Prog.Moves e Later (cursorToJsonArray c buf max) :=
  later_attemptAlloc.bind fun _ => (Prog.moves_pure _).ite
    ((later_drainCursor (fun _ => (later_reportToCjson _).bind fun _ => Prog.moves_pure _) c).bind
      fun _ => Prog.moves_pure _)

theorem later_cacheUpdate (f : World → List CacheEntry) :
    Prog.Moves e Later (Prog.update fun w => { w with cache := f w } : App Unit) :=
  Prog.moves_update fun _ => le_rfl

theorem later_cacheStore (city : Bytes) (userId : UInt64) (isOperator isArchived : Bool)
    (json : Bytes) : Prog.Moves e Later (cacheStore city userId isOperator isArchived json) :=
  (Prog.moves_pure _).ite (later_now.bind fun _ => later_cacheUpdate _)

theorem later_cachedList (query : UInt64 → Bool → Database → List ReportRow) (isArchived : Bool)
    (buf : Bytes) (max : ℕ) (userId : UInt64) (city : Bytes) (isOperator : Bool) :
    Prog.Moves e Later (cachedList query isArchived buf max userId city isOperator) := by
  refine later_now.bind fun t => (later_view _).bind fun hit =>
    (later_cacheUpdate _).bind fun _ => ?_
  cases hit with
  | some entry => exact Prog.moves_pure _
  | none =>
      exact (later_dbCursorOpen _).bind fun c => (later_cursorToJsonArray c buf max).bind fun _ =>
        ((later_cacheStore _ _ _ _ _).bind fun _ => Prog.moves_pure _).ite (Prog.moves_pure _)

theorem later_allCityItem (x : ReportRow × Bytes) : Prog.Moves e Later (allCityItem x) := by
  refine (later_reportToCjson _).bind fun obj => ?_
  cases obj with
  | none => exact Prog.moves_pure _
  | some obj => exact (later_jsonAddFields _).bind fun _ => Prog.moves_pure _

theorem later_reportGetAllCityJson (buf : Bytes) (max : ℕ) (city : Bytes) :
    Prog.Moves e Later (reportGetAllCityJson buf max city) := by
  refine (later_dbCursorOpen _).bind fun c => ?_
  cases c with
  | none => exact Prog.moves_pure _
  | some rows =>
      exact later_attemptAlloc.bind fun _ => (Prog.moves_pure _).ite
        ((later_drainRows later_allCityItem rows).bind fun _ => Prog.moves_pure _)

theorem later_operatorItem (row : UserRow) : Prog.Moves e Later (operatorItem row) :=
  later_attemptAlloc.bind fun _ =>
    ((later_jsonAddFields _).bind fun _ => Prog.moves_pure _).ite (Prog.moves_pure _)

theorem later_userGetOperatorsJson (buf : Bytes) (max : ℕ) (city : Bytes) :
    Prog.Moves e Later (userGetOperatorsJson buf max city) := by
  refine (later_dbCursorOpen _).bind fun c => ?_
  cases c with
  | none => exact (Prog.moves_pure _).ite (Prog.moves_pure _)
  | some rows =>
      refine later_attemptAlloc.bind fun root => (later_drainRows later_operatorItem rows).bind
        fun items => (Prog.moves_pure _).ite ?_
      cases Platform.printPreallocated items max with
      | none => exact Prog.moves_pure _
      | some text => exact Prog.moves_pure _

end later

/-! ### Every handler but two -/

section handlers
variable {e : Env} {w w' : World} {req : HttpRequest} {resp resp' : HttpResponse}

theorem getSessionUser_lapses (hw : w.sessions.WF) {u : Option User}
    (h : getSessionUser req e w = (u, w')) : Lapses e w w' := (getSessionUser_loggedIn hw h).1.lapses

theorem sessionUserWith_lapses {allowed : User → Bool} (hw : w.sessions.WF) {u : Option User}
    (h : sessionUserWith allowed req e w = (u, w')) : Lapses e w w' :=
  (sessionUserWith_run hw h).1.lapses

theorem routeGetRoot_lapses (hw : w.sessions.WF) (h : routeGetRoot req resp e w = (resp', w')) :
    Lapses e w w' := by
  obtain ⟨u, w₁, h₁, h₂⟩ := Prog.bind_run_iff.mp h
  have hl := getSessionUser_lapses hw h₁
  cases u with
  | none => rw [respRenderTpl_run h₂]; exact hl
  | some u => rw [(Prog.pure_run_iff.mp h₂).2]; exact hl

theorem routeGetHome_lapses (hw : w.sessions.WF) (h : routeGetHome req resp e w = (resp', w')) :
    Lapses e w w' := by
  obtain ⟨u, w₁, h₁, h₂⟩ := Prog.bind_run_iff.mp h
  have hl := getSessionUser_lapses hw h₁
  cases u with
  | none => rw [(Prog.pure_run_iff.mp h₂).2]; exact hl
  | some u =>
      obtain ⟨mv, w₂, h₃, h₄⟩ := Prog.bind_run_iff.mp h₂
      rw [respRenderTpl_run h₄, buildMapVars_run h₃]
      exact hl

theorem routeGetSubmit_lapses (hw : w.sessions.WF) (h : routeGetSubmit req resp e w = (resp', w')) :
    Lapses e w w' := by
  obtain ⟨u, w₁, h₁, h₂⟩ := Prog.bind_run_iff.mp h
  have hl := getSessionUser_lapses hw h₁
  cases u with
  | none => rw [(Prog.pure_run_iff.mp h₂).2]; exact hl
  | some u =>
      rcases Prog.ite_run_iff.mp h₂ with ⟨-, h₃⟩ | ⟨-, h₃⟩
      · rw [(Prog.pure_run_iff.mp h₃).2]; exact hl
      · rw [submitPage_run h₃]; exact hl

theorem routePostRegister_lapses (hw : w.sessions.WF)
    (h : routePostRegister req resp e w = (resp', w')) : Lapses e w w' := by
  rcases routePostRegister_cases h with ⟨-, rfl⟩ | ⟨-, rc, ⟨-, h₁⟩ | ⟨-, h₁⟩⟩
  · exact Lapses.refl hw
  · obtain ⟨hs, -, ht, -⟩ := userRegisterAdmin_run h₁
    exact (Lapses.refl hw).untouched hs ht.ge
  · obtain ⟨hs, -, ht, -⟩ := userRegister_run h₁
    exact (Lapses.refl hw).untouched hs ht.ge

theorem routePostSubmit_lapses (hw : w.sessions.WF)
    (h : routePostSubmit req resp e w = (resp', w')) : Lapses e w w' := by
  obtain ⟨u, w₁, h₁, h₂⟩ := Prog.bind_run_iff.mp h
  have hl := getSessionUser_lapses hw h₁
  cases u with
  | none => rw [(Prog.pure_run_iff.mp h₂).2]; exact hl
  | some u =>
      rcases Prog.ite_run_iff.mp h₂ with ⟨-, h₃⟩ | ⟨-, h₃⟩
      · rw [(Prog.pure_run_iff.mp h₃).2]; exact hl
      rcases Prog.ite_run_iff.mp h₃ with ⟨-, h₄⟩ | ⟨-, h₄⟩
      · rw [submitError_run h₄]; exact hl
      obtain ⟨geo, w₂, h₅, h₆⟩ := Prog.bind_run_iff.mp h₄
      obtain ⟨-, rfl⟩ := geoLookup_run h₅
      rcases Prog.ite_run_iff.mp h₆ with ⟨-, h₇⟩ | ⟨-, h₇⟩
      · rw [submitError_run h₇]; exact hl
      obtain ⟨rid, w₃, h₈, h₉⟩ := Prog.bind_run_iff.mp h₇
      obtain ⟨hsame, ht, -⟩ := reportInsert_run h₈
      have hl' := hl.untouched hsame.sessions (by omega)
      rcases Prog.ite_run_iff.mp h₉ with ⟨-, h₁₀⟩ | ⟨-, h₁₀⟩
      · rw [submitError_run h₁₀]; exact hl'
      · rw [(Prog.pure_run_iff.mp h₁₀).2]; exact hl'

/-- The lists: whoever may see them, and the list itself. -/
theorem listHandler_lapses {list : User → App (ℕ × Bytes)}
    (hdata : ∀ u, Prog.Keeps World.data (list u)) (hlater : ∀ u, Prog.Moves e Later (list u))
    {session : App (Option User)} (hsession : ∀ u w₁, session e w = (u, w₁) → Lapses e w w₁)
    {refuse : HttpResponse}
    (h : (session >>= fun u => match u with
      | none => pure refuse
      | some u => do
          let r ← list u
          pure (respList resp r) : App HttpResponse) e w = (resp', w')) : Lapses e w w' := by
  obtain ⟨u, w₁, h₁, h₂⟩ := Prog.bind_run_iff.mp h
  have hl := hsession u w₁ h₁
  cases u with
  | none => rw [(Prog.pure_run_iff.mp h₂).2]; exact hl
  | some u =>
      obtain ⟨r, w₂, h₃, h₄⟩ := Prog.bind_run_iff.mp h₂
      obtain ⟨-, rfl⟩ := Prog.pure_run_iff.mp h₄
      exact hl.untouched (Prod.mk.inj ((hdata u).out h₃)).2 ((hlater u).out h₃)

theorem Endpoint.Acted.ticks {ep : Endpoint} {u : User} {rc : ℤ}
    (h : ep.Acted e req u w w' rc) : w.ctr.ticks ≤ w'.ctr.ticks := by
  cases h with
  | called hrun => exact (ReportCall.run_spec hrun).2.1
  | refused hrun hread _ => exact (ReportCall.run_spec hrun).2.1.trans hread.ticks.ge
  | reassigned _ hre =>
      obtain ⟨w₁, w₂, w₃, rr, rc₁, hassign, hget, -, hreset, hassign'⟩ := hre.run
      have h₁ := (ReportCall.run_spec hassign).2.1
      have h₂ := (reportGetById_run hget).1.ticks
      have h₃ := (resetReport_run hreset).2.2.1
      have h₄ := (ReportCall.run_spec hassign').2.1
      omega

theorem Endpoint.lapses (ep : Endpoint) (hw : w.sessions.WF)
    (h : ep.handler req resp e w = (resp', w')) : Lapses e w w' := by
  cases ep.run_spec hw h with
  | refused w₁ hev hread _ => exact hev.lapses.untouched hread.sessions hread.ticks.ge
  | acted u w₁ w₂ rc _ hev hread _ _ hacted _ =>
      refine hev.lapses.untouched (hacted.accounts.sessions.trans hread.sessions) ?_
      rw [← hread.ticks]
      exact hacted.ticks

end handlers

/-! ### One request -/

/-- What a request does to the table of sessions. -/
inductive SessionStep (e : Env) (w : World) (req : HttpRequest) (resp' : HttpResponse)
    (w' : World) : Prop
  | kept : ¬ IsLogout req → ¬ (IsLogin req ∧ resp'.statusCode = 302) → Lapses e w w' →
      SessionStep e w req resp' w'
  | opened (u : User) (f : Fin 32 → Fin 16) (w₁ : World) : Opens w.db req resp' (hexString f) u →
      Lapses e w w₁ → htGet w₁.sessions (sessionKey (hexString f)) = none → w'.sessions.WF →
      w'.ctr.ticks = w₁.ctr.ticks + 1 → htGet w'.sessions = Function.update (htGet w₁.sessions)
        (sessionKey (hexString f)) (some ⟨u, e.clock w₁.ctr.ticks⟩) →
      SessionStep e w req resp' w'
  | closed : IsLogout req → w'.sessions.WF → w'.ctr.ticks = w.ctr.ticks →
      htGet w'.sessions = (if logoutToken req = [] then htGet w.sessions
        else Function.update (htGet w.sessions) (sessionKey (logoutToken req)) none) →
      SessionStep e w req resp' w'

section step
variable {e : Env} {w w' : World} {req : HttpRequest} {resp resp' : HttpResponse}

theorem routePostLogin_step (hw : w.sessions.WF) (hlogin : IsLogin req)
    (h : routePostLogin req resp e w = (resp', w')) : SessionStep e w req resp' w' := by
  obtain ⟨u, w₁, h₁, h₂⟩ := Prog.bind_run_iff.mp h
  obtain ⟨hread, hu⟩ := userAuthenticate_run h₁
  have hl : Lapses e w w₁ := (Lapses.refl hw).untouched hread.sessions hread.ticks.ge
  cases u with
  | none =>
      rw [loginError_run h₂]
      exact .kept hlogin.not_logout (fun hr => respRenderTpl_status h₂ hr.2) hl
  | some u =>
      have hpresents : Presents w.db req u := ⟨hu u rfl, userAuthenticate_compares h₁⟩
      obtain ⟨token, w₂, h₃, h₄⟩ := Prog.bind_run_iff.mp h₂
      have hkey : ∀ w₃, Evicts e w₁ w₃ → Lapses e w w₃ := fun w₃ hev =>
        ⟨hev.wf, hread.ticks.ge.trans hev.ticks, by
          rw [← hread.sessions, ← hread.ticks]
          exact hev.get⟩
      rcases sessionCreate_run hl.wf h₃ with
        ⟨rfl, hev⟩ | ⟨t, w₃, rfl, ⟨f, rfl⟩, hev, habs, -, hwf, hticks, hget⟩
      · rw [loginError_run h₄]
        exact .kept hlogin.not_logout (fun hr => respRenderTpl_status h₄ hr.2) (hkey w₂ hev)
      · obtain ⟨rfl, rfl⟩ := Prog.pure_run_iff.mp h₄
        refine .opened u f w₃ ⟨hlogin, hpresents, rfl, ?_⟩ (hkey w₃ hev) habs hwf hticks hget
        show snprintf cookieMax (snprintf cookieMax (loginCookie (hexString f))) = _
        rw [loginCookie_fits, loginCookie_fits]

theorem handleRequest_logout (hlogout : IsLogout req) :
    handleRequest req resp = routeGetLogout req resp :=
  handleRequest_eq 4 (bytes "GET") (bytes "/logout") rfl (by decide) (decide_eq_true hlogout.2)
    (decide_eq_true hlogout.1)

/-- A request that neither logs in nor out. -/
theorem handleRequest_lapses (hw : w.sessions.WF) (hlogin : ¬ IsLogin req)
    (hlogout : ¬ IsLogout req) (h : handleRequest req resp e w = (resp', w')) :
    Lapses e w w' := by
  rcases handleRequest_run h with rfl | ⟨r, hr, hpath, hmethod, hrun⟩
  · exact Lapses.refl hw
  · have hasked : req.method.text = r.method ∧ req.path.text = r.path :=
      ⟨of_decide_eq_true hmethod, of_decide_eq_true hpath⟩
    have hsame : w' = w → Lapses e w w' := by
      rintro rfl
      exact Lapses.refl hw
    simp only [routes, List.mem_cons, List.not_mem_nil, or_false] at hr
    rcases hr with rfl | rfl | rfl | rfl | rfl | rfl | rfl | rfl | rfl | rfl | rfl | rfl | rfl | rfl |
      rfl | rfl | rfl | rfl | rfl
    · exact routeGetRoot_lapses hw hrun
    · exact routeGetHome_lapses hw hrun
    · exact hsame (respRenderTpl_run hrun)
    · exact routeGetSubmit_lapses hw hrun
    · exact absurd hasked hlogout
    · exact absurd hasked hlogin
    · exact routePostRegister_lapses hw hrun
    · exact routePostSubmit_lapses hw hrun
    · exact hsame (serveTpl_run hrun)
    · exact listHandler_lapses (fun u => keeps_cachedList _ _ _ _ _ _ _)
        (fun u => later_cachedList _ _ _ _ _ _ _) (fun u w₁ h₁ => getSessionUser_lapses hw h₁) hrun
    · exact listHandler_lapses (fun u => keeps_cachedList _ _ _ _ _ _ _)
        (fun u => later_cachedList _ _ _ _ _ _ _) (fun u w₁ h₁ => getSessionUser_lapses hw h₁) hrun
    · exact listHandler_lapses (fun u => data_of_stored (keeps_reportGetAllCityJson _ _ _))
        (fun u => later_reportGetAllCityJson _ _ _) (fun u w₁ h₁ => sessionUserWith_lapses hw h₁) hrun
    · exact listHandler_lapses (fun u => data_of_stored (keeps_userGetOperatorsJson _ _ _))
        (fun u => later_userGetOperatorsJson _ _ _) (fun u w₁ h₁ => sessionUserWith_lapses hw h₁) hrun
    · exact Endpoint.status.lapses hw hrun
    · exact Endpoint.respond.lapses hw hrun
    · exact Endpoint.feedback.lapses hw hrun
    · exact Endpoint.assign.lapses hw hrun
    · exact hsame (serveTpl_run hrun)
    · exact hsame (serveTpl_run hrun)

theorem handleRequest_sessionStep (hw : w.sessions.WF)
    (h : handleRequest req resp e w = (resp', w')) : SessionStep e w req resp' w' := by
  by_cases hlogout : IsLogout req
  · rw [handleRequest_logout hlogout] at h
    obtain ⟨hwf, hctr, -, hget⟩ := routeGetLogout_run hw h
    exact .closed hlogout hwf (by rw [hctr]) hget
  · by_cases hlogin : IsLogin req
    · rw [handleRequest_login hlogin.1 hlogin.2] at h
      exact routePostLogin_step hw hlogin h
    · exact .kept hlogout (fun hr => hlogin hr.1) (handleRequest_lapses hw hlogin hlogout h)

theorem SessionStep.wf (h : SessionStep e w req resp' w') : w'.sessions.WF := by
  cases h with
  | kept _ _ hl => exact hl.wf
  | opened _ _ _ _ _ _ hwf => exact hwf
  | closed _ hwf => exact hwf

theorem SessionStep.ticks (h : SessionStep e w req resp' w') : w.ctr.ticks ≤ w'.ctr.ticks := by
  cases h with
  | kept _ _ hl => exact hl.ticks
  | opened _ _ w₁ _ hl _ _ hticks =>
      rw [hticks]
      exact hl.ticks.trans (Nat.le_succ _)
  | closed _ _ hticks => exact hticks.ge

/-- A login answered with a cookie has stored the session of the user it names. -/
theorem SessionStep.stored (h : SessionStep e w req resp' w') {token : Bytes} {u : User}
    (hopens : Opens w.db req resp' token u) :
    (∃ f, token = hexString f) ∧
      htGet w'.sessions (sessionKey token) = some ⟨u, e.clock (w'.ctr.ticks - 1)⟩ := by
  cases h with
  | kept _ hno _ => exact absurd ⟨hopens.login, hopens.redirected⟩ hno
  | opened u' f w₁ hopens' _ _ _ hticks hget =>
      obtain rfl := hopens.presents.unique hopens'.presents
      obtain rfl := loginCookie_inj (hopens.cookie.symm.trans hopens'.cookie)
      refine ⟨⟨f, rfl⟩, ?_⟩
      rw [hget, hticks, Nat.add_sub_cancel]
      exact Function.update_self ..
  | closed hout => exact absurd hout hopens.login.not_logout

/-- A live session is kept by every request but a logout with its token, also by a login that draws
the token again. -/
theorem SessionStep.keeps (h : SessionStep e w req resp' w') {f : Fin 32 → Fin 16} {s : Session}
    (hs : htGet w.sessions (sessionKey (hexString f)) = some s)
    (hno : ¬ Closes req (hexString f))
    (hlive : ∀ i < w'.ctr.ticks, e.clock i - s.createdAt ≤ sessionMaxAge) :
    htGet w'.sessions (sessionKey (hexString f)) = some s := by
  cases h with
  | kept _ _ hl => exact hl.kept hs hlive
  | opened u g w₁ _ hl habs _ hticks hget =>
      have hs₁ := hl.kept hs fun i hi => hlive i (by omega)
      rw [hget, Function.update_of_ne, hs₁]
      intro hkey
      rw [hkey, habs] at hs₁
      cases hs₁
  | closed hout _ _ hget =>
      rw [hget]
      split_ifs with hnil
      · exact hs
      · rw [Function.update_of_ne, hs]
        intro hkey
        exact hno ⟨hout, cookie_eq_of_key hkey.symm⟩

/-- A session that is there was there before, or the request has opened it. -/
theorem SessionStep.origin (h : SessionStep e w req resp' w') {key : Bytes} {s : Session}
    (hs : htGet w'.sessions key = some s) :
    (htGet w.sessions key = some s ∧ ∀ f, key = sessionKey (hexString f) →
      ¬ Closes req (hexString f)) ∨
    ∃ f, key = sessionKey (hexString f) ∧ Opens w.db req resp' (hexString f) s.user ∧
      s.createdAt = e.clock (w'.ctr.ticks - 1) := by
  cases h with
  | kept hout _ hl => exact .inl ⟨hl.of_some hs, fun _ _ hc => hout hc.1⟩
  | opened u g w₁ hopens hl _ _ hticks hget =>
      rw [hget] at hs
      by_cases hkey : key = sessionKey (hexString g)
      · rw [hkey, Function.update_self] at hs
        obtain rfl := Option.some.inj hs
        refine .inr ⟨g, hkey, hopens, ?_⟩
        rw [hticks, Nat.add_sub_cancel]
      · rw [Function.update_of_ne hkey] at hs
        exact .inl ⟨hl.of_some hs, fun _ _ hc => hopens.login.not_logout hc.1⟩
  | closed hout _ _ hget =>
      rw [hget] at hs
      left
      split_ifs at hs with hnil
      · refine ⟨hs, fun f _ hc => hexString_ne_nil f ?_⟩
        rw [← hc.2, hnil]
      · by_cases hkey : key = sessionKey (logoutToken req)
        · rw [hkey, Function.update_self] at hs
          cases hs
        · rw [Function.update_of_ne hkey] at hs
          refine ⟨hs, fun f hf hc => hkey ?_⟩
          rw [hf, hc.2]

end step

/-! ### Every run -/

section runs
variable {e : Env} {w₀ w w' : World}
  {log : List ((HttpRequest × HttpResponse) × HttpResponse)}

/-- Every session in the table was granted by the log. -/
theorem granted_of_stored (hwf : w₀.sessions.WF) (h₀ : ∀ key, htGet w₀.sessions key = none)
    (hrun : Run answer e w₀ log w) :
    w.sessions.WF ∧ ∀ key s, htGet w.sessions key = some s → ∃ f, key = sessionKey (hexString f) ∧
      Granted e w₀ log (hexString f) s.user s.createdAt := by
  have hinv : Run answer e w₀ log w ∧ w.sessions.WF ∧ ∀ key s, htGet w.sessions key = some s →
      ∃ f, key = sessionKey (hexString f) ∧
        Granted e w₀ log (hexString f) s.user s.createdAt := by
    refine hrun.invariant (I := fun log w => Run answer e w₀ log w ∧ w.sessions.WF ∧ ∀ key s,
      htGet w.sessions key = some s → ∃ f, key = sessionKey (hexString f) ∧
        Granted e w₀ log (hexString f) s.user s.createdAt) ?_ ?_
    · refine ⟨.nil, hwf, fun key s hs => ?_⟩
      rw [h₀] at hs
      cases hs
    · rintro log w x resp' w' ⟨hr, hw, hgranted⟩ h
      have hstep := handleRequest_sessionStep hw h
      refine ⟨.snoc hr h, hstep.wf, fun key s hs => ?_⟩
      rcases hstep.origin hs with ⟨hold, hno⟩ | ⟨f, hkey, hopens, ht⟩
      · obtain ⟨f, hkey, hg⟩ := hgranted key s hold
        exact ⟨f, hkey, hg.snoc (hno f hkey)⟩
      · exact ⟨f, hkey, .intro log [] (x, resp') w w' rfl hr h hopens ht (by simp)⟩
  exact hinv.2

/-- A session that stays live and is not logged out is kept along a run. -/
theorem kept_along (hwf : w.sessions.WF) {f : Fin 32 → Fin 16} {s : Session}
    (hs : htGet w.sessions (sessionKey (hexString f)) = some s) (hrun : Run answer e w log w')
    (hno : ∀ y ∈ log, ¬ Closes y.1.1 (hexString f))
    (hlive : ∀ i < w'.ctr.ticks, e.clock i - s.createdAt ≤ sessionMaxAge) :
    htGet w'.sessions (sessionKey (hexString f)) = some s := by
  have hinv : w'.sessions.WF ∧ ((∀ y ∈ log, ¬ Closes y.1.1 (hexString f)) →
      (∀ i < w'.ctr.ticks, e.clock i - s.createdAt ≤ sessionMaxAge) →
      htGet w'.sessions (sessionKey (hexString f)) = some s) := by
    refine hrun.invariant (I := fun log w' => w'.sessions.WF ∧
      ((∀ y ∈ log, ¬ Closes y.1.1 (hexString f)) →
        (∀ i < w'.ctr.ticks, e.clock i - s.createdAt ≤ sessionMaxAge) →
        htGet w'.sessions (sessionKey (hexString f)) = some s)) ⟨hwf, fun _ _ => hs⟩ ?_
    rintro log w₁ x resp' w₂ ⟨hw, hkept⟩ h
    have hstep := handleRequest_sessionStep hw h
    refine ⟨hstep.wf, fun hno hlive => hstep.keeps (hkept ?_ ?_) ?_ hlive⟩
    · exact fun y hy => hno y (List.mem_append_left _ hy)
    · exact fun i hi => hlive i (lt_of_lt_of_le hi hstep.ticks)
    · exact hno (x, resp') (List.mem_append_right _ List.mem_cons_self)
  exact hinv.2 hno hlive

/-- **Authentication.**  After every run of requests, whatever fails and whatever tokens are drawn,
a request counts as `u` exactly when the log has granted its token to `u` and the grant is not too
old. -/
theorem authenticated_iff (he : Monotone e.clock) {seed : UInt64} {tableOk poolOk : Bool}
    (h₀ : sessionInit seed tableOk poolOk = some w₀.sessions) (hrun : Run answer e w₀ log w)
    {req : HttpRequest} {out : Option User} (h : getSessionUser req e w = (out, w')) (u : User) :
    out = some u ↔ ∃ t, Granted e w₀ log (sessionToken req) u t ∧
      e.clock w.ctr.ticks - t ≤ sessionMaxAge := by
  obtain ⟨hwf₀, hnil⟩ := htCreate_wf h₀
  have hempty : ∀ key, htGet w₀.sessions key = none := congrFun (htGet_of_entries_nil hwf₀ hnil)
  obtain ⟨hwf, hgranted⟩ := granted_of_stored hwf₀ hempty hrun
  constructor
  · rintro rfl
    rcases getSessionUser_run h with ⟨hu, -⟩ | ⟨-, hv⟩
    · cases hu
    rcases sessionVerify_run hv with ⟨-, hu, -⟩ | ⟨s, hs, ⟨-, hu, -⟩ | ⟨hlive, hu, -⟩⟩
    · cases hu
    · cases hu
    · obtain rfl := Option.some.inj hu
      obtain ⟨f, hkey, hg⟩ := hgranted _ s hs
      rw [← cookie_eq_of_key hkey] at hg
      exact ⟨s.createdAt, hg, hlive⟩
  · rintro ⟨t, ⟨before, after, x, w₁, w₂, hlog, hbefore, hx, hopens, rfl, hafter⟩, hage⟩
    -- the run goes through the states of the grant
    subst hlog
    obtain ⟨s₁, s₂, h₁, h₂, h₃⟩ := hrun.split_at
    obtain rfl := h₁.unique hbefore
    obtain rfl := (Prod.mk.inj (h₂.symm.trans hx)).2
    have hwf₁ := (granted_of_stored hwf₀ hempty hbefore).1
    have hstep := handleRequest_sessionStep hwf₁ hx
    obtain ⟨⟨f, hf⟩, hs⟩ := hstep.stored hopens
    rw [hf] at hs hafter
    have hkept := kept_along hstep.wf hs h₃ hafter fun i hi => by
      have hclock := he hi.le
      show e.clock i - e.clock (s₂.ctr.ticks - 1) ≤ sessionMaxAge
      omega
    rcases getSessionUser_run h with ⟨-, hnone, -⟩ | ⟨-, hv⟩
    · exact absurd (hf.symm.trans hnone) (hexString_ne_nil f)
    · have htoken : httpRequestCookie req sessionCookieName (tokenHexLen + 1) = hexString f := hf
      rw [htoken] at hv
      rcases sessionVerify_run hv with ⟨hnone, -⟩ | ⟨s, hs', ⟨hexp, -⟩ | ⟨-, hu, -⟩⟩
      · rw [hkept] at hnone
        cases hnone
      · obtain rfl := Option.some.inj (hkept.symm.trans hs')
        exact absurd hage (not_le.mpr hexp)
      · obtain rfl := Option.some.inj (hkept.symm.trans hs')
        exact hu

end runs

end platform

/-- A request with the token of the first login. -/
def adaRequest : HttpRequest := (formRequest "/home" "aaaaaaaaaaaaaaaaaaaaaaaaaaaaaaa0" "").1

theorem authenticated_iff_sampleRequests :
    letI := samplePlatform
    ∃ u t, u.username = bytes "ada" ∧
      Granted townEnv (emptyWorld noSessions) sampleAnswered.1 (sessionToken adaRequest) u t := by
  let := samplePlatform
  have hname : (getSessionUser adaRequest townEnv sampleAnswered.2).1.map User.username =
      some (bytes "ada") := by decide +kernel
  obtain ⟨u, hu, hada⟩ := Option.map_eq_some_iff.mp hname
  obtain ⟨t, hgranted, -⟩ := (authenticated_iff (e := townEnv) sampleClock_monotone
    sessionInit_noSessions run_sampleAnswered (Prog.run_of_fst hu) u).mp rfl
  exact ⟨u, t, hada, hgranted⟩

end Segnalacity
