import Segnalacity.Lifecycle
import Segnalacity.Routes.Api

/-! # The endpoints that write reports

The four `POST` endpoints have one shape: they find the session user, check the request, and
either answer with an error and have changed nothing, or carry out the report operation that the
request asks for and answer by its result (`Endpoint.run_spec`).  Only the assignment may go on
after a refused operation: a report that is just assigned is reset and assigned again. -/

namespace Segnalacity

open CStr StateProg Sql Http HashTable

variable [Platform]

/-! ### Logged-in users -/

/-- The request carries the cookie of a session of `u` that is live at the next reading. -/
def LoggedInAs (e : Env) (w : World) (req : HttpRequest) (u : User) : Prop :=
  httpRequestCookie req sessionCookieName (tokenHexLen + 1) ≠ [] ∧
    ∃ s, htGet w.sessions
        (sessionKey (httpRequestCookie req sessionCookieName (tokenHexLen + 1))) = some s ∧
      s.user = u ∧ e.clock w.ctr.ticks - s.createdAt ≤ sessionMaxAge

section runs
variable {e : Env} {w w' : World} {req : HttpRequest}

theorem getSessionUser_loggedIn (hw : w.sessions.WF) {u : Option User}
    (h : getSessionUser req e w = (u, w')) :
    Evicts e w w' ∧ ∀ x ∈ u, LoggedInAs e w req x := by
  rcases getSessionUser_run h with ⟨rfl, -, rfl⟩ | ⟨htok, hv⟩
  · exact ⟨Evicts.refl hw, by simp⟩
  · refine ⟨sessionVerify_evicts hw hv, ?_⟩
    rintro x hx
    rcases sessionVerify_run hv with ⟨-, rfl, -⟩ | ⟨s, hs, ⟨-, rfl, -⟩ | ⟨hlive, rfl, -⟩⟩
    · cases hx
    · cases hx
    · exact ⟨htok, s, hs, Option.some.inj hx, hlive⟩

theorem sessionUserWith_run {allowed : User → Bool} (hw : w.sessions.WF) {u : Option User}
    (h : sessionUserWith allowed req e w = (u, w')) :
    Evicts e w w' ∧ ∀ x ∈ u, allowed x = true ∧ LoggedInAs e w req x := by
  obtain ⟨u₁, w₁, h₁, h₂⟩ := Prog.bind_run_iff.mp h
  obtain ⟨rfl, rfl⟩ := Prog.pure_run_iff.mp h₂
  obtain ⟨hev, hlog⟩ := getSessionUser_loggedIn hw h₁
  refine ⟨hev, fun x hx => ?_⟩
  obtain ⟨hx₁, hx₂⟩ := Option.filter_eq_some_iff.mp hx
  exact ⟨hx₂, hlog x hx₁⟩

end runs

/-! ### Endpoints -/

inductive Endpoint where
  | status
  | respond
  | feedback
  | assign
deriving DecidableEq, Repr

/-- The report that a request names. -/
def namedReport (req : HttpRequest) : UInt64 :=
  strtoull (getField req.bodyPtr (bytes "report_id=") reportIdParamLen)

def namedOperator (req : HttpRequest) : UInt64 :=
  strtoull (getField req.bodyPtr (bytes "operator_id=") operatorIdParamLen)

namespace Endpoint

def path : Endpoint → Bytes
  | status => bytes "/api/report/status"
  | respond => bytes "/api/report/respond"
  | feedback => bytes "/api/report/feedback"
  | assign => bytes "/api/admin/assign"

def handler : Endpoint → HttpRequest → HttpResponse → App HttpResponse
  | status => routeApiReportStatus
  | respond => routeApiReportRespond
  | feedback => routeApiReportFeedback
  | assign => routeApiAdminAssign

/-- Who may use the endpoint. -/
def allowed : Endpoint → User → Bool
  | status => userIsOperator
  | respond => userIsOperator
  | feedback => fun u => !userIsOperator u && !userIsAdmin u
  | assign => userIsAdmin

/-- The operation that a request of `u` asks for. -/
def asked (ep : Endpoint) (req : HttpRequest) (u : User) : ReportCall :=
  match ep with
  | status => .resolve (namedReport req) u.userId
  | respond =>
      if strncmpEq (getField req.bodyPtr (bytes "action=") actionParamLen) (bytes "accept") 6 then
        .accept (namedReport req) u.userId
      else .reject (namedReport req) u.userId
  | feedback => .setFeedback (namedReport req) u.userId
      (atoi (getField req.bodyPtr (bytes "stars=") 4))
  | assign => .assign (namedReport req) (namedOperator req)

/-- What has been checked before the operation is tried. -/
structure Checked (ep : Endpoint) (db : Database) (req : HttpRequest) (u : User) : Prop where
  role : ep.allowed u = true
  city : ep ≠ feedback → ∃ x ∈ db.reports, x.id = i64 (namedReport req) ∧
    strncmpEq (cursorToReport x).city u.city cityLen = true
  operator : ep = assign → ∃ op ∈ db.users, op.id = i64 (namedOperator req) ∧
    userIsOperator (cursorToUser op) = true ∧
    strncmpEq (cursorToUser op).city u.city cityLen = true

end Endpoint

/-- The forced assignment: refused, read again as assigned, reset, assigned. -/
structure Reassigned (e : Env) (r o : UInt64) (w w' : World) (rc : ℤ) : Prop where
  run : ∃ w₁ w₂ w₃ rr rc₁, (ReportCall.assign r o).run e w = (0, w₁) ∧
    reportGetById r e w₁ = (some rr, w₂) ∧ rr.status = .assigned ∧
    resetReport r e w₂ = (rc₁, w₃) ∧ (ReportCall.assign r o).run e w₃ = (rc, w')

/-- How an endpoint ends when it does not answer an error early. -/
inductive Endpoint.Acted (e : Env) (ep : Endpoint) (req : HttpRequest) (u : User) (w w' : World)
    (rc : ℤ) : Prop
  | called : (ep.asked req u).run e w = (rc, w') → Acted e ep req u w w' rc
  | refused {w₁ : World} : (ep.asked req u).run e w = (0, w₁) → ReadsOnly w₁ w' → rc = 0 →
      Acted e ep req u w w' rc
  | reassigned : ep = assign → Reassigned e (namedReport req) (namedOperator req) w w' rc →
      Acted e ep req u w w' rc

/-- The two ways an endpoint ends: an early error that has only read, or an operation whose
result decides the status; the four reads before an assignment have all succeeded. -/
inductive Endpoint.Ended (e : Env) (ep : Endpoint) (req : HttpRequest) (w w' : World)
    (status : ℕ) : Prop
  | refused (w₁ : World) : Evicts e w w₁ → ReadsOnly w₁ w' → status ≠ 200 →
      Ended e ep req w w' status
  | acted (u : User) (w₁ w₂ : World) (rc : ℤ) : LoggedInAs e w req u → Evicts e w w₁ →
      ReadsOnly w₁ w₂ → (ep = assign → Succeeded e 4 w₁ w₂) → ep.Checked w.db req u →
      ep.Acted e req u w₂ w' rc → (status = 200 ↔ 0 < rc) → Ended e ep req w w' status

section specs
variable {e : Env} {w w' : World} {req : HttpRequest} {resp resp' : HttpResponse}

theorem routeApiReportStatus_run (hw : w.sessions.WF)
    (h : routeApiReportStatus req resp e w = (resp', w')) :
    Endpoint.status.Ended e req w w' resp'.statusCode := by
  obtain ⟨u, w₁, h₁, h₂⟩ := Prog.bind_run_iff.mp h
  obtain ⟨hev, hu⟩ := sessionUserWith_run hw h₁
  cases u with
  | none =>
      obtain ⟨rfl, rfl⟩ := Prog.pure_run_iff.mp h₂
      exact .refused w' hev (ReadsOnly.refl _) (by simp)
  | some u =>
      obtain ⟨hrole, hlog⟩ := hu u rfl
      rcases Prog.ite_run_iff.mp h₂ with ⟨-, h₂⟩ | ⟨-, h₂⟩
      · obtain ⟨rfl, rfl⟩ := Prog.pure_run_iff.mp h₂
        exact .refused w' hev (ReadsOnly.refl _) (by simp)
      · obtain ⟨r, w₂, h₃, h₄⟩ := Prog.bind_run_iff.mp h₂
        obtain ⟨hread, hrow⟩ := reportGetById_run h₃
        cases r with
        | none =>
            obtain ⟨rfl, rfl⟩ := Prog.pure_run_iff.mp h₄
            exact .refused w₁ hev hread (by simp)
        | some r =>
            obtain ⟨x, hx, hid, rfl⟩ := hrow r rfl
            rcases Prog.ite_run_iff.mp h₄ with ⟨-, h₅⟩ | ⟨hcity, h₅⟩
            · obtain ⟨rfl, rfl⟩ := Prog.pure_run_iff.mp h₅
              exact .refused w₁ hev hread (by simp)
            · rcases Prog.ite_run_iff.mp h₅ with ⟨-, h₆⟩ | ⟨-, h₆⟩
              · obtain ⟨rc, w₃, h₇, h₈⟩ := Prog.bind_run_iff.mp h₆
                obtain ⟨rfl, rfl⟩ := Prog.pure_run_iff.mp h₈
                refine .acted u w₁ w₂ rc hlog hev hread (by simp) ⟨hrole, fun _ => ?_, by simp⟩ (.called h₇)
                  (respWrite_status _ _ (by decide) _)
                exact ⟨x, hev.data.db ▸ hx, hid, by simpa using hcity⟩
              · obtain ⟨rfl, rfl⟩ := Prog.pure_run_iff.mp h₆
                exact .refused w₁ hev hread (by simp)

theorem routeApiReportRespond_run (hw : w.sessions.WF)
    (h : routeApiReportRespond req resp e w = (resp', w')) :
    Endpoint.respond.Ended e req w w' resp'.statusCode := by
  obtain ⟨u, w₁, h₁, h₂⟩ := Prog.bind_run_iff.mp h
  obtain ⟨hev, hu⟩ := sessionUserWith_run hw h₁
  cases u with
  | none =>
      obtain ⟨rfl, rfl⟩ := Prog.pure_run_iff.mp h₂
      exact .refused w' hev (ReadsOnly.refl _) (by simp)
  | some u =>
      obtain ⟨hrole, hlog⟩ := hu u rfl
      rcases Prog.ite_run_iff.mp h₂ with ⟨-, h₂⟩ | ⟨-, h₂⟩
      · obtain ⟨rfl, rfl⟩ := Prog.pure_run_iff.mp h₂
        exact .refused w' hev (ReadsOnly.refl _) (by simp)
      · rcases Prog.ite_run_iff.mp h₂ with ⟨-, h₃⟩ | ⟨-, h₃⟩
        · obtain ⟨rfl, rfl⟩ := Prog.pure_run_iff.mp h₃
          exact .refused w' hev (ReadsOnly.refl _) (by simp)
        · obtain ⟨r, w₂, h₄, h₅⟩ := Prog.bind_run_iff.mp h₃
          obtain ⟨hread, hrow⟩ := reportGetById_run h₄
          cases r with
          | none =>
              obtain ⟨rfl, rfl⟩ := Prog.pure_run_iff.mp h₅
              exact .refused w₁ hev hread (by simp)
          | some r =>
              obtain ⟨x, hx, hid, rfl⟩ := hrow r rfl
              rcases Prog.ite_run_iff.mp h₅ with ⟨-, h₆⟩ | ⟨hcity, h₆⟩
              · obtain ⟨rfl, rfl⟩ := Prog.pure_run_iff.mp h₆
                exact .refused w₁ hev hread (by simp)
              · have hchecked : Endpoint.respond.Checked w.db req u :=
                  ⟨hrole, fun _ => ⟨x, hev.data.db ▸ hx, hid, by simpa using hcity⟩, by simp⟩
                rcases Prog.ite_run_iff.mp h₆ with ⟨haccept, h₆⟩ | ⟨haccept, h₆⟩
                · obtain ⟨rc, w₃, h₇, h₈⟩ := Prog.bind_run_iff.mp h₆
                  obtain ⟨rfl, rfl⟩ := Prog.pure_run_iff.mp h₈
                  refine .acted u w₁ w₂ rc hlog hev hread (by simp) hchecked (.called ?_)
                    (respWrite_status _ _ (by decide) _)
                  unfold Endpoint.asked
                  rw [if_pos haccept]
                  exact h₇
                · obtain ⟨rc, w₃, h₇, h₈⟩ := Prog.bind_run_iff.mp h₆
                  obtain ⟨rfl, rfl⟩ := Prog.pure_run_iff.mp h₈
                  refine .acted u w₁ w₂ rc hlog hev hread (by simp) hchecked (.called ?_)
                    (respWrite_status _ _ (by decide) _)
                  unfold Endpoint.asked
                  rw [if_neg haccept]
                  exact h₇

theorem routeApiReportFeedback_run (hw : w.sessions.WF)
    (h : routeApiReportFeedback req resp e w = (resp', w')) :
    Endpoint.feedback.Ended e req w w' resp'.statusCode := by
  obtain ⟨u, w₁, h₁, h₂⟩ := Prog.bind_run_iff.mp h
  obtain ⟨hev, hu⟩ := sessionUserWith_run hw h₁
  cases u with
  | none =>
      obtain ⟨rfl, rfl⟩ := Prog.pure_run_iff.mp h₂
      exact .refused w' hev (ReadsOnly.refl _) (by simp)
  | some u =>
      obtain ⟨hrole, hlog⟩ := hu u rfl
      rcases Prog.ite_run_iff.mp h₂ with ⟨-, h₂⟩ | ⟨-, h₂⟩
      · obtain ⟨rfl, rfl⟩ := Prog.pure_run_iff.mp h₂
        exact .refused w' hev (ReadsOnly.refl _) (by simp)
      · rcases Prog.ite_run_iff.mp h₂ with ⟨-, h₃⟩ | ⟨-, h₃⟩
        · obtain ⟨rfl, rfl⟩ := Prog.pure_run_iff.mp h₃
          exact .refused w' hev (ReadsOnly.refl _) (by simp)
        · obtain ⟨rc, w₂, h₄, h₅⟩ := Prog.bind_run_iff.mp h₃
          obtain ⟨rfl, rfl⟩ := Prog.pure_run_iff.mp h₅
          exact .acted u w₁ w₁ rc hlog hev (ReadsOnly.refl _) (by simp) ⟨hrole, by simp, by simp⟩
            (.called h₄) (respWrite_status _ _ (by decide) _)

theorem forceAssign_run {r o : UInt64} {w₁ : World} {rc : ℤ}
    (hassign : (ReportCall.assign r o).run e w = (0, w₁))
    (h : forceAssign r o e w₁ = (rc, w')) :
    (rc = 0 ∧ ReadsOnly w₁ w') ∨ Reassigned e r o w w' rc := by
  obtain ⟨rr, w₂, h₁, h₂⟩ := Prog.bind_run_iff.mp h
  rcases Prog.ite_run_iff.mp h₂ with ⟨hrr, h₃⟩ | ⟨-, h₃⟩
  · obtain ⟨rc₁, w₃, h₄, h₅⟩ := Prog.bind_run_iff.mp h₃
    cases rr with
    | none => cases hrr
    | some rr => exact Or.inr ⟨w₁, w₂, w₃, rr, rc₁, hassign, h₁, by simpa using hrr, h₄, h₅⟩
  · obtain ⟨rfl, rfl⟩ := Prog.pure_run_iff.mp h₃
    exact Or.inl ⟨rfl, (reportGetById_run h₁).1⟩

theorem routeApiAdminAssign_run (hw : w.sessions.WF)
    (h : routeApiAdminAssign req resp e w = (resp', w')) :
    Endpoint.assign.Ended e req w w' resp'.statusCode := by
  obtain ⟨u, w₁, h₁, h₂⟩ := Prog.bind_run_iff.mp h
  obtain ⟨hev, hu⟩ := sessionUserWith_run hw h₁
  cases u with
  | none =>
      obtain ⟨rfl, rfl⟩ := Prog.pure_run_iff.mp h₂
      exact .refused w' hev (ReadsOnly.refl _) (by simp)
  | some u =>
      obtain ⟨hrole, hlog⟩ := hu u rfl
      rcases Prog.ite_run_iff.mp h₂ with ⟨-, h₂⟩ | ⟨-, h₂⟩
      · obtain ⟨rfl, rfl⟩ := Prog.pure_run_iff.mp h₂
        exact .refused w' hev (ReadsOnly.refl _) (by simp)
      · obtain ⟨r, w₂, h₃, h₄⟩ := Prog.bind_run_iff.mp h₂
        obtain ⟨hread, hrow⟩ := reportGetById_run h₃
        cases r with
        | none =>
            obtain ⟨rfl, rfl⟩ := Prog.pure_run_iff.mp h₄
            exact .refused w₁ hev hread (by simp)
        | some r =>
            obtain ⟨x, hx, hid, rfl⟩ := hrow r rfl
            rcases Prog.ite_run_iff.mp h₄ with ⟨-, h₅⟩ | ⟨hcity, h₅⟩
            · obtain ⟨rfl, rfl⟩ := Prog.pure_run_iff.mp h₅
              exact .refused w₁ hev hread (by simp)
            · obtain ⟨op, w₃, h₆, h₇⟩ := Prog.bind_run_iff.mp h₅
              obtain ⟨hread', hop⟩ := userGetById_run h₆
              have hreads := hread.trans hread'
              generalize hfilter : (op.filter fun op =>
                userIsOperator op && strncmpEq op.city u.city cityLen) = found at h₇
              cases found with
              | none =>
                  obtain ⟨rfl, rfl⟩ := Prog.pure_run_iff.mp h₇
                  exact .refused w₁ hev hreads (by simp)
              | some op' =>
                  obtain ⟨hop₁, hop₂⟩ := Option.filter_eq_some_iff.mp hfilter
                  obtain ⟨row, hrow', hrid, rfl⟩ := hop op' hop₁
                  simp only [Bool.and_eq_true] at hop₂
                  rw [hop₁] at h₆
                  have hcalls : Succeeded e 4 w₁ w₃ :=
                    (reportGetById_succeeded h₃).trans (userGetById_succeeded h₆)
                  have hchecked : Endpoint.assign.Checked w.db req u := by
                    refine ⟨hrole, fun _ => ?_, fun _ => ?_⟩
                    · exact ⟨x, hev.data.db ▸ hx, hid, by simpa using hcity⟩
                    · exact ⟨row, hev.data.db ▸ hread.db ▸ hrow', hrid, hop₂⟩
                  obtain ⟨rc, w₄, h₈, h₉⟩ := Prog.bind_run_iff.mp h₇
                  rcases Prog.ite_run_iff.mp h₉ with ⟨rfl, h₉⟩ | ⟨-, h₉⟩
                  · obtain ⟨rc, w₅, h₁₀, h₁₁⟩ := Prog.bind_run_iff.mp h₉
                    obtain ⟨rfl, rfl⟩ := Prog.pure_run_iff.mp h₁₁
                    have hstatus := respWrite_status resp rc (show 409 ≠ 200 by decide)
                      (bytes "report already in progress or resolved")
                    rcases forceAssign_run h₈ h₁₀ with ⟨rfl, hread''⟩ | hre
                    · exact .acted u w₁ w₃ 0 hlog hev hreads (fun _ => hcalls) hchecked (.refused h₈ hread'' rfl)
                        hstatus
                    · exact .acted u w₁ w₃ rc hlog hev hreads (fun _ => hcalls) hchecked (.reassigned rfl hre) hstatus
                  · obtain ⟨rfl, rfl⟩ := Prog.pure_run_iff.mp h₉
                    exact .acted u w₁ w₃ rc hlog hev hreads (fun _ => hcalls) hchecked (.called h₈)
                      (respWrite_status _ _ (by decide) _)

/-- Each endpoint ends in one of the two ways. -/
theorem Endpoint.run_spec (ep : Endpoint) (hw : w.sessions.WF)
    (h : ep.handler req resp e w = (resp', w')) : ep.Ended e req w w' resp'.statusCode := by
  cases ep with
  | status => exact routeApiReportStatus_run hw h
  | respond => exact routeApiReportRespond_run hw h
  | feedback => exact routeApiReportFeedback_run hw h
  | assign => exact routeApiAdminAssign_run hw h

end specs

end Segnalacity
