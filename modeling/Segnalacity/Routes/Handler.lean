import Segnalacity.Connection
import Segnalacity.Routes.Api
import Segnalacity.Routes.Pages

/-! # The dispatch table

`route_handler.c`: the path is matched first, then the method, so that a known path with another
method is answered 405.  `appServices` is the application behind the connection handler. -/

namespace Segnalacity

open CStr StateProg Http

structure Route [Platform] where
  method : Bytes
  path : Bytes
  handler : HttpRequest → HttpResponse → App HttpResponse

variable [Platform]

def routes : List Route := [
  ⟨bytes "GET", bytes "/", routeGetRoot⟩,
  ⟨bytes "GET", bytes "/home", routeGetHome⟩,
  ⟨bytes "GET", bytes "/register", routeGetRegister⟩,
  ⟨bytes "GET", bytes "/submit", routeGetSubmit⟩,
  ⟨bytes "GET", bytes "/logout", routeGetLogout⟩,
  ⟨bytes "POST", bytes "/login", routePostLogin⟩,
  ⟨bytes "POST", bytes "/register", routePostRegister⟩,
  ⟨bytes "POST", bytes "/submit", routePostSubmit⟩,
  ⟨bytes "GET", bytes "/api/cities", routeApiCities⟩,
  ⟨bytes "GET", bytes "/api/reports/active", routeApiReportsActive⟩,
  ⟨bytes "GET", bytes "/api/reports/archived", routeApiReportsArchived⟩,
  ⟨bytes "GET", bytes "/api/reports/all", routeApiReportsAll⟩,
  ⟨bytes "GET", bytes "/api/operators", routeApiOperators⟩,
  ⟨bytes "POST", bytes "/api/report/status", routeApiReportStatus⟩,
  ⟨bytes "POST", bytes "/api/report/respond", routeApiReportRespond⟩,
  ⟨bytes "POST", bytes "/api/report/feedback", routeApiReportFeedback⟩,
  ⟨bytes "POST", bytes "/api/admin/assign", routeApiAdminAssign⟩,
  ⟨bytes "GET", bytes "/static/common.css", routeStaticCss⟩,
  ⟨bytes "GET", bytes "/api/docs", routeStaticDocs⟩]

/-- The paths of the table, in its order. -/
def routePaths : List Bytes := [
  bytes "/", bytes "/home", bytes "/register", bytes "/submit", bytes "/logout", bytes "/login",
  bytes "/register", bytes "/submit", bytes "/api/cities", bytes "/api/reports/active",
  bytes "/api/reports/archived", bytes "/api/reports/all", bytes "/api/operators",
  bytes "/api/report/status", bytes "/api/report/respond", bytes "/api/report/feedback",
  bytes "/api/admin/assign", bytes "/static/common.css", bytes "/api/docs"]

theorem routes_path : routes.map Route.path = routePaths := rfl

def notFound (req : HttpRequest) (resp : HttpResponse) : HttpResponse :=
  HttpResponse.print { resp with statusCode := 404 }
    (bytes "<h1>404 Not Found</h1><p><code>" ++ cstr (req.path.text.take urlBufferSize) ++
      bytes "</code> does not exist.</p>")

/-- The loop of `handle_request` over the rest of the table. -/
def dispatch (req : HttpRequest) (resp : HttpResponse) : Bool → List Route → App HttpResponse
  | pathFound, [] =>
      if pathFound then pure (respHtmlError resp 405 (bytes "405 Method Not Allowed"))
      else pure (notFound req resp)
  | pathFound, r :: rs =>
      if !httpIsRequestPath req r.path then dispatch req resp pathFound rs
      else if httpIsRequestMethod req r.method then r.handler req resp
      else dispatch req resp true rs

def handleRequest (req : HttpRequest) (resp : HttpResponse) : App HttpResponse :=
  dispatch req resp false routes

/-- The application behind one connection; the limiter keeps its own state. -/
def appServices {ρ : Type} (e : Env) (rateLimitCheck : ρ → Bool × ρ) : Services (ρ × World) where
  rateLimitCheck s := ((rateLimitCheck s.1).1, ((rateLimitCheck s.1).2, s.2))
  handleRequest req resp s :=
    let r := handleRequest req resp e s.2
    (r.1, (s.1, r.2))

/-- The first route with the path and the method of the request answers it. -/
theorem dispatch_eq {req : HttpRequest} {resp : HttpResponse} (before : List Route) (r : Route)
    {after : List Route}
    (hbefore : ∀ x ∈ before,
      httpIsRequestPath req x.path = false ∨ httpIsRequestMethod req x.method = false)
    (hpath : httpIsRequestPath req r.path = true)
    (hmethod : httpIsRequestMethod req r.method = true) (pathFound : Bool) :
    dispatch req resp pathFound (before ++ r :: after) = r.handler req resp := by
  induction before generalizing pathFound with
  | nil =>
      unfold dispatch
      simp [hpath, hmethod]
  | cons x before ih =>
      have ih' := ih fun y hy => hbefore y (List.mem_cons_of_mem _ hy)
      rw [List.cons_append]
      unfold dispatch
      cases hx : httpIsRequestPath req x.path with
      | false =>
          simp only [Bool.not_false, if_true]
          exact ih' pathFound
      | true =>
          have hother : httpIsRequestMethod req x.method = false := by
            rcases hbefore x List.mem_cons_self with hno | hno
            · rw [hx] at hno
              cases hno
            · exact hno
          simp only [Bool.not_true, Bool.false_eq_true, if_false, hother]
          exact ih' true

theorem handleRequest_first {req : HttpRequest} {resp : HttpResponse} (n : ℕ) (method path : Bytes)
    {handler : HttpRequest → HttpResponse → App HttpResponse} {after : List Route}
    (hroutes : routes = routes.take n ++ ⟨method, path, handler⟩ :: after)
    (hbefore : ∀ x ∈ routes.take n,
      httpIsRequestPath req x.path = false ∨ httpIsRequestMethod req x.method = false)
    (hpath : httpIsRequestPath req path = true) (hmethod : httpIsRequestMethod req method = true) :
    handleRequest req resp = handler req resp := by
  unfold handleRequest
  rw [hroutes]
  exact dispatch_eq (routes.take n) ⟨method, path, handler⟩ hbefore hpath hmethod false

/-- The first route with its path answers a request for it. -/
theorem handleRequest_eq {req : HttpRequest} {resp : HttpResponse} (n : ℕ) (method path : Bytes)
    {handler : HttpRequest → HttpResponse → App HttpResponse} {after : List Route}
    (hroutes : routes = routes.take n ++ ⟨method, path, handler⟩ :: after)
    (hfirst : path ∉ routePaths.take n) (hpath : httpIsRequestPath req path = true)
    (hmethod : httpIsRequestMethod req method = true) :
    handleRequest req resp = handler req resp := by
  have htext : req.path.text = path := of_decide_eq_true hpath
  refine handleRequest_first n method path hroutes (fun x hx => .inl ?_) hpath hmethod
  unfold httpIsRequestPath
  rw [htext]
  refine decide_eq_false fun heq => hfirst ?_
  rw [heq, ← routes_path, ← List.map_take]
  exact List.mem_map_of_mem hx

/-- A request is handled by a route of the table or answered without one. -/
theorem dispatch_run {req : HttpRequest} {resp resp' : HttpResponse} {e : Env} {w w' : World}
    {rs : List Route} {pathFound : Bool} (h : dispatch req resp pathFound rs e w = (resp', w')) :
    w' = w ∨ ∃ r ∈ rs, httpIsRequestPath req r.path = true ∧
      httpIsRequestMethod req r.method = true ∧ r.handler req resp e w = (resp', w') := by
  induction rs generalizing pathFound with
  | nil =>
      left
      unfold dispatch at h
      rw [Prog.ite_run] at h
      split_ifs at h
      · exact (Prog.pure_run_iff.mp h).2
      · exact (Prog.pure_run_iff.mp h).2
  | cons r rs ih =>
      have hlater : ∀ {found}, dispatch req resp found rs e w = (resp', w') → w' = w ∨
          ∃ x ∈ r :: rs, httpIsRequestPath req x.path = true ∧
            httpIsRequestMethod req x.method = true ∧ x.handler req resp e w = (resp', w') := by
        intro found hd
        rcases ih hd with hw | ⟨x, hx, hrest⟩
        · exact Or.inl hw
        · exact Or.inr ⟨x, List.mem_cons_of_mem _ hx, hrest⟩
      unfold dispatch at h
      rw [Prog.ite_run, Prog.ite_run] at h
      split_ifs at h with hpath hmethod
      · exact hlater h
      · exact Or.inr ⟨r, List.mem_cons_self, by simpa using hpath, hmethod, h⟩
      · exact hlater h

theorem handleRequest_run {req : HttpRequest} {resp resp' : HttpResponse} {e : Env} {w w' : World}
    (h : handleRequest req resp e w = (resp', w')) :
    w' = w ∨ ∃ r ∈ routes, httpIsRequestPath req r.path = true ∧
      httpIsRequestMethod req r.method = true ∧ r.handler req resp e w = (resp', w') :=
  dispatch_run h

end Segnalacity
