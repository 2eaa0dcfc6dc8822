import Segnalacity.Geo
import Segnalacity.Http.Utils
import Segnalacity.Session
import Segnalacity.Template

/-! # Helpers of the route handlers

`route_helpers.c`.  A handler takes the request and the response that the connection has prepared
and returns the response it leaves. -/

namespace Segnalacity

open CStr StateProg Http

def errorBlockMaxLen : ℕ := 128
def escapedParamLen : ℕ := 64

def tplLogin : Bytes := bytes "templates/login.html"
def tplRegister : Bytes := bytes "templates/register.html"
def tplSubmit : Bytes := bytes "templates/submit.html"
def tplCitizenHome : Bytes := bytes "templates/citizen_home.html"
def tplOperatorMap : Bytes := bytes "templates/operator_map.html"
def tplAdminMap : Bytes := bytes "templates/admin_map.html"
def tplCss : Bytes := bytes "templates/common.css"
def tplDocs : Bytes := bytes "templates/swagger_api_docs.html"
def citiesJsonPath : Bytes := bytes "data/cities.json"

/-! ### Responses -/

def redirect (resp : HttpResponse) (url : Bytes) (cookie : Option Bytes) : HttpResponse :=
  { resp with
    statusCode := 302
    location := snprintf 256 url
    setCookie := match cookie with
      | some c => snprintf cookieMax c
      | none => resp.setCookie }

/-- `snprintf` of a text into the response buffer, and its `strlen`. -/
def HttpResponse.print (resp : HttpResponse) (text : Bytes) : HttpResponse :=
  let s := cstr (snprintf responseBufferSize text)
  { resp with body := overlay (snprintf responseBufferSize text ++ [0]) resp.body, bodyLen := s.length }

def respJsonError (resp : HttpResponse) (status : ℕ) (msg : Bytes) : HttpResponse :=
  HttpResponse.print { resp with statusCode := status }
    (bytes "\x7b\"error\":\"" ++ msg ++ bytes "\"\x7d")

def respHtmlError (resp : HttpResponse) (status : ℕ) (msg : Bytes) : HttpResponse :=
  HttpResponse.print { resp with statusCode := status } (bytes "<h1>" ++ msg ++ bytes "</h1>")

def respOk (resp : HttpResponse) : HttpResponse :=
  HttpResponse.print { resp with statusCode := 200 } (bytes "\x7b\"ok\":true\x7d")

/-- The answer to a write that returned `rc`: refused by its guard, failed or carried out. -/
def respWrite (resp : HttpResponse) (rc : ℤ) (status : ℕ) (msg : Bytes) : HttpResponse :=
  if rc = 0 then respJsonError resp status msg
  else if rc < 0 then respJsonError resp 500 (bytes "db error")
  else respOk resp

@[simp] theorem respJsonError_status (resp : HttpResponse) (status : ℕ) (msg : Bytes) :
    (respJsonError resp status msg).statusCode = status := rfl

@[simp] theorem respOk_status (resp : HttpResponse) : (respOk resp).statusCode = 200 := rfl

theorem respWrite_status (resp : HttpResponse) (rc : ℤ) {status : ℕ} (h : status ≠ 200)
    (msg : Bytes) : (respWrite resp rc status msg).statusCode = 200 ↔ 0 < rc := by
  unfold respWrite
  split_ifs with h₀ h₁
  · simp [h, h₀]
  · simp only [respJsonError_status, Nat.reduceEqDiff, false_iff]
    omega
  · simp only [respOk_status, true_iff]
    omega

variable [Platform]

/-! ### Session -/

def getSessionUser (req : HttpRequest) : App (Option User) :=
  let token := httpRequestCookie req sessionCookieName (tokenHexLen + 1)
  if token = [] then pure none else sessionVerify token

/-! ### Pages -/

/-- A template served as it is, or the error of the caller. -/
def serveTpl (resp : HttpResponse) (path : Bytes) (contentType : Bytes)
    (missing : HttpResponse) : App HttpResponse := do
  let tpl ← tplGet path
  match tpl with
  | none => pure missing
  | some tpl =>
      let (n, body) := tplRender tpl resp.body responseBufferSize []
      pure { resp with
        statusCode := 200, contentType := some contentType, body := body, bodyLen := n.toNat }

def respRenderTpl (resp : HttpResponse) (tplName : Bytes) (vars : List TplVar) :
    App HttpResponse := do
  let tpl ← tplGet tplName
  match tpl with
  | none => pure (respHtmlError resp 500 (bytes "Server Error"))
  | some tpl =>
      let (n, body) := tplRender tpl resp.body responseBufferSize vars
      pure { resp with statusCode := 200, body := body, bodyLen := n.toNat }

def loginError (resp : HttpResponse) (msg : Bytes) : App HttpResponse :=
  respRenderTpl resp tplLogin [⟨bytes "ERROR_BLOCK", makeErrorBlock msg errorBlockMaxLen⟩]

def registerError (resp : HttpResponse) (msg : Bytes) : App HttpResponse :=
  respRenderTpl resp tplRegister [⟨bytes "ERROR_BLOCK", makeErrorBlock msg errorBlockMaxLen⟩]

/-- The submission form of a user; the form and its error page differ in the error block. -/
def submitPage (resp : HttpResponse) (u : User) (errorBlock : Bytes) : App HttpResponse := do
  let mv ← buildMapVars u.city
  respRenderTpl resp tplSubmit [
    ⟨bytes "USERNAME", htmlEscape u.username escapedParamLen⟩,
    ⟨bytes "CITY", htmlEscape u.city escapedParamLen⟩,
    ⟨bytes "ERROR_BLOCK", errorBlock⟩,
    ⟨bytes "MAP_LAT", mv.lat⟩,
    ⟨bytes "MAP_LON", mv.lon⟩,
    ⟨bytes "MAP_BOUNDS", mv.bounds⟩]

def submitError (resp : HttpResponse) (u : User) (msg : Bytes) : App HttpResponse :=
  submitPage resp u (makeErrorBlock msg errorBlockMaxLen)

/-! ### Runs -/

section runs
variable {e : Env} {w w' : World} {resp resp' : HttpResponse}

/-- The outcome of a session lookup. -/
theorem getSessionUser_run {req : HttpRequest} {u : Option User}
    (h : getSessionUser req e w = (u, w')) :
    (u = none ∧ httpRequestCookie req sessionCookieName (tokenHexLen + 1) = [] ∧ w' = w) ∨
      (httpRequestCookie req sessionCookieName (tokenHexLen + 1) ≠ [] ∧
        sessionVerify (httpRequestCookie req sessionCookieName (tokenHexLen + 1)) e w = (u, w')) := by
  unfold getSessionUser at h
  rw [Prog.ite_run] at h
  split_ifs at h with ht
  · obtain ⟨rfl, rfl⟩ := Prog.pure_run_iff.mp h
    exact Or.inl ⟨rfl, ht, rfl⟩
  · exact Or.inr ⟨ht, h⟩

theorem tplGet_run {path : Bytes} {t : Option Template} (h : tplGet path e w = (t, w')) : w' = w :=
  (Prog.ask_run_iff.mp h).2

theorem serveTpl_run {path contentType : Bytes} {missing : HttpResponse}
    (h : serveTpl resp path contentType missing e w = (resp', w')) : w' = w := by
  obtain ⟨t, w₁, h₁, h₂⟩ := Prog.bind_run_iff.mp h
  obtain rfl := tplGet_run h₁
  cases t with
  | none => exact (Prog.pure_run_iff.mp h₂).2
  | some t => exact (Prog.pure_run_iff.mp h₂).2

theorem respRenderTpl_run {name : Bytes} {vars : List TplVar}
    (h : respRenderTpl resp name vars e w = (resp', w')) : w' = w := by
  obtain ⟨t, w₁, h₁, h₂⟩ := Prog.bind_run_iff.mp h
  obtain rfl := tplGet_run h₁
  cases t with
  | none => exact (Prog.pure_run_iff.mp h₂).2
  | some t => exact (Prog.pure_run_iff.mp h₂).2

theorem submitPage_run {u : User} {errorBlock : Bytes}
    (h : submitPage resp u errorBlock e w = (resp', w')) : w' = w := by
  obtain ⟨mv, w₁, h₁, h₂⟩ := Prog.bind_run_iff.mp h
  rw [respRenderTpl_run h₂, buildMapVars_run h₁]

end runs

end Segnalacity
