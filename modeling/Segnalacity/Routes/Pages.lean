import Segnalacity.Report
import Segnalacity.Routes.Helpers

/-! # Page handlers

`route_pages.c`: the HTML pages, the forms and the static files. -/

namespace Segnalacity

open CStr StateProg Http

variable [Platform]

/-! ### Pages -/

def routeGetRoot (req : HttpRequest) (resp : HttpResponse) : App HttpResponse := do
  let u ← getSessionUser req
  match u with
  | some _ => pure (redirect resp (bytes "/home") none)
  | none => respRenderTpl resp tplLogin [⟨bytes "ERROR_BLOCK", []⟩]

def routeGetRegister (_req : HttpRequest) (resp : HttpResponse) : App HttpResponse :=
  respRenderTpl resp tplRegister [⟨bytes "ERROR_BLOCK", []⟩]

def routeGetHome (req : HttpRequest) (resp : HttpResponse) : App HttpResponse := do
  let u ← getSessionUser req
  match u with
  | none => pure (redirect resp (bytes "/") none)
  | some u => do
      let tplName := if userIsAdmin u then tplAdminMap
        else if userIsOperator u then tplOperatorMap
        else tplCitizenHome
      let mv ← buildMapVars u.city
      respRenderTpl resp tplName [
        ⟨bytes "USERNAME", htmlEscape u.username escapedParamLen⟩,
        ⟨bytes "CITY", htmlEscape u.city escapedParamLen⟩,
        ⟨bytes "MAP_LAT", mv.lat⟩,
        ⟨bytes "MAP_LON", mv.lon⟩,
        ⟨bytes "MAP_BOUNDS", mv.bounds⟩]

def routeGetSubmit (req : HttpRequest) (resp : HttpResponse) : App HttpResponse := do
  let u ← getSessionUser req
  match u with
  | none => pure (redirect resp (bytes "/") none)
  | some u =>
      if userIsOperator u || userIsAdmin u then pure (redirect resp (bytes "/home") none)
      else submitPage resp u []

def routeGetLogout (req : HttpRequest) (resp : HttpResponse) : App HttpResponse := do
  let token := httpRequestCookie req sessionCookieName (tokenHexLen + 2)
  if token ≠ [] then sessionDestroy token else pure ()
  pure (redirect resp (bytes "/") (some (snprintf cookieMax
    (sessionCookieName ++ bytes "=; Path=/; HttpOnly; Max-Age=0; SameSite=Lax"))))

/-! ### Forms -/

def routePostLogin (req : HttpRequest) (resp : HttpResponse) : App HttpResponse := do
  let username := getField req.bodyPtr (bytes "username=") usernameLen
  let password := getField req.bodyPtr (bytes "password=") pwdPlainLen
  let u ← userAuthenticate username password
  match u with
  | none => loginError resp (bytes "Username o password errati.")
  | some u => do
      let token ← sessionCreate u
      match token with
      | none => loginError resp (bytes "Errore interno. Riprova.")
      | some token =>
          pure (redirect resp (bytes "/home") (some (snprintf cookieMax
            (sessionCookieName ++ bytes "=" ++ token ++ bytes "; Path=/; HttpOnly; Max-Age=" ++
              showNat sessionMaxAge ++ bytes "; SameSite=Lax"))))

/-- The role that the form asks for. -/
def requestedRole (roleStr : Bytes) : UserRole :=
  let roleVal := if roleStr = [] then 0 else atoi roleStr
  if roleVal = 2 then .admin else if roleVal = 1 then .operator else .citizen

def routePostRegister (req : HttpRequest) (resp : HttpResponse) : App HttpResponse := do
  let username := getField req.bodyPtr (bytes "username=") usernameLen
  let password := getField req.bodyPtr (bytes "password=") pwdPlainLen
  let city := getField req.bodyPtr (bytes "city=") cityLen
  let roleStr := getField req.bodyPtr (bytes "role=") 4
  if username = [] || password = [] || city = [] then
    registerError resp (bytes "Tutti i campi sono obbligatori.")
  else if password.length < 6 then
    registerError resp (bytes "La password deve avere almeno 6 caratteri.")
  else do
    let geo ← geoLookup city
    if geo.isNone then
      registerError resp (bytes "Comune non riconosciuto. Selezionalo dalla lista.")
    else if requestedRole roleStr = .admin then do
      let rc ← userRegisterAdmin username password city
      if rc = -2 then
        registerError resp
          (bytes "Esiste già un'amministrazione comunale per questa città.")
      else if rc ≠ 0 then
        registerError resp (bytes "Username già in uso. Scegline un altro.")
      else pure (redirect resp (bytes "/") none)
    else do
      let rc ← userRegister username password city (requestedRole roleStr)
      if rc ≠ 0 then registerError resp (bytes "Username già in uso. Scegline un altro.")
      else pure (redirect resp (bytes "/") none)

/-- The coordinate in a form field, zero when it is empty. -/
def coordinate (s : Bytes) : Double := if s = [] then Platform.zero else Platform.atof s

def routePostSubmit (req : HttpRequest) (resp : HttpResponse) : App HttpResponse := do
  let u ← getSessionUser req
  match u with
  | none => pure (redirect resp (bytes "/") none)
  | some u =>
      if userIsOperator u || userIsAdmin u then pure (redirect resp (bytes "/home") none)
      else do
        let category := getField req.bodyPtr (bytes "category=") catLen
        let desc := getField req.bodyPtr (bytes "description=") descLen
        let lat := coordinate (getField req.bodyPtr (bytes "lat=") coordinateStrLen)
        let lon := coordinate (getField req.bodyPtr (bytes "lon=") coordinateStrLen)
        if desc = [] then submitError resp u (bytes "La descrizione è obbligatoria.")
        else do
          let geo ← geoLookup u.city
          if geo.any fun g => !geoContains g lat lon then
            submitError resp u (bytes "Le coordinate non appartengono alla tua città.")
          else do
            let rid ← reportInsert u.userId lat lon u.city
              (if category = [] then bytes "Altro" else category) desc
            if rid = 0 then submitError resp u (bytes "Errore interno. Riprova.")
            else pure (redirect resp (bytes "/home") none)

/-! ### Static files -/

def routeStaticCss (_req : HttpRequest) (resp : HttpResponse) : App HttpResponse :=
  serveTpl resp tplCss (bytes "text/css; charset=utf-8")
    (respHtmlError resp 404 (bytes "CSS not found"))

def routeStaticDocs (_req : HttpRequest) (resp : HttpResponse) : App HttpResponse :=
  serveTpl resp tplDocs (bytes "text/html; charset=utf-8")
    (respHtmlError resp 404 (bytes "docs not found"))

end Segnalacity
