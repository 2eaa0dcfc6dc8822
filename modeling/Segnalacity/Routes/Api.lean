import Segnalacity.Report
import Segnalacity.Routes.Helpers

/-! # API handlers

`route_api.c`: the lists, and the four endpoints that write reports. -/

namespace Segnalacity

open CStr StateProg Http

def reportIdParamLen : ℕ := 24
def operatorIdParamLen : ℕ := 24
def statusParamLen : ℕ := 4
def actionParamLen : ℕ := 8

variable [Platform]

/-! ### Lists -/

def routeApiCities (_req : HttpRequest) (resp : HttpResponse) : App HttpResponse :=
  serveTpl resp citiesJsonPath (bytes "application/json")
    (respJsonError resp 404 (bytes "cities not found"))

/-- The body and its length from a list function, with status 200. -/
def respList (resp : HttpResponse) (r : ℕ × Bytes) : HttpResponse :=
  { resp with statusCode := 200, body := r.2, bodyLen := r.1 }

def routeApiReportsActive (req : HttpRequest) (resp : HttpResponse) : App HttpResponse := do
  let u ← getSessionUser req
  match u with
  | none => pure (respJsonError resp 401 (bytes "unauthorized"))
  | some u => do
      let r ← reportGetActiveJson resp.body responseBufferSize u.userId u.city (userIsOperator u)
      pure (respList resp r)

def routeApiReportsArchived (req : HttpRequest) (resp : HttpResponse) : App HttpResponse := do
  let u ← getSessionUser req
  match u with
  | none => pure (respJsonError resp 401 (bytes "unauthorized"))
  | some u => do
      let r ← reportGetArchivedJson resp.body responseBufferSize u.userId u.city (userIsOperator u)
      pure (respList resp r)

/-- `get_session_user` and the test of the role; `none` for anybody else. -/
def sessionUserWith (allowed : User → Bool) (req : HttpRequest) : App (Option User) := do
  let u ← getSessionUser req
  pure (u.filter allowed)

def routeApiReportsAll (req : HttpRequest) (resp : HttpResponse) : App HttpResponse := do
  let u ← sessionUserWith userIsAdmin req
  match u with
  | none => pure (respJsonError resp 403 (bytes "forbidden"))
  | some u => do
      let r ← reportGetAllCityJson resp.body responseBufferSize u.city
      pure (respList resp r)

def routeApiOperators (req : HttpRequest) (resp : HttpResponse) : App HttpResponse := do
  let u ← sessionUserWith userIsAdmin req
  match u with
  | none => pure (respJsonError resp 403 (bytes "forbidden"))
  | some u => do
      let r ← userGetOperatorsJson resp.body responseBufferSize u.city
      pure (respList resp r)

/-! ### Operator endpoints -/

def routeApiReportStatus (req : HttpRequest) (resp : HttpResponse) : App HttpResponse := do
  let u ← sessionUserWith userIsOperator req
  match u with
  | none => pure (respJsonError resp 403 (bytes "forbidden"))
  | some u =>
      let reportIds := getField req.bodyPtr (bytes "report_id=") reportIdParamLen
      let status := getField req.bodyPtr (bytes "status=") statusParamLen
      if reportIds = [] || status = [] then
        pure (respJsonError resp 400 (bytes "missing params"))
      else do
        let reportId := strtoull reportIds
        let r ← reportGetById reportId
        match r with
        | none => pure (respJsonError resp 404 (bytes "not found"))
        | some r =>
            if !strncmpEq r.city u.city cityLen then
              pure (respJsonError resp 403 (bytes "forbidden"))
            else if atoi status = 3 then do
              let rc ← reportResolve reportId u.userId
              pure (respWrite resp rc 403 (bytes "not authorized or not in progress"))
            else pure (respJsonError resp 400 (bytes "invalid status"))

def routeApiReportRespond (req : HttpRequest) (resp : HttpResponse) : App HttpResponse := do
  let u ← sessionUserWith userIsOperator req
  match u with
  | none => pure (respJsonError resp 403 (bytes "forbidden"))
  | some u =>
      let reportIds := getField req.bodyPtr (bytes "report_id=") reportIdParamLen
      let action := getField req.bodyPtr (bytes "action=") actionParamLen
      let isAccept := strncmpEq action (bytes "accept") 6
      if reportIds = [] || action = [] then
        pure (respJsonError resp 400 (bytes "missing params"))
      else if !isAccept && !strncmpEq action (bytes "reject") 6 then
        pure (respJsonError resp 400 (bytes "action must be accept or reject"))
      else do
        let reportId := strtoull reportIds
        let r ← reportGetById reportId
        match r with
        | none => pure (respJsonError resp 404 (bytes "not found"))
        | some r =>
            if !strncmpEq r.city u.city cityLen then
              pure (respJsonError resp 403 (bytes "forbidden"))
            else do
              let rc ← if isAccept then reportAccept reportId u.userId
                else reportReject reportId u.userId
              pure (respWrite resp rc 409 (bytes "not assigned to you or wrong status"))

/-! ### Citizen endpoint -/

def routeApiReportFeedback (req : HttpRequest) (resp : HttpResponse) : App HttpResponse := do
  let u ← sessionUserWith (fun u => !userIsOperator u && !userIsAdmin u) req
  match u with
  | none => pure (respJsonError resp 403 (bytes "forbidden"))
  | some u =>
      let reportIds := getField req.bodyPtr (bytes "report_id=") reportIdParamLen
      let starsStr := getField req.bodyPtr (bytes "stars=") 4
      if reportIds = [] || starsStr = [] then
        pure (respJsonError resp 400 (bytes "missing params"))
      else
        let stars := atoi starsStr
        if stars < 1 ∨ stars > 5 then pure (respJsonError resp 400 (bytes "stars must be 1-5"))
        else do
          let rc ← reportSetFeedback (strtoull reportIds) u.userId stars
          pure (respWrite resp rc 409 (bytes "feedback already given or report not resolved"))

/-! ### Admin endpoint -/

/-- Reassignment of a report that is only assigned: read it again, reset it, assign it. -/
def forceAssign (reportId operatorId : UInt64) : App ℤ := do
  let rr ← reportGetById reportId
  if rr.any fun rr => rr.status = .assigned then do
    let _ ← resetReport reportId
    reportAssign reportId operatorId
  else pure 0

def routeApiAdminAssign (req : HttpRequest) (resp : HttpResponse) : App HttpResponse := do
  let u ← sessionUserWith userIsAdmin req
  match u with
  | none => pure (respJsonError resp 403 (bytes "forbidden"))
  | some u =>
      let reportIds := getField req.bodyPtr (bytes "report_id=") reportIdParamLen
      let operatorIds := getField req.bodyPtr (bytes "operator_id=") operatorIdParamLen
      if reportIds = [] || operatorIds = [] then
        pure (respJsonError resp 400 (bytes "missing params"))
      else do
        let reportId := strtoull reportIds
        let operatorId := strtoull operatorIds
        let r ← reportGetById reportId
        match r with
        | none => pure (respJsonError resp 404 (bytes "not found"))
        | some r =>
            if !strncmpEq r.city u.city cityLen then
              pure (respJsonError resp 403 (bytes "forbidden"))
            else do
              let op ← userGetById operatorId
              match op.filter fun op => userIsOperator op && strncmpEq op.city u.city cityLen with
              | none => pure (respJsonError resp 400 (bytes "invalid operator"))
              | some _ => do
                  let rc ← reportAssign reportId operatorId
                  let rc ← if rc = 0 then forceAssign reportId operatorId else pure rc
                  pure (respWrite resp rc 409 (bytes "report already in progress or resolved"))

end Segnalacity
