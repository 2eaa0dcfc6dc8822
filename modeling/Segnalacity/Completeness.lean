import Segnalacity.CacheTransparency

/-! # Answers that are cut off

Lists and pages are written into a buffer of 256 KB.  What does not fit is reported as a length of
0 or -1, and the handlers turn that into an empty body under status 200.  So an answer with status
200 is complete exactly when it fits: `answers_complete_iff`. -/

namespace Segnalacity

open CStr StateProg Sql Http HashTable

section platform

variable [Platform]

/-- What is assumed of `cJSON_PrintPreallocated`: it writes the text of the array or fails, it
fails when the text does not fit, and no array has an empty text. -/
structure Prints (text : List (JsonObject Double) → Bytes) : Prop where
  sound : ∀ items max t, Platform.printPreallocated items max = some t → t = text items
  full : ∀ items max, max ≤ (text items).length → Platform.printPreallocated items max = none
  nonempty : ∀ items, text items ≠ []

/-! ### Lists -/

/-- The four lists. -/
inductive ListEndpoint where
  | active
  | archived
  | all
  | operators
deriving DecidableEq, Repr

def cityObject (x : ReportRow × Bytes) : JsonObject Double :=
  reportObject x.1 ++ [(bytes "operator_name", .string x.2)]

def operatorObject (row : UserRow) : JsonObject Double := [
  (bytes "id", .number row.id),
  (bytes "username", .string row.username)]

namespace ListEndpoint

def path : ListEndpoint → Bytes
  | active => bytes "/api/reports/active"
  | archived => bytes "/api/reports/archived"
  | all => bytes "/api/reports/all"
  | operators => bytes "/api/operators"

def handler : ListEndpoint → HttpRequest → HttpResponse → App HttpResponse
  | active => routeApiReportsActive
  | archived => routeApiReportsArchived
  | all => routeApiReportsAll
  | operators => routeApiOperators

/-- Who is given the list. -/
def allowed : ListEndpoint → User → Bool
  | active => fun _ => true
  | archived => fun _ => true
  | all => userIsAdmin
  | operators => userIsAdmin

/-- One element for each row that the query selects. -/
def items (l : ListEndpoint) (u : User) (db : Database) : List (JsonObject Double) :=
  match l with
  | active => (selectActive u.userId (userIsOperator u) db).map reportObject
  | archived => (selectArchived u.userId (userIsOperator u) db).map reportObject
  | all => (selectAllCity u.city db).map cityObject
  | operators => (selectOperators u.city db).map operatorObject

end ListEndpoint

/-- A length and a buffer that hold the printed array, or the length 0. -/
def Printed (items : List (JsonObject Double)) (r : ℕ × Bytes) : Prop :=
  r.2.take r.1 = (Platform.printPreallocated items responseBufferSize).getD []

section lists
variable {e : Env} {w w' : World} {items : List (JsonObject Double)} {buf : Bytes} {r : ℕ × Bytes}

theorem printed_of_some {text : Bytes}
    (h : Platform.printPreallocated items responseBufferSize = some text) :
    Printed items (text.length, overlay (text ++ [0]) buf) := by
  unfold Printed
  rw [h, take_overlay_text]
  rfl

theorem printed_of_none (h : Platform.printPreallocated items responseBufferSize = none) :
    Printed items (0, buf) := by
  unfold Printed
  rw [h]
  rfl

theorem printed_printArray : Printed items (printArray items buf responseBufferSize) := by
  unfold printArray
  cases h : Platform.printPreallocated items responseBufferSize with
  | none => exact printed_of_none h
  | some text => exact printed_of_some h

theorem Unfailing.allCityItem_run (he : Unfailing e) {x : ReportRow × Bytes}
    {objs : List (JsonObject Double)} (h : allCityItem x e w = (objs, w')) :
    objs = [cityObject x] := by
  obtain ⟨obj, w₁, h₁, h₂⟩ := Prog.bind_run_iff.mp h
  obtain rfl := he.reportToCjson_run h₁
  obtain ⟨name, w₂, h₃, h₄⟩ := Prog.bind_run_iff.mp h₂
  obtain rfl := he.jsonAddFields_run h₃
  exact (Prog.pure_run_iff.mp h₄).1

theorem Unfailing.operatorItem_run (he : Unfailing e) {row : UserRow}
    {objs : List (JsonObject Double)} (h : operatorItem row e w = (objs, w')) :
    objs = [operatorObject row] := by
  obtain ⟨ok, w₁, h₁, h₂⟩ := Prog.bind_run_iff.mp h
  obtain rfl := he.attemptAlloc_run h₁
  rcases Prog.ite_run_iff.mp h₂ with ⟨-, h₃⟩ | ⟨hno, -⟩
  · obtain ⟨obj, w₂, h₄, h₅⟩ := Prog.bind_run_iff.mp h₃
    obtain rfl := he.jsonAddFields_run h₄
    exact (Prog.pure_run_iff.mp h₅).1
  · exact absurd rfl hno

theorem Unfailing.reportGetAllCityJson_run (he : Unfailing e) {city : Bytes}
    (h : reportGetAllCityJson buf responseBufferSize city e w = (r, w')) :
    Printed ((selectAllCity city w.db).map cityObject) r := by
  obtain ⟨c, w₁, h₁, h₂⟩ := Prog.bind_run_iff.mp h
  obtain rfl := he.dbCursorOpen_run h₁
  obtain ⟨ok, w₂, h₃, h₄⟩ := Prog.bind_run_iff.mp h₂
  obtain rfl := he.attemptAlloc_run h₃
  rcases Prog.ite_run_iff.mp h₄ with ⟨hno, -⟩ | ⟨-, h₅⟩
  · cases hno
  · obtain ⟨items, w₃, h₆, h₇⟩ := Prog.bind_run_iff.mp h₅
    obtain ⟨rfl, -⟩ := Prog.pure_run_iff.mp h₇
    have hitems := he.drainRows_run (fun _ _ _ _ hrow => he.allCityItem_run hrow) h₆
    rw [hitems, ← List.map_eq_flatMap]
    exact printed_printArray

theorem Unfailing.userGetOperatorsJson_run (he : Unfailing e) {city : Bytes}
    (h : userGetOperatorsJson buf responseBufferSize city e w = (r, w')) :
    Printed ((selectOperators city w.db).map operatorObject) r := by
  obtain ⟨c, w₁, h₁, h₂⟩ := Prog.bind_run_iff.mp h
  obtain rfl := he.dbCursorOpen_run h₁
  obtain ⟨ok, w₂, h₃, h₄⟩ := Prog.bind_run_iff.mp h₂
  obtain rfl := he.attemptAlloc_run h₃
  obtain ⟨items, w₃, h₅, h₆⟩ := Prog.bind_run_iff.mp h₄
  have hitems := he.drainRows_run (fun _ _ _ _ hrow => he.operatorItem_run hrow) h₅
  rw [← List.map_eq_flatMap] at hitems
  rcases Prog.ite_run_iff.mp h₆ with ⟨hno, -⟩ | ⟨-, h₇⟩
  · cases hno
  · rw [← hitems]
    cases hp : Platform.printPreallocated items responseBufferSize with
    | none =>
        rw [hp] at h₇
        obtain ⟨rfl, -⟩ := Prog.pure_run_iff.mp h₇
        exact printed_of_none hp
    | some text =>
        rw [hp] at h₇
        obtain ⟨rfl, -⟩ := Prog.pure_run_iff.mp h₇
        exact printed_of_some hp

end lists

/-! ### The handlers -/

section handlers
variable {e : Env} {w w' : World} {req : HttpRequest} {resp resp' : HttpResponse}

theorem ListEndpoint.handleRequest_eq {l : ListEndpoint}
    (hpath : httpIsRequestPath req l.path = true)
    (hmethod : httpIsRequestMethod req (bytes "GET") = true) :
    handleRequest req resp = l.handler req resp := by
  cases l with
  | active =>
      exact Segnalacity.handleRequest_eq 9 (bytes "GET") (bytes "/api/reports/active") rfl
        (by decide) hpath hmethod
  | archived =>
      exact Segnalacity.handleRequest_eq 10 (bytes "GET") (bytes "/api/reports/archived") rfl
        (by decide) hpath hmethod
  | all =>
      exact Segnalacity.handleRequest_eq 11 (bytes "GET") (bytes "/api/reports/all") rfl
        (by decide) hpath hmethod
  | operators =>
      exact Segnalacity.handleRequest_eq 12 (bytes "GET") (bytes "/api/operators") rfl
        (by decide) hpath hmethod

/-- A list is refused, or given to a user who may have it. -/
def Given (l : ListEndpoint) (e : Env) (w : World) (req : HttpRequest) (resp' : HttpResponse) :
    Prop :=
  resp'.statusCode ≠ 200 ∨ ∃ u, LoggedInAs e w req u ∧ l.allowed u = true ∧
    resp'.statusCode = 200 ∧ Printed (l.items u w.db) (resp'.bodyLen, resp'.body)

theorem given_of_cached (isArchived : Bool) (he : Unfailing e) (hw : w.sessions.WF)
    (hfresh : CacheFresh w.db w.cache) {l : ListEndpoint}
    (hallowed : ∀ u, l.allowed u = true)
    (hitems : ∀ u db, listItems isArchived u.userId (userIsOperator u) db = l.items u db)
    (h : (getSessionUser req >>= fun u => match u with
      | none => pure (respJsonError resp 401 (bytes "unauthorized"))
      | some u => do
          let r ← cachedList (listQuery isArchived) isArchived resp.body responseBufferSize u.userId
            u.city (userIsOperator u)
          pure (respList resp r) : App HttpResponse) e w = (resp', w')) : Given l e w req resp' := by
  obtain ⟨u, w₁, h₁, h₂⟩ := Prog.bind_run_iff.mp h
  obtain ⟨hev, hu⟩ := getSessionUser_loggedIn hw h₁
  cases u with
  | none =>
      obtain ⟨rfl, -⟩ := Prog.pure_run_iff.mp h₂
      exact .inl (by rw [respJsonError_status]; decide)
  | some u =>
      obtain ⟨r, w₂, h₃, h₄⟩ := Prog.bind_run_iff.mp h₂
      obtain ⟨rfl, -⟩ := Prog.pure_run_iff.mp h₄
      rw [← hev.data.db, ← hev.data.cache] at hfresh
      have hr := hfresh.list he h₃
      rw [hev.data.db, hitems] at hr
      refine .inr ⟨u, hu u rfl, hallowed u, rfl, ?_⟩
      show Printed _ r
      rw [hr]
      exact printed_printArray

theorem given_of_read (hw : w.sessions.WF) {l : ListEndpoint}
    {list : User → App (ℕ × Bytes)}
    (hlist : ∀ u w₁ r w₂, list u e w₁ = (r, w₂) → Printed (l.items u w₁.db) r)
    (h : (sessionUserWith l.allowed req >>= fun u => match u with
      | none => pure (respJsonError resp 403 (bytes "forbidden"))
      | some u => do
          let r ← list u
          pure (respList resp r) : App HttpResponse) e w = (resp', w')) : Given l e w req resp' := by
  obtain ⟨u, w₁, h₁, h₂⟩ := Prog.bind_run_iff.mp h
  obtain ⟨hev, hu⟩ := sessionUserWith_run hw h₁
  cases u with
  | none =>
      obtain ⟨rfl, -⟩ := Prog.pure_run_iff.mp h₂
      exact .inl (by rw [respJsonError_status]; decide)
  | some u =>
      obtain ⟨r, w₂, h₃, h₄⟩ := Prog.bind_run_iff.mp h₂
      obtain ⟨rfl, -⟩ := Prog.pure_run_iff.mp h₄
      obtain ⟨hrole, hlog⟩ := hu u rfl
      refine .inr ⟨u, hlog, hrole, rfl, ?_⟩
      rw [← hev.data.db]
      exact hlist u w₁ r w₂ h₃

theorem ListEndpoint.given (he : Unfailing e) (hw : w.sessions.WF)
    (hfresh : CacheFresh w.db w.cache) {l : ListEndpoint}
    (h : l.handler req resp e w = (resp', w')) : Given l e w req resp' := by
  cases l with
  | active => exact given_of_cached false he hw hfresh (fun _ => rfl) (fun _ _ => rfl) h
  | archived => exact given_of_cached true he hw hfresh (fun _ => rfl) (fun _ _ => rfl) h
  | all => exact given_of_read hw (fun _ _ _ _ hlist => he.reportGetAllCityJson_run hlist) h
  | operators => exact given_of_read hw (fun _ _ _ _ hlist => he.userGetOperatorsJson_run hlist) h

end handlers

/-! ### Pages and files -/

section pages
variable {e : Env} {w w' : World} {resp resp' : HttpResponse}

/-- The body is the whole text when it fits into the response buffer, and empty otherwise. -/
def Rendered (tpl : Template) (vars : List TplVar) (resp' : HttpResponse) : Prop :=
  resp'.body.take resp'.bodyLen =
    if (substitute tpl vars).length < responseBufferSize then substitute tpl vars else []

omit [Platform] in
theorem responseBufferSize_pos : 0 < responseBufferSize := by decide

theorem tplGet_found {path : Bytes} {tpl : Template} (h : tplGet path e w = (some tpl, w')) :
    tpl ∈ e.templates ∧ tpl.path = path := by
  have ht := (Prog.ask_run_iff.mp h).1.symm
  have hpath := List.find?_some ht
  exact ⟨List.mem_of_find?_eq_some ht, of_decide_eq_true hpath⟩

theorem respRenderTpl_rendered {name : Bytes} {vars : List TplVar}
    (h : respRenderTpl resp name vars e w = (resp', w')) (hok : resp'.statusCode = 200) :
    ∃ tpl ∈ e.templates, tpl.path = name ∧ Rendered tpl vars resp' := by
  obtain ⟨t, w₁, h₁, h₂⟩ := Prog.bind_run_iff.mp h
  cases t with
  | none =>
      obtain ⟨rfl, -⟩ := Prog.pure_run_iff.mp h₂
      cases hok
  | some tpl =>
      obtain ⟨rfl, -⟩ := Prog.pure_run_iff.mp h₂
      obtain ⟨htpl, hname⟩ := tplGet_found h₁
      exact ⟨tpl, htpl, hname, tplRender_body tpl resp.body responseBufferSize_pos vars⟩

theorem serveTpl_rendered {path contentType : Bytes} {missing : HttpResponse}
    (hmissing : missing.statusCode ≠ 200)
    (h : serveTpl resp path contentType missing e w = (resp', w')) (hok : resp'.statusCode = 200) :
    ∃ tpl ∈ e.templates, tpl.path = path ∧ Rendered tpl [] resp' := by
  obtain ⟨t, w₁, h₁, h₂⟩ := Prog.bind_run_iff.mp h
  cases t with
  | none =>
      obtain ⟨rfl, -⟩ := Prog.pure_run_iff.mp h₂
      exact absurd hok hmissing
  | some tpl =>
      obtain ⟨rfl, -⟩ := Prog.pure_run_iff.mp h₂
      obtain ⟨htpl, hpath⟩ := tplGet_found h₁
      exact ⟨tpl, htpl, hpath, tplRender_body tpl resp.body responseBufferSize_pos []⟩

/-- The handlers of the static files, with the file that each one serves. -/
def staticFiles : List ((HttpRequest → HttpResponse → App HttpResponse) × Bytes) := [
  (routeStaticCss, tplCss),
  (routeStaticDocs, tplDocs),
  (routeApiCities, citiesJsonPath)]

theorem staticFiles_rendered {x : (HttpRequest → HttpResponse → App HttpResponse) × Bytes}
    (hx : x ∈ staticFiles) {req : HttpRequest} (h : x.1 req resp e w = (resp', w'))
    (hok : resp'.statusCode = 200) :
    ∃ tpl ∈ e.templates, tpl.path = x.2 ∧ Rendered tpl [] resp' := by
  simp only [staticFiles, List.mem_cons, List.not_mem_nil, or_false] at hx
  rcases hx with rfl | rfl | rfl
  · exact serveTpl_rendered (fun hno => by cases hno) h hok
  · exact serveTpl_rendered (fun hno => by cases hno) h hok
  · exact serveTpl_rendered (fun hno => by cases hno) h hok

omit [Platform] in
theorem Rendered.whole_iff {tpl : Template} {vars : List TplVar} (h : Rendered tpl vars resp') :
    resp'.body.take resp'.bodyLen = substitute tpl vars ↔
      (substitute tpl vars).length < responseBufferSize := by
  rw [Rendered] at h
  rw [h]
  split_ifs with hfits
  · exact iff_of_true rfl hfits
  · refine iff_of_false (fun hempty => hfits ?_) hfits
    rw [← hempty]
    exact responseBufferSize_pos

end pages

/-! ### Complete answers -/

theorem Printed.whole_iff {text : List (JsonObject Double) → Bytes} (hprint : Prints text)
    {items : List (JsonObject Double)} {r : ℕ × Bytes} (h : Printed items r) :
    r.2.take r.1 = text items ↔
      (Platform.printPreallocated items responseBufferSize).isSome = true := by
  rw [Printed] at h
  rw [h]
  cases hp : Platform.printPreallocated items responseBufferSize with
  | none => exact iff_of_false (fun hempty => hprint.nonempty items hempty.symm) Bool.noConfusion
  | some t => exact iff_of_true (hprint.sound items _ t hp) rfl

/-- **Complete answers.**  After any requests, and with no failure of the database or of an
allocation: a list that is answered with 200 is complete exactly when its text fits into the
response buffer, and so are a page and a static file. -/
theorem answers_complete_iff {text : List (JsonObject Double) → Bytes} (hprint : Prints text) {e : Env}
    (he : Unfailing e) {seed : UInt64} {tableOk poolOk : Bool} {sessions : HashTable Session}
    (h₀ : sessionInit seed tableOk poolOk = some sessions)
    {log : List ((HttpRequest × HttpResponse) × HttpResponse)} {w : World}
    (hrun : Run answer e (emptyWorld sessions) log w) :
    (∀ (l : ListEndpoint) req resp resp' w', httpIsRequestPath req l.path = true →
      httpIsRequestMethod req (bytes "GET") = true →
      handleRequest req resp e w = (resp', w') → resp'.statusCode = 200 →
      ∃ u, LoggedInAs e w req u ∧ l.allowed u = true ∧
        (resp'.body.take resp'.bodyLen = text (l.items u w.db) ↔
          (Platform.printPreallocated (l.items u w.db) responseBufferSize).isSome = true)) ∧
    (∀ name vars resp resp' w', respRenderTpl resp name vars e w = (resp', w') →
      resp'.statusCode = 200 → ∃ tpl ∈ e.templates, tpl.path = name ∧
        (resp'.body.take resp'.bodyLen = substitute tpl vars ↔
          (substitute tpl vars).length < responseBufferSize)) ∧
    ∀ x ∈ staticFiles, ∀ req resp resp' w', x.1 req resp e w = (resp', w') →
      resp'.statusCode = 200 → ∃ tpl ∈ e.templates, tpl.path = x.2 ∧
        (resp'.body.take resp'.bodyLen = substitute tpl [] ↔
          (substitute tpl []).length < responseBufferSize) := by
  obtain ⟨hw, hfresh⟩ := consistent_fresh he h₀ hrun
  refine ⟨?_, ?_, ?_⟩
  · intro l req resp resp' w' hpath hmethod h hok
    rw [ListEndpoint.handleRequest_eq hpath hmethod] at h
    rcases ListEndpoint.given he hw.wf hfresh h with hno | ⟨u, hlog, hallowed, -, hprinted⟩
    · exact absurd hok hno
    · exact ⟨u, hlog, hallowed, hprinted.whole_iff hprint⟩
  · intro name vars resp resp' w' h hok
    obtain ⟨tpl, htpl, hname, hrendered⟩ := respRenderTpl_rendered h hok
    exact ⟨tpl, htpl, hname, hrendered.whole_iff⟩
  · intro x hx req resp resp' w' h hok
    obtain ⟨tpl, htpl, hpath, hrendered⟩ := staticFiles_rendered hx h hok
    exact ⟨tpl, htpl, hpath, hrendered.whole_iff⟩

/-! ### Growth -/

section growth
variable {e : Env} {w w' : World} {req : HttpRequest} {resp resp' : HttpResponse} {u : User}

/-- A submission with all that is checked before a report is stored. -/
structure Submittable (e : Env) (u : User) (req : HttpRequest) : Prop where
  routed : ∀ resp, handleRequest req resp = routePostSubmit req resp
  citizen : (userIsOperator u || userIsAdmin u) = false
  described : getField req.bodyPtr (bytes "description=") descLen ≠ []
  inside : ((htGet e.cityTable (geoKey u.city)).any fun g => !geoContains g
    (coordinate (getField req.bodyPtr (bytes "lat=") coordinateStrLen))
    (coordinate (getField req.bodyPtr (bytes "lon=") coordinateStrLen))) = false
  real : (Platform.isNaN (coordinate (getField req.bodyPtr (bytes "lat=") coordinateStrLen)) ||
    Platform.isNaN (coordinate (getField req.bodyPtr (bytes "lon=") coordinateStrLen))) = false

theorem Unfailing.dbExec_run (he : Unfailing e) {stmt : Database → Option Database} {db : Database}
    {rc : ℤ} (hstmt : stmt w.db = some db) (h : dbExec stmt e w = (rc, w')) :
    rc = 0 ∧ w' = { w.call with db := db } := by
  rcases Segnalacity.dbExec_run h with ⟨-, -, hf | hnone⟩ | ⟨rfl, -, db', hdb, rfl⟩
  · rw [he.calls] at hf
    cases hf
  · rw [hstmt] at hnone
    cases hnone
  · obtain rfl := Option.some.inj (hdb.symm.trans hstmt)
    exact ⟨rfl, rfl⟩

/-- With no failure a report is stored while there are ids left. -/
theorem Unfailing.reportInsert_run (he : Unfailing e) {authorId : UInt64} {lat lon : Double}
    {city category desc : Bytes} {id : UInt64}
    (hreal : (Platform.isNaN lat || Platform.isNaN lon) = false)
    (hroom : w.db.reportSeq < 2 ^ 63 - 1)
    (h : reportInsert authorId lat lon city category desc e w = (id, w')) :
    w'.sessions = w.sessions ∧ w'.db.reportSeq = w.db.reportSeq + 1 ∧
      ∃ r, w'.db.reports = w.db.reports ++ [r] ∧ r.authorId = i64 authorId ∧ r.status = 0 := by
  obtain ⟨t, w₁, h₁, h₂⟩ := Prog.bind_run_iff.mp h
  obtain ⟨rfl, rfl⟩ := now_run h₁
  obtain ⟨rc, w₂, h₃, h₄⟩ := Prog.bind_run_iff.mp h₂
  obtain ⟨db, hdb⟩ : ∃ db,
      insertReport authorId lat lon city category desc (e.clock w.ctr.ticks) w.db = some db := by
    unfold insertReport nextRowid
    rw [hreal, if_pos hroom]
    exact ⟨_, rfl⟩
  have hstored : db.reportSeq = w.db.reportSeq + 1 ∧
      ∃ r, db.reports = w.db.reports ++ [r] ∧ r.authorId = i64 authorId ∧ r.status = 0 := by
    unfold insertReport nextRowid at hdb
    rw [hreal, if_pos hroom] at hdb
    obtain rfl := Option.some.inj hdb
    exact ⟨rfl, _, rfl, rfl, rfl⟩
  have hdb' : insertReport authorId lat lon city category desc (e.clock w.ctr.ticks) w.tick.db =
      some db := hdb
  obtain ⟨rfl, rfl⟩ := he.dbExec_run hdb' h₃
  obtain ⟨n, w₃, h₅, h₆⟩ := Prog.bind_run_iff.mp h₄
  obtain ⟨rfl, rfl⟩ := Prog.view_run_iff.mp h₅
  rcases Prog.ite_run_iff.mp h₆ with ⟨-, h₇⟩ | ⟨-, h₇⟩
  · obtain ⟨-, rfl⟩ := Prog.pure_run_iff.mp h₇
    exact ⟨rfl, hstored⟩
  · obtain ⟨_, w₄, h₈, h₉⟩ := Prog.bind_run_iff.mp h₇
    obtain rfl := Prog.update_run_iff.mp h₈
    obtain ⟨-, rfl⟩ := Prog.pure_run_iff.mp h₉
    exact ⟨rfl, hstored⟩

theorem Submittable.step (he : Unfailing e) (hsub : Submittable e u req)
    (hlog : LoggedInAs e w req u) (hroom : w.db.reportSeq < 2 ^ 63 - 1)
    (h : handleRequest req resp e w = (resp', w')) :
    w'.sessions = w.sessions ∧ w'.db.reportSeq = w.db.reportSeq + 1 ∧
      ∃ r, w'.db.reports = w.db.reports ++ [r] ∧ r.authorId = i64 u.userId ∧ r.status = 0 := by
  rw [hsub.routed] at h
  obtain ⟨v, w₁, h₁, h₂⟩ := Prog.bind_run_iff.mp h
  obtain ⟨rfl, rfl⟩ := hlog.getSessionUser h₁
  rcases Prog.ite_run_iff.mp h₂ with ⟨hrole, -⟩ | ⟨-, h₃⟩
  · rw [hsub.citizen] at hrole
    cases hrole
  rcases Prog.ite_run_iff.mp h₃ with ⟨hdesc, -⟩ | ⟨-, h₄⟩
  · exact absurd hdesc hsub.described
  obtain ⟨geo, w₂, h₅, h₆⟩ := Prog.bind_run_iff.mp h₄
  obtain ⟨rfl, rfl⟩ := geoLookup_run h₅
  rcases Prog.ite_run_iff.mp h₆ with ⟨hout, -⟩ | ⟨-, h₇⟩
  · rw [hsub.inside] at hout
    cases hout
  obtain ⟨rid, w₃, h₈, h₉⟩ := Prog.bind_run_iff.mp h₇
  have hw' : w' = w₃ := by
    rcases Prog.ite_run_iff.mp h₉ with ⟨-, h₁₀⟩ | ⟨-, h₁₀⟩
    · exact submitError_run h₁₀
    · exact (Prog.pure_run_iff.mp h₁₀).2
  subst hw'
  exact he.reportInsert_run (w := w.tick) hsub.real hroom h₈

/-- The user has submitted `n` reports, of which none has been taken up. -/
structure Grown (e : Env) (u : User) (req : HttpRequest) (n : ℕ) (w : World) : Prop where
  session : LoggedInAs e w req u
  seq : w.db.reportSeq = n
  length : w.db.reports.length = n
  rows : ∀ r ∈ w.db.reports, r.authorId = i64 u.userId ∧ r.status = 0

/-- A user who submits again and again, on a day on which the clock stands still. -/
theorem exists_grown (he : Unfailing e) {t : ℤ} (hclock : ∀ i, e.clock i = t)
    (hsub : Submittable e u req) (resp : HttpResponse) {w₀ : World}
    {log : List ((HttpRequest × HttpResponse) × HttpResponse)} (hrun : Run answer e w₀ log w)
    (hw : Grown e u req 0 w) {n : ℕ} (hn : n < 2 ^ 63) :
    ∃ log' w', Run answer e w₀ log' w' ∧ Grown e u req n w' := by
  induction n with
  | zero => exact ⟨log, w, hrun, hw⟩
  | succ n ih =>
      obtain ⟨log', w', hrun', hw'⟩ := ih (by omega)
      have hseq := hw'.seq
      obtain ⟨hsess, hseq', r, hrows, hauthor, hstatus⟩ :=
        hsub.step he hw'.session (by omega) Prod.mk.eta.symm
      refine ⟨_, _, hrun'.snoc (k := (req, resp)) Prod.mk.eta.symm, ?_, ?_, ?_, ?_⟩
      · obtain ⟨hne, s, hs, hu, hlive⟩ := hw'.session
        refine ⟨hne, s, ?_, hu, ?_⟩
        · show htGet (handleRequest req resp e w').2.sessions _ = some s
          rw [hsess]
          exact hs
        · rw [hclock] at hlive ⊢
          exact hlive
      · show (handleRequest req resp e w').2.db.reportSeq = _
        rw [hseq', hseq, Nat.cast_succ]
      · show (handleRequest req resp e w').2.db.reports.length = _
        rw [hrows, List.length_append, hw'.length, List.length_singleton]
      · intro x hx
        have hx' : x ∈ (handleRequest req resp e w').2.db.reports := hx
        rw [hrows] at hx'
        rcases List.mem_append.mp hx' with hx' | hx'
        · exact hw'.rows x hx'
        · rw [List.mem_singleton.mp hx']
          exact ⟨hauthor, hstatus⟩

/-- A user who has logged in before there are any reports. -/
theorem grown_of_session (hw : w.sessions.WF)
    (h : (getSessionUser req e w).1 = some u ∧ w.db.reports.length = 0 ∧ w.db.reportSeq = 0) :
    Grown e u req 0 w := by
  obtain ⟨hu, hlength, hseq⟩ := h
  refine ⟨(getSessionUser_loggedIn hw (Prog.run_of_fst hu)).2 u rfl, hseq, hlength, fun r hr => ?_⟩
  rw [List.length_eq_zero_iff.mp hlength] at hr
  cases hr

/-- The reports that a citizen has submitted are all in the list of active ones. -/
theorem Grown.select {n : ℕ} (hw : Grown e u req n w) :
    (Sql.select (fun r => and3 (eq3 (some r.authorId) (some (i64 u.userId)))
      (lt3 (some r.status) (some 3))) w.db.reports) = w.db.reports := by
  refine List.filter_eq_self.mpr fun r hr => ?_
  obtain ⟨hauthor, hstatus⟩ := hw.rows r hr
  refine (holds_and3 _ _).mpr ⟨(holds_key _ _).mpr hauthor, ?_⟩
  exact (holds_lt3 _ _).mpr ⟨r.status, 3, rfl, rfl, by rw [hstatus]; decide⟩

theorem reportFields_names (r : Report) : ((reportFields r).map fun f => f.1.length).sum = 97 := by
  simp only [reportFields, List.map_cons, List.map_nil, List.sum_cons, List.sum_nil]
  decide

/-- A list that does not fit is answered with 200 and an empty body. -/
theorem active_truncated (he : Unfailing e) (hfresh : CacheFresh w.db w.cache)
    (hlog : LoggedInAs e w req u)
    (hnone : Platform.printPreallocated (ListEndpoint.active.items u w.db) responseBufferSize = none)
    (h : routeApiReportsActive req resp e w = (resp', w')) :
    resp'.statusCode = 200 ∧ resp'.body.take resp'.bodyLen = [] := by
  obtain ⟨v, w₁, h₁, h₂⟩ := Prog.bind_run_iff.mp h
  obtain ⟨rfl, rfl⟩ := hlog.getSessionUser h₁
  obtain ⟨r, w₂, h₃, h₄⟩ := Prog.bind_run_iff.mp h₂
  obtain ⟨rfl, -⟩ := Prog.pure_run_iff.mp h₄
  have hfresh₁ : CacheFresh w.tick.db w.tick.cache := hfresh
  have hr := hfresh₁.list he h₃
  have hprinted : Printed (ListEndpoint.active.items u w.db) r := by
    rw [hr]
    exact printed_printArray
  rw [Printed, hnone] at hprinted
  exact ⟨rfl, hprinted⟩

end growth

end platform

/-! ### A list that does not fit -/

theorem samplePrints : @Prints samplePlatform samplePrint :=
  letI := samplePlatform
  { sound := fun items max t h => by
      have hprint : (if (samplePrint items).length < max then some (samplePrint items) else none) =
          some t := h
      split_ifs at hprint
      exact (Option.some.inj hprint).symm
    full := fun items max h => if_neg (not_lt.mpr h)
    nonempty := fun items => by
      unfold samplePrint
      simp [bytes] }

def listedAnswer : HttpResponse × @World samplePlatform :=
  @handleRequest samplePlatform listRequest blankResponse townEnv listedRun.2

theorem listedAnswer_facts : listedAnswer.1.statusCode = 200 ∧
    httpIsRequestPath listRequest (bytes "/api/reports/active") = true ∧
    httpIsRequestMethod listRequest (bytes "GET") = true := by decide +kernel

theorem answers_complete_iff_listedRun :
    letI := samplePlatform
    ∃ u, LoggedInAs townEnv listedRun.2 listRequest u ∧
      (listedAnswer.1.body.take listedAnswer.1.bodyLen =
          samplePrint (ListEndpoint.active.items u listedRun.2.db) ↔
        (Platform.printPreallocated (ListEndpoint.active.items u listedRun.2.db)
          responseBufferSize).isSome = true) := by
  let := samplePlatform
  obtain ⟨u, hlog, -, hiff⟩ := (answers_complete_iff samplePrints ⟨fun _ => rfl, fun _ => rfl⟩
    sessionInit_noSessions run_listedRun).1 .active listRequest blankResponse listedAnswer.1
    listedAnswer.2 listedAnswer_facts.2.1 listedAnswer_facts.2.2 Prod.mk.eta.symm listedAnswer_facts.1
  exact ⟨u, hlog, hiff⟩

/-! ### A list that does not fit -/

theorem length_intercalate_le (sep : Bytes) (parts : List Bytes) :
    (parts.map List.length).sum ≤ (sep.intercalate parts).length := by
  induction parts with
  | nil => simp
  | cons p parts ih =>
      cases parts with
      | nil => simp
      | cons q parts =>
          rw [List.intercalate_cons_cons]
          simp only [List.map_cons, List.sum_cons, List.length_append] at ih ⊢
          omega

/-- An object is at least as long as the names of its fields. -/
theorem length_samplePrintObject (o : JsonObject ℤ) :
    (o.map fun f => f.1.length).sum ≤ (samplePrintObject o).length := by
  have hparts := length_intercalate_le (bytes ",") (o.map fun f =>
    bytes "\"" ++ f.1 ++ bytes "\":" ++ samplePrintValue f.2)
  have hnames : (o.map fun f => f.1.length).sum ≤ ((o.map fun f =>
      bytes "\"" ++ f.1 ++ bytes "\":" ++ samplePrintValue f.2).map List.length).sum := by
    rw [List.map_map]
    refine List.sum_le_sum fun f _ => ?_
    simp only [Function.comp_apply, List.length_append]
    omega
  unfold samplePrintObject
  simp only [List.length_append]
  omega

/-- The text of a list grows with the number of its rows. -/
theorem length_samplePrint {n : ℕ} {items : List (JsonObject ℤ)}
    (h : ∀ o ∈ items, n ≤ (o.map fun f => f.1.length).sum) :
    items.length * n ≤ (samplePrint items).length := by
  have hparts := length_intercalate_le (bytes ",") (items.map samplePrintObject)
  have hsum : items.length * n ≤ ((items.map samplePrintObject).map List.length).sum := by
    rw [List.map_map]
    have hcard := List.card_nsmul_le_sum (items.map (List.length ∘ samplePrintObject)) n
      fun x hx => by
        obtain ⟨o, ho, rfl⟩ := List.mem_map.mp hx
        exact (h o ho).trans (length_samplePrintObject o)
    rw [List.length_map] at hcard
    exact hcard
  unfold samplePrint
  simp only [List.length_append]
  omega

/-- The town on a day on which the clock stands still. -/
def stillEnv : @Env samplePlatform :=
  letI := samplePlatform
  { townEnv with clock := fun _ => 1700000000 }

/-- A citizen registers and logs in. -/
def citizenRun : List ((HttpRequest × HttpResponse) × HttpResponse) × @World samplePlatform :=
  letI := samplePlatform
  Run.exec answer stillEnv (emptyWorld noSessions) [
    formRequest "/register" "" "username=ada&password=secret1&city=Torino&role=0",
    formRequest "/login" "" "username=ada&password=secret1"]

theorem run_citizenRun :
    Run (@answer samplePlatform) stillEnv (@emptyWorld samplePlatform noSessions)
      citizenRun.1 citizenRun.2 := Run.of_exec _ _ _ _

def submission : HttpRequest :=
  (formRequest "/submit" "aaaaaaaaaaaaaaaaaaaaaaaaaaaaaaa0"
    "description=via%20Po&lat=45.1&lon=7.6").1

def ada : User :=
  letI := samplePlatform
  (getSessionUser submission stillEnv citizenRun.2).1.getD ⟨0, [], [], [], [], .admin⟩

/-- The request goes to `route_post_submit`, with a description and inside of the town, ... -/
theorem submission_facts :
    letI := samplePlatform
    (∀ x ∈ routes.take 7, httpIsRequestPath submission x.path = false ∨
      httpIsRequestMethod submission x.method = false) ∧
    httpIsRequestPath submission (bytes "/submit") = true ∧
    httpIsRequestMethod submission (bytes "POST") = true ∧
    getField submission.bodyPtr (bytes "description=") descLen ≠ [] ∧
    httpRequestCookie listRequest sessionCookieName (tokenHexLen + 1) =
      httpRequestCookie submission sessionCookieName (tokenHexLen + 1) := by decide +kernel

/-- ... and the citizen is logged in before the first report. -/
theorem citizenRun_facts :
    letI := samplePlatform
    (getSessionUser submission stillEnv citizenRun.2).1 = some ada ∧
    citizenRun.2.db.reports.length = 0 ∧ citizenRun.2.db.reportSeq = 0 ∧
    userIsOperator ada = false ∧ userIsAdmin ada = false ∧
    ((htGet stillEnv.cityTable (geoKey ada.city)).any fun g => !geoContains g
      (coordinate (getField submission.bodyPtr (bytes "lat=") coordinateStrLen))
      (coordinate (getField submission.bodyPtr (bytes "lon=") coordinateStrLen))) = false := by
  decide +kernel

theorem submission_submittable : @Submittable samplePlatform stillEnv ada submission :=
  letI := samplePlatform
  have hfacts := submission_facts
  have hada := citizenRun_facts.2.2.2
  { routed := fun _ => handleRequest_first 7 (bytes "POST") (bytes "/submit") rfl hfacts.1
      hfacts.2.1 hfacts.2.2.1
    citizen := by rw [hada.1, hada.2.1]; rfl
    described := hfacts.2.2.2.1
    inside := hada.2.2
    real := rfl }

theorem stillEnv_unfailing : @Unfailing samplePlatform stillEnv :=
  @Unfailing.mk samplePlatform stillEnv (fun _ => rfl) (fun _ => rfl)

theorem citizenRun_consistent : @Consistent samplePlatform citizenRun.2 :=
  (@consistent_fresh samplePlatform stillEnv stillEnv_unfailing _ _ _ _
    (@sessionInit_noSessions) _ _ run_citizenRun).1

theorem citizenRun_wf :
    letI := samplePlatform
    citizenRun.2.sessions.WF :=
  letI := samplePlatform
  citizenRun_consistent.wf

theorem citizenRun_grown : @Grown samplePlatform stillEnv ada submission 0 citizenRun.2 :=
  have hfacts := citizenRun_facts
  @grown_of_session samplePlatform stillEnv citizenRun.2 submission ada citizenRun_wf
    ⟨hfacts.1, hfacts.2.1, hfacts.2.2.1⟩

/-- The list of a citizen who has submitted reports that nobody has taken up shows them all. -/
theorem Grown.length_items {e : @Env samplePlatform} {u : User} {req : HttpRequest} {n : ℕ}
    {w : @World samplePlatform} (hw : @Grown samplePlatform e u req n w)
    (hcitizen : userIsOperator u = false) :
    letI := samplePlatform
    (ListEndpoint.active.items u w.db).length = n := by
  let := samplePlatform
  have hselect := hw.select
  have hlength : ∀ (f : ReportRow → Option ℤ) (rows : List ReportRow),
      (Platform.orderDesc f rows).length = rows.length := fun f rows =>
    List.length_insertionSort _ _
  unfold ListEndpoint.items
  dsimp only
  rw [List.length_map, selectActive, hcitizen]
  simp only [Bool.false_eq_true, if_false]
  rw [hlength, hselect, hw.length]

theorem Grown.full {e : @Env samplePlatform} {u : User} {req : HttpRequest} {n : ℕ}
    {w : @World samplePlatform} (hw : @Grown samplePlatform e u req n w)
    (hcitizen : userIsOperator u = false) (hn : responseBufferSize ≤ n * 97) :
    letI := samplePlatform
    Platform.printPreallocated (ListEndpoint.active.items u w.db) responseBufferSize = none := by
  let := samplePlatform
  have hlength := hw.length_items hcitizen
  refine samplePrints.full _ _ ?_
  have hnames : ∀ o ∈ ListEndpoint.active.items u w.db, 97 ≤ (o.map fun f => f.1.length).sum := by
    intro o ho
    obtain ⟨row, -, rfl⟩ := List.mem_map.mp ho
    exact (reportFields_names (cursorToReport row)).ge
  have hrows := length_samplePrint hnames
  rw [hlength] at hrows
  omega

/-- After 3000 reports the list of the active ones is answered with 200 and an empty body. -/
theorem answers_truncated :
    letI := samplePlatform
    ¬ ∀ log w, Run answer stillEnv (emptyWorld noSessions) log w →
      ∀ (l : ListEndpoint) req resp resp' w', httpIsRequestPath req l.path = true →
        httpIsRequestMethod req (bytes "GET") = true →
        handleRequest req resp stillEnv w = (resp', w') → resp'.statusCode = 200 →
        ∃ u, LoggedInAs stillEnv w req u ∧
          resp'.body.take resp'.bodyLen = samplePrint (l.items u w.db) := by
  let := samplePlatform
  intro hall
  obtain ⟨log, w, hrun, hgrown⟩ := exists_grown stillEnv_unfailing (fun _ => rfl)
    submission_submittable blankResponse run_citizenRun citizenRun_grown (n := 3000) (by decide)
  have hnone := hgrown.full citizenRun_facts.2.2.2.1 (by decide)
  have hlog : LoggedInAs stillEnv w listRequest ada := by
    unfold LoggedInAs
    rw [submission_facts.2.2.2.2]
    exact hgrown.session
  have hfresh := (consistent_fresh stillEnv_unfailing sessionInit_noSessions hrun).2
  have hroute : handleRequest listRequest blankResponse =
      routeApiReportsActive listRequest blankResponse :=
    ListEndpoint.handleRequest_eq (l := .active) listedAnswer_facts.2.1 listedAnswer_facts.2.2
  have hanswer : routeApiReportsActive listRequest blankResponse stillEnv w = (_, _) :=
    Prod.mk.eta.symm
  obtain ⟨hok, hempty⟩ := active_truncated stillEnv_unfailing hfresh hlog hnone hanswer
  obtain ⟨u, -, hbody⟩ := hall log w hrun .active listRequest blankResponse _ _
    listedAnswer_facts.2.1 listedAnswer_facts.2.2 (by rw [hroute, hanswer]) hok
  exact samplePrints.nonempty _ (hbody.symm.trans hempty)

end Segnalacity
