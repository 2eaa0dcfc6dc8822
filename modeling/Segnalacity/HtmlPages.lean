import Segnalacity.Completeness
import Segnalacity.Markup
import Segnalacity.ResponseBuffer

/-! # HTML pages

Every page is followed from the handler to the body that is sent.  A body is taken for HTML when
it begins with `<`, so the lists have to be followed as well: what the cache keeps of them is a JSON
array (`CachedArrays`). -/

namespace Segnalacity

open CStr StateProg Sql Http HashTable

section platform

variable [Platform]

/-! ### The cache -/

/-- What occupied slots hold begins with `[`. -/
def CachedArrays (w : World) : Prop := ∀ s ∈ w.cache, s.cachedAt ≠ 0 → s.json.head? = some 91

theorem emptyWorld_cachedArrays (sessions : HashTable Session) :
    CachedArrays (emptyWorld sessions) := by
  intro s hs hlive
  exact absurd (by rw [List.eq_of_mem_replicate hs]) hlive

section keeps

theorem keepsCache_of_stored {α : Type} {m : App α} (h : Prog.Keeps World.stored m) :
    Prog.Keeps World.cache m := h.comp fun s => s.2.2

theorem keepsCache_now : Prog.Keeps World.cache now := keepsCache_of_stored keeps_now

theorem keepsCache_dbExec (stmt : Database → Option Database) :
    Prog.Keeps World.cache (dbExec stmt) := by
  refine (keepsCache_of_stored keeps_attempt).bind fun ok => (Prog.keeps_pure _ _).ite ?_
  refine (Prog.keeps_view _ _).bind fun r => ?_
  cases r with
  | none => exact Prog.keeps_pure _ _
  | some db => exact Prog.Keeps.bind (fun _ _ => rfl) fun _ => Prog.keeps_pure _ _

theorem keepsCache_firstRow {α : Type} (query : Database → List α) :
    Prog.Keeps World.cache (firstRow query) := by
  refine (keepsCache_of_stored (keeps_dbCursorOpen query)).bind fun c => ?_
  refine Prog.Keeps.bind ?_ fun r => Prog.keeps_pure _ _
  cases c with
  | none => exact Prog.keeps_pure _ _
  | some rows =>
      exact (keepsCache_of_stored keeps_attempt).bind fun _ =>
        (Prog.keeps_pure _ _).ite (Prog.keeps_pure _ _)

theorem keepsCache_sessionVerify (token : Bytes) : Prog.Keeps World.cache (sessionVerify token) := by
  refine (Prog.keeps_view _ _).bind fun s => ?_
  cases s with
  | none => exact Prog.keeps_pure _ _
  | some s =>
      refine keepsCache_now.bind fun t => Prog.Keeps.ite ?_ (Prog.keeps_pure _ _)
      exact Prog.Keeps.bind (fun _ _ => rfl) fun _ => Prog.keeps_pure _ _

theorem keepsCache_freshToken (tries : ℕ) : Prog.Keeps World.cache (freshToken tries) := by
  induction tries with
  | zero => exact Prog.keeps_pure _ _
  | succ tries ih =>
      have hdraw : Prog.Keeps World.cache generateToken := fun _ _ => rfl
      exact hdraw.bind fun token => (keepsCache_sessionVerify token).bind fun _ =>
        (Prog.keeps_pure _ _).ite ih

theorem keepsCache_sessionCreate (u : User) : Prog.Keeps World.cache (sessionCreate u) := by
  refine (keepsCache_freshToken _).bind fun token => ?_
  cases token with
  | none => exact Prog.keeps_pure _ _
  | some token =>
      have hallocs : Prog.Keeps World.cache nextSetAllocs := fun _ _ => rfl
      refine keepsCache_now.bind fun t => hallocs.bind fun m => (Prog.keeps_view _ _).bind fun ok => ?_
      exact Prog.Keeps.bind (fun _ _ => rfl) fun _ => (Prog.keeps_pure _ _).ite (Prog.keeps_pure _ _)

theorem keepsCache_getSessionUser (req : HttpRequest) :
    Prog.Keeps World.cache (getSessionUser req) :=
  (Prog.keeps_pure _ _).ite (keepsCache_sessionVerify _)

theorem keepsCache_sessionUserWith (allowed : User → Bool) (req : HttpRequest) :
    Prog.Keeps World.cache (sessionUserWith allowed req) :=
  (keepsCache_getSessionUser req).bind fun _ => Prog.keeps_pure _ _

theorem keepsCache_userAuthenticate (username plain : Bytes) :
    Prog.Keeps World.cache (userAuthenticate username plain) := by
  refine (keepsCache_firstRow _).bind fun row => ?_
  cases row with
  | none => exact Prog.keeps_pure _ _
  | some row => exact Prog.keeps_pure _ _

theorem keepsCache_userRegister (username plain city : Bytes) (role : UserRole) :
    Prog.Keeps World.cache (userRegister username plain city role) := by
  have hsalt : Prog.Keeps World.cache generateSalt := fun _ _ => rfl
  exact hsalt.bind fun _ => keepsCache_dbExec _

theorem keepsCache_userRegisterAdmin (username plain city : Bytes) :
    Prog.Keeps World.cache (userRegisterAdmin username plain city) :=
  (keepsCache_firstRow _).bind fun _ =>
    (Prog.keeps_pure _ _).ite (keepsCache_userRegister username plain city .admin)

theorem keepsCache_reportGetById (id : UInt64) : Prog.Keeps World.cache (reportGetById id) :=
  (keepsCache_firstRow _).bind fun _ => Prog.keeps_pure _ _

end keeps

section cache
variable {e : Env}

/-- A program that does not touch the cache. -/
theorem ensures_of_keepsCache {α : Type} {m : App α} (h : Prog.Keeps World.cache m) :
    Prog.Ensures e CachedArrays (fun _ => True) m := by
  refine h.ensures fun w w' hcache hw => ?_
  unfold CachedArrays
  rw [hcache]
  exact hw

theorem reportCacheInvalidateCity_ensures (city : Bytes) (authorId : UInt64) :
    Prog.Ensures e CachedArrays (fun _ => True) (reportCacheInvalidateCity city authorId) :=
  Prog.ensures_update fun _ hw s hs hlive => hw s (mem_invalidated hs hlive).1 hlive

theorem guardedUpdate_ensures (guard : ReportRow → Tri) (set : ReportRow → ReportRow)
    (id : UInt64) : Prog.Ensures e CachedArrays (fun _ => True) (guardedUpdate guard set id) := by
  refine (ensures_of_keepsCache (keepsCache_dbExec _)).andThen fun rc => ?_
  refine Prog.ensures_ite (fun _ => Prog.ensures_pure trivial) fun _ => ?_
  refine (ensures_of_keepsCache (Prog.keeps_view _ _)).andThen fun n => ?_
  refine Prog.ensures_ite (fun _ => Prog.ensures_pure trivial) fun _ => ?_
  refine (ensures_of_keepsCache (keepsCache_reportGetById id)).andThen fun r => ?_
  cases r with
  | none => exact Prog.ensures_pure trivial
  | some r =>
      exact (reportCacheInvalidateCity_ensures _ _).andThen fun _ => Prog.ensures_pure trivial

theorem reportAssign_ensures (id operatorId : UInt64) :
    Prog.Ensures e CachedArrays (fun _ => True) (reportAssign id operatorId) :=
  (ensures_of_keepsCache keepsCache_now).andThen fun _ => guardedUpdate_ensures _ _ _

theorem reportResolve_ensures (id operatorId : UInt64) :
    Prog.Ensures e CachedArrays (fun _ => True) (reportResolve id operatorId) :=
  (ensures_of_keepsCache keepsCache_now).andThen fun _ => guardedUpdate_ensures _ _ _

theorem reportSetFeedback_ensures (id authorId : UInt64) (stars : ℤ) :
    Prog.Ensures e CachedArrays (fun _ => True) (reportSetFeedback id authorId stars) :=
  Prog.ensures_ite (fun _ => Prog.ensures_pure trivial) fun _ => guardedUpdate_ensures _ _ _

theorem reportInsert_ensures (authorId : UInt64) (lat lon : Double) (city category desc : Bytes) :
    Prog.Ensures e CachedArrays (fun _ => True)
      (reportInsert authorId lat lon city category desc) := by
  refine (ensures_of_keepsCache keepsCache_now).andThen fun t => ?_
  refine (ensures_of_keepsCache (keepsCache_dbExec _)).andThen fun rc => ?_
  refine Prog.ensures_ite (fun _ => Prog.ensures_pure trivial) fun _ => ?_
  refine (ensures_of_keepsCache (Prog.keeps_view _ _)).andThen fun id => ?_
  refine Prog.ensures_ite (fun _ => Prog.ensures_pure trivial) fun _ => ?_
  exact (reportCacheInvalidateCity_ensures _ _).andThen fun _ => Prog.ensures_pure trivial

end cache

/-! ### What a page is made of -/

/-- The texts of the plain error pages. -/
def headings : List Bytes := [
  bytes "Server Error", bytes "CSS not found", bytes "docs not found",
  bytes "405 Method Not Allowed"]

/-- The messages over the forms; the empty one shows no block. -/
def messages : List Bytes := [
  [], bytes "Username o password errati.", bytes "Errore interno. Riprova.",
  bytes "Tutti i campi sono obbligatori.", bytes "La password deve avere almeno 6 caratteri.",
  bytes "Comune non riconosciuto. Selezionalo dalla lista.",
  bytes "Esiste già un'amministrazione comunale per questa città.",
  bytes "Username già in uso. Scegline un altro.", bytes "La descrizione è obbligatoria.",
  bytes "Le coordinate non appartengono alla tua città."]

def errorVar (msg : Bytes) : PageVar :=
  ⟨bytes "ERROR_BLOCK", [.fixed (makeErrorBlock msg errorBlockMaxLen)]⟩

def userVars (u : User) : List PageVar := [
  ⟨bytes "USERNAME", [escaped u.username escapedParamLen]⟩,
  ⟨bytes "CITY", [escaped u.city escapedParamLen]⟩]

def mapVars (mv : MapVars) : List PageVar := [
  ⟨bytes "MAP_LAT", [.number mv.lat]⟩,
  ⟨bytes "MAP_LON", [.number mv.lon]⟩,
  ⟨bytes "MAP_BOUNDS", [.number mv.bounds]⟩]

/-- The variables of the map of some city. -/
def Located (e : Env) (mv : MapVars) : Prop := ∃ city w, (buildMapVars city e w).1 = mv

/-- The pages that the handlers compose: nothing, an error, or a template of the server with its
variables. -/
inductive Composed (e : Env) : List Segment → Prop
  | nothing : Composed e []
  | heading {msg : Bytes} : msg ∈ headings →
      Composed e [.fixed (bytes "<h1>"), .fixed msg, .fixed (bytes "</h1>")]
  | form {tpl : Template} {msg : Bytes} : tpl ∈ e.templates → msg ∈ messages →
      Composed e (pageOf tpl [errorVar msg])
  | home {tpl : Template} {mv : MapVars} (u : User) : tpl ∈ e.templates → Located e mv →
      Composed e (pageOf tpl (userVars u ++ mapVars mv))
  | submit {tpl : Template} {msg : Bytes} {mv : MapVars} (u : User) : tpl ∈ e.templates →
      msg ∈ messages → Located e mv →
      Composed e (pageOf tpl (userVars u ++ errorVar msg :: mapVars mv))
  | file {tpl : Template} : tpl ∈ e.templates → Composed e (pageOf tpl [])

/-- What `cJSON` and `printf` print: an array begins with `[`, and a number has no markup. -/
structure PlainTexts : Prop where
  array : ∀ items max text, Platform.printPreallocated items max = some text →
    text.head? = some 91
  number : ∀ x, ∀ c ∈ Platform.fixed6 x, isMarkup c = false

theorem mapVars_clean (hplain : PlainTexts) {e : Env} {mv : MapVars} (h : Located e mv) :
    ∀ v ∈ mapVars mv, ∀ s ∈ v.segments, s.Clean := by
  obtain ⟨city, w, hmv⟩ := h
  obtain ⟨g, w₁, -, h₂⟩ := Prog.bind_run_iff.mp (Prog.run_of_fst hmv)
  have hnumber : ∀ (n : ℕ) (x : Double) (c : UInt8), c ∈ snprintf n (Platform.fixed6 x) →
      isMarkup c = false := fun n x c hc => hplain.number x c (List.mem_of_mem_take hc)
  suffices hclean : (∀ c ∈ mv.lat, isMarkup c = false) ∧ (∀ c ∈ mv.lon, isMarkup c = false) ∧
      ∀ c ∈ mv.bounds, isMarkup c = false by
    intro v hv s hs
    simp only [mapVars, List.mem_cons, List.not_mem_nil, or_false] at hv
    rcases hv with rfl | rfl | rfl
    · rw [List.mem_singleton.mp hs]
      exact hclean.1
    · rw [List.mem_singleton.mp hs]
      exact hclean.2.1
    · rw [List.mem_singleton.mp hs]
      exact hclean.2.2
  cases g with
  | none =>
      obtain ⟨rfl, -⟩ := Prog.pure_run_iff.mp h₂
      decide
  | some geo =>
      obtain ⟨rfl, -⟩ := Prog.pure_run_iff.mp h₂
      refine ⟨hnumber _ _, hnumber _ _, fun c hc => ?_⟩
      have hpunctuation : ∀ t ∈ [bytes "[[", bytes ",", bytes "],[", bytes "]]"], ∀ c ∈ t,
          isMarkup c = false := by decide
      have hmem := List.mem_of_mem_take hc
      simp only [List.mem_append] at hmem
      rcases hmem with (((((((h | h) | h) | h) | h) | h) | h) | h) | h
      · exact hpunctuation (bytes "[[") (by simp) c h
      · exact hplain.number _ c h
      · exact hpunctuation (bytes ",") (by simp) c h
      · exact hplain.number _ c h
      · exact hpunctuation (bytes "],[") (by simp) c h
      · exact hplain.number _ c h
      · exact hpunctuation (bytes ",") (by simp) c h
      · exact hplain.number _ c h
      · exact hpunctuation (bytes "]]") (by simp) c h

omit [Platform] in
theorem userVars_clean (u : User) : ∀ v ∈ userVars u, ∀ s ∈ v.segments, s.Clean := by
  intro v hv s hs
  simp only [userVars, List.mem_cons, List.not_mem_nil, or_false] at hv
  rcases hv with rfl | rfl
  · rw [List.mem_singleton.mp hs]
    exact escaped_clean _ _
  · rw [List.mem_singleton.mp hs]
    exact escaped_clean _ _

omit [Platform] in
theorem errorVar_clean (msg : Bytes) : ∀ s ∈ (errorVar msg).segments, s.Clean := by
  intro s hs
  rw [List.mem_singleton.mp hs]
  trivial

theorem Composed.clean (hplain : PlainTexts) {e : Env} {page : List Segment} (h : Composed e page) :
    ∀ s ∈ page, s.Clean := by
  cases h with
  | nothing => exact List.forall_mem_nil _
  | heading hmsg =>
      exact List.forall_mem_cons.mpr ⟨trivial, List.forall_mem_cons.mpr ⟨trivial,
        List.forall_mem_cons.mpr ⟨trivial, List.forall_mem_nil _⟩⟩⟩
  | form htpl hmsg =>
      refine pageOf_clean _ fun v hv => ?_
      rw [List.mem_singleton.mp hv]
      exact errorVar_clean _
  | home u htpl hmv =>
      refine pageOf_clean _ fun v hv => ?_
      rcases List.mem_append.mp hv with hv | hv
      · exact userVars_clean u v hv
      · exact mapVars_clean hplain hmv v hv
  | submit u htpl hmsg hmv =>
      refine pageOf_clean _ fun v hv => ?_
      rcases List.mem_append.mp hv with hv | hv
      · exact userVars_clean u v hv
      · rcases List.mem_cons.mp hv with rfl | hv
        · exact errorVar_clean _
        · exact mapVars_clean hplain hmv v hv
  | file htpl => exact pageOf_clean _ (List.forall_mem_nil _)

/-! ### Bodies -/

omit [Platform] in
/-- The response says that it is HTML. -/
def Html (resp : HttpResponse) : Prop := resp.raw.type = bytes "text/html; charset=utf-8"

/-- An HTML response over a buffer without a type has been composed. -/
def SendsComposed (e : Env) (resp resp' : HttpResponse) : Prop :=
  resp.contentType = none → Html resp' →
    ∃ page, Composed e page ∧ pageText page = resp'.raw.sent

section bodies
variable {e : Env} {resp resp' : HttpResponse}

omit [Platform] in
theorem Html.head (h : Html resp) (htype : resp.contentType = none) :
    resp.body.head? = some 60 := by
  unfold Html RawResponse.type HttpResponse.raw inferContentType at h
  rw [htype] at h
  dsimp only [Option.getD_some] at h
  split at h
  · assumption
  · exact absurd h (by decide)
  · exact absurd h (by decide)
  · exact absurd h (by decide)

omit [Platform] in
theorem sent_of_ok (h : resp.statusCode ≠ 302) : resp.raw.sent = resp.body.take resp.bodyLen := by
  have hstatus : resp.raw.statusCode ≠ 302 := Int.ofNat_inj.not.mpr h
  unfold RawResponse.sent RawResponse.sentLen
  rw [if_neg hstatus]
  rfl

theorem sends_of_sent (h : resp'.raw.sent = []) : SendsComposed e resp resp' :=
  fun _ _ => ⟨[], .nothing, h.symm⟩

/-- A body that begins with another character is no HTML. -/
theorem sends_of_head {c : UInt8} (htype : resp'.contentType = resp.contentType)
    (hhead : resp'.body.head? = some c) (hc : c ≠ 60) : SendsComposed e resp resp' := by
  intro hnone hhtml
  have hlt := hhtml.head (htype.trans hnone)
  rw [hhead] at hlt
  exact absurd (Option.some.inj hlt) hc

theorem sends_redirect (url : Bytes) (cookie : Option Bytes) :
    SendsComposed e resp (redirect resp url cookie) := sends_of_sent rfl

omit [Platform] in
theorem print_head {text : Bytes} {c : UInt8} (h : text.head? = some c) :
    (HttpResponse.print resp text).body.head? = some c := by
  cases text with
  | nil => cases h
  | cons b text => exact h

omit [Platform] in
/-- A text without a NUL that fits is sent as it is. -/
theorem print_sent {text : Bytes} (h : resp.statusCode ≠ 302) (hzero : (0 : UInt8) ∉ text)
    (hlen : text.length < responseBufferSize) :
    (HttpResponse.print resp text).raw.sent = text := by
  have hfits : snprintf responseBufferSize text = text := List.take_of_length_le (by omega)
  rw [@sent_of_ok (HttpResponse.print resp text) h]
  unfold HttpResponse.print
  rw [hfits, cstr_eq_self hzero]
  show (text ++ [0] ++ _).take text.length = text
  rw [List.append_assoc, List.take_left]

theorem sends_jsonError (status : ℕ) (msg : Bytes) :
    SendsComposed e resp (respJsonError resp status msg) :=
  sends_of_head rfl (print_head rfl) (by decide)

theorem sends_write (rc : ℤ) (status : ℕ) (msg : Bytes) :
    SendsComposed e resp (respWrite resp rc status msg) := by
  unfold respWrite
  split_ifs
  · exact sends_jsonError status msg
  · exact sends_jsonError 500 _
  · exact sends_of_head rfl (print_head rfl) (by decide)

theorem sends_htmlError {status : ℕ} (hstatus : status ≠ 302) {msg : Bytes}
    (hmsg : msg ∈ headings) : SendsComposed e resp (respHtmlError resp status msg) := by
  intro _ _
  have hplain : ∀ m ∈ headings, (0 : UInt8) ∉ bytes "<h1>" ++ m ++ bytes "</h1>" ∧
      (bytes "<h1>" ++ m ++ bytes "</h1>").length < 64 := by decide
  obtain ⟨hzero, hlen⟩ := hplain msg hmsg
  refine ⟨_, .heading hmsg, ?_⟩
  unfold respHtmlError
  rw [print_sent hstatus hzero (hlen.trans (by decide)), List.append_assoc]
  show bytes "<h1>" ++ (msg ++ (bytes "</h1>" ++ [])) = _
  rw [List.append_nil]

/-- A rendered template, or nothing when its text does not fit. -/
theorem sends_rendered {tpl : Template} {vars : List PageVar} (h : Composed e (pageOf tpl vars))
    (contentType : Option Bytes) : SendsComposed e resp { resp with
      statusCode := 200
      contentType := contentType
      body := (tplRender tpl resp.body responseBufferSize (vars.map PageVar.tplVar)).2
      bodyLen := (tplRender tpl resp.body responseBufferSize (vars.map PageVar.tplVar)).1.toNat } := by
  intro _ _
  have hbody := tplRender_body tpl resp.body responseBufferSize_pos (vars.map PageVar.tplVar)
  by_cases hfits : (substitute tpl (vars.map PageVar.tplVar)).length < responseBufferSize
  · rw [if_pos hfits] at hbody
    exact ⟨_, h, (pageText_pageOf tpl vars).trans hbody.symm⟩
  · rw [if_neg hfits] at hbody
    exact ⟨[], .nothing, hbody.symm⟩

end bodies

/-! ### Pages -/

/-- The cache keeps arrays, and an HTML answer has been composed. -/
abbrev Renders (e : Env) (resp : HttpResponse) (m : App HttpResponse) : Prop :=
  Prog.Ensures e CachedArrays (SendsComposed e resp) m

section pages
variable {e : Env} {req : HttpRequest} {resp : HttpResponse}

theorem tplGet_ensures {I : World → Prop} (path : Bytes) :
    Prog.Ensures e I (fun t => ∀ tpl ∈ t, tpl ∈ e.templates) (tplGet path) :=
  Prog.ensures_ask fun _ htpl => List.mem_of_find?_eq_some htpl

theorem respRenderTpl_renders (name : Bytes) {vars : List PageVar} {values : List TplVar}
    (hvalues : vars.map PageVar.tplVar = values)
    (h : ∀ tpl ∈ e.templates, Composed e (pageOf tpl vars)) :
    Renders e resp (respRenderTpl resp name values) := by
  rw [← hvalues]
  refine (tplGet_ensures name).bind fun t ht => ?_
  cases t with
  | none =>
      exact Prog.ensures_pure (sends_htmlError (by decide) (List.mem_of_getElem? (i := 0) rfl))
  | some tpl => exact Prog.ensures_pure (sends_rendered (h tpl (ht tpl rfl)) resp.contentType)

omit [Platform] in
theorem errorVar_value (msg : Bytes) :
    (errorVar msg).tplVar = ⟨bytes "ERROR_BLOCK", makeErrorBlock msg errorBlockMaxLen⟩ := by
  unfold PageVar.tplVar errorVar
  exact congrArg (TplVar.mk _) (List.append_nil _)

omit [Platform] in
theorem userVars_values (u : User) : (userVars u).map PageVar.tplVar = [
    ⟨bytes "USERNAME", htmlEscape u.username escapedParamLen⟩,
    ⟨bytes "CITY", htmlEscape u.city escapedParamLen⟩] := by
  simp only [userVars, PageVar.tplVar, pageText, List.map_cons, List.map_nil, List.flatMap_cons,
    List.flatMap_nil, List.append_nil, escaped_text]

omit [Platform] in
theorem mapVars_values (mv : MapVars) : (mapVars mv).map PageVar.tplVar = [
    ⟨bytes "MAP_LAT", mv.lat⟩, ⟨bytes "MAP_LON", mv.lon⟩, ⟨bytes "MAP_BOUNDS", mv.bounds⟩] := by
  simp only [mapVars, PageVar.tplVar, pageText, List.map_cons, List.map_nil, List.flatMap_cons,
    List.flatMap_nil, List.append_nil, Segment.text]

omit [Platform] in
theorem nil_mem_messages : ([] : Bytes) ∈ messages := List.mem_cons_self

/-- A login or registration form with its message. -/
theorem form_renders (name : Bytes) {msg : Bytes} (hmsg : msg ∈ messages) :
    Renders e resp
      (respRenderTpl resp name [⟨bytes "ERROR_BLOCK", makeErrorBlock msg errorBlockMaxLen⟩]) :=
  @respRenderTpl_renders _ e resp name [errorVar msg] _
    (congrArg (fun v => [v]) (errorVar_value msg)) fun _ htpl => .form htpl hmsg

/-- A form without a message. -/
theorem blankForm_renders (name : Bytes) :
    Renders e resp (respRenderTpl resp name [⟨bytes "ERROR_BLOCK", []⟩]) :=
  @form_renders _ e resp name [] nil_mem_messages

theorem buildMapVars_ensures (city : Bytes) :
    Prog.Ensures e CachedArrays (Located e) (buildMapVars city) := by
  intro w hw
  cases hrun : buildMapVars city e w with
  | mk mv w₁ =>
      obtain rfl := buildMapVars_run hrun
      exact ⟨hw, city, w₁, by rw [hrun]⟩

theorem submitPage_renders (u : User) {msg : Bytes} (hmsg : msg ∈ messages) :
    Renders e resp (submitPage resp u (makeErrorBlock msg errorBlockMaxLen)) := by
  refine (buildMapVars_ensures u.city).bind fun mv hmv => ?_
  refine respRenderTpl_renders tplSubmit ?_ fun _ htpl => .submit u htpl hmsg hmv
  rw [List.map_append, List.map_cons, userVars_values, errorVar_value, mapVars_values]
  rfl

theorem serveTpl_renders (path contentType : Bytes) {missing : HttpResponse}
    (hmissing : SendsComposed e resp missing) :
    Renders e resp (serveTpl resp path contentType missing) := by
  refine (tplGet_ensures path).bind fun t ht => ?_
  cases t with
  | none => exact Prog.ensures_pure hmissing
  | some tpl =>
      have hpage : Composed e (pageOf tpl []) := .file (ht tpl rfl)
      exact Prog.ensures_pure (sends_rendered hpage (some contentType))

theorem getSessionUser_ensures (req : HttpRequest) :
    Prog.Ensures e CachedArrays (fun _ => True) (getSessionUser req) :=
  ensures_of_keepsCache (keepsCache_getSessionUser req)

theorem redirect_renders (url : Bytes) (cookie : Option Bytes) :
    Renders e resp (pure (redirect resp url cookie)) :=
  Prog.ensures_pure (sends_redirect url cookie)

theorem routeGetRoot_renders : Renders e resp (routeGetRoot req resp) := by
  refine (getSessionUser_ensures req).andThen fun u => ?_
  cases u with
  | none => exact blankForm_renders tplLogin
  | some u => exact redirect_renders _ _

theorem routeGetRegister_renders : Renders e resp (routeGetRegister req resp) :=
  blankForm_renders tplRegister

theorem routeGetHome_renders : Renders e resp (routeGetHome req resp) := by
  refine (getSessionUser_ensures req).andThen fun u => ?_
  cases u with
  | none => exact redirect_renders _ _
  | some u =>
      refine (buildMapVars_ensures u.city).bind fun mv hmv => ?_
      refine respRenderTpl_renders _ ?_ fun _ htpl => .home u htpl hmv
      rw [List.map_append, userVars_values, mapVars_values]
      rfl

theorem routeGetSubmit_renders : Renders e resp (routeGetSubmit req resp) := by
  refine (getSessionUser_ensures req).andThen fun u => ?_
  cases u with
  | none => exact redirect_renders _ _
  | some u =>
      refine Prog.ensures_ite (fun _ => redirect_renders _ _) fun _ => ?_
      exact @submitPage_renders _ e resp u [] nil_mem_messages

theorem routeGetLogout_renders : Renders e resp (routeGetLogout req resp) := by
  refine Prog.ensures_ite (fun _ => ?_) fun _ => redirect_renders _ _
  have hdestroy : Prog.Keeps World.cache
      (sessionDestroy (httpRequestCookie req sessionCookieName (tokenHexLen + 2))) := fun _ _ => rfl
  exact (ensures_of_keepsCache hdestroy).andThen fun _ => redirect_renders _ _

theorem loginError_renders {msg : Bytes} (hmsg : msg ∈ messages) :
    Renders e resp (loginError resp msg) := form_renders tplLogin hmsg

theorem registerError_renders {msg : Bytes} (hmsg : msg ∈ messages) :
    Renders e resp (registerError resp msg) := form_renders tplRegister hmsg

theorem routePostLogin_renders : Renders e resp (routePostLogin req resp) := by
  refine (ensures_of_keepsCache (keepsCache_userAuthenticate _ _)).andThen fun u => ?_
  cases u with
  | none => exact loginError_renders (List.mem_of_getElem? (i := 1) rfl)
  | some u =>
      refine (ensures_of_keepsCache (keepsCache_sessionCreate u)).andThen fun token => ?_
      cases token with
      | none => exact loginError_renders (List.mem_of_getElem? (i := 2) rfl)
      | some token => exact redirect_renders _ _

theorem routePostRegister_renders : Renders e resp (routePostRegister req resp) := by
  have htaken : Renders e resp
      (registerError resp (bytes "Username già in uso. Scegline un altro.")) :=
    registerError_renders (List.mem_of_getElem? (i := 7) rfl)
  refine Prog.ensures_ite (fun _ => registerError_renders (List.mem_of_getElem? (i := 3) rfl))
    fun _ => ?_
  refine Prog.ensures_ite (fun _ => registerError_renders (List.mem_of_getElem? (i := 4) rfl))
    fun _ => ?_
  refine (Prog.ensures_ask (Q := fun _ => True) trivial).andThen fun geo => ?_
  refine Prog.ensures_ite (fun _ => registerError_renders (List.mem_of_getElem? (i := 5) rfl))
    fun _ => ?_
  refine Prog.ensures_ite (fun _ => ?_) fun _ => ?_
  · refine (ensures_of_keepsCache (keepsCache_userRegisterAdmin _ _ _)).andThen fun rc => ?_
    refine Prog.ensures_ite (fun _ => registerError_renders (List.mem_of_getElem? (i := 6) rfl))
      fun _ => ?_
    exact Prog.ensures_ite (fun _ => htaken) fun _ => redirect_renders _ _
  · refine (ensures_of_keepsCache (keepsCache_userRegister _ _ _ _)).andThen fun rc => ?_
    exact Prog.ensures_ite (fun _ => htaken) fun _ => redirect_renders _ _

theorem routePostSubmit_renders : Renders e resp (routePostSubmit req resp) := by
  refine (getSessionUser_ensures req).andThen fun u => ?_
  cases u with
  | none => exact redirect_renders _ _
  | some u =>
      refine Prog.ensures_ite (fun _ => redirect_renders _ _) fun _ => ?_
      refine Prog.ensures_ite (fun _ => submitPage_renders u (List.mem_of_getElem? (i := 8) rfl))
        fun _ => ?_
      refine (Prog.ensures_ask (Q := fun _ => True) trivial).andThen fun geo => ?_
      refine Prog.ensures_ite (fun _ => submitPage_renders u (List.mem_of_getElem? (i := 9) rfl))
        fun _ => ?_
      refine (reportInsert_ensures _ _ _ _ _ _).andThen fun rid => ?_
      exact Prog.ensures_ite (fun _ => submitPage_renders u (List.mem_of_getElem? (i := 2) rfl))
        fun _ => redirect_renders _ _

end pages

/-! ### Lists -/

/-- What a list function writes: nothing that is sent, or a text that begins with `[`. -/
def ArrayBody (r : ℕ × Bytes) : Prop := r.1 = 0 ∨ (r.2.take r.1).head? = some 91

section lists
variable {e : Env} {req : HttpRequest} {resp : HttpResponse}

theorem ArrayBody.sends {r : ℕ × Bytes} (h : ArrayBody r) : SendsComposed e resp (respList resp r) := by
  have hsent : (respList resp r).raw.sent = r.2.take r.1 :=
    sent_of_ok (show 200 ≠ 302 by decide)
  rcases h with hzero | hhead
  · exact sends_of_sent (by rw [hsent, hzero, List.take_zero])
  · refine sends_of_head rfl ?_ (by decide : (91 : UInt8) ≠ 60)
    rw [List.head?_take] at hhead
    split_ifs at hhead
    exact hhead

theorem arrayBody_printArray (hplain : PlainTexts) (items : List (JsonObject Double)) (buf : Bytes)
    (max : ℕ) : ArrayBody (printArray items buf max) := by
  by_cases hpos : 0 < (printArray items buf max).1
  · exact Or.inr (hplain.array _ _ _ (printArray_take hpos))
  · exact Or.inl (by omega)

theorem cursorToJsonArray_arrayBody (hplain : PlainTexts) (c : Option (List ReportRow)) (buf : Bytes)
    (max : ℕ) : Prog.Ensures e CachedArrays ArrayBody (cursorToJsonArray c buf max) := by
  refine (ensures_of_keepsCache (keepsCache_of_stored keeps_attemptAlloc)).andThen fun ok => ?_
  refine Prog.ensures_ite (fun _ => Prog.ensures_pure (Or.inl rfl)) fun _ => ?_
  refine (ensures_of_keepsCache (keepsCache_of_stored (keeps_drainCursor (fun _ =>
    (keeps_reportToCjson _).bind fun _ => Prog.keeps_pure _ _) c))).andThen fun items => ?_
  exact Prog.ensures_pure (arrayBody_printArray hplain items buf max)

/-- Only an array is stored. -/
theorem cacheStore_ensures {json : Bytes} (hjson : json.head? = some 91) (city : Bytes)
    (userId : UInt64) (isOperator isArchived : Bool) : Prog.Ensures e CachedArrays (fun _ => True)
      (cacheStore city userId isOperator isArchived json) := by
  refine Prog.ensures_ite (fun _ => Prog.ensures_pure trivial) fun _ => ?_
  refine (ensures_of_keepsCache keepsCache_now).andThen fun t => ?_
  refine Prog.ensures_update fun w hw s hs hlive => ?_
  rcases List.mem_or_eq_of_mem_set hs with hs | rfl
  · exact hw s hs hlive
  · exact hjson

theorem cachedList_arrayBody (hplain : PlainTexts)
    (query : UInt64 → Bool → Database → List ReportRow) (isArchived : Bool) (buf : Bytes) (max : ℕ)
    (userId : UInt64) (city : Bytes) (isOperator : Bool) : Prog.Ensures e CachedArrays ArrayBody
      (cachedList query isArchived buf max userId city isOperator) := by
  refine (ensures_of_keepsCache keepsCache_now).andThen fun t => ?_
  refine (Prog.ensures_view (Q := fun hit => ∀ s ∈ hit, s.json.head? = some 91)
    fun w hw s hs => ?_).bind fun hit hhit => ?_
  · obtain ⟨hmem, hlive, -⟩ := cacheFind_hit hs
    exact hw s hmem hlive
  refine (Prog.ensures_update fun w hw s hs hlive => ?_).andThen fun _ => ?_
  · exact hw s (mem_cacheFind hs hlive) hlive
  cases hit with
  | some s =>
      refine Prog.ensures_pure (Or.inr ?_)
      show (overlay (s.json ++ [0]) buf |>.take s.json.length).head? = some 91
      rw [take_overlay_text]
      exact hhit s rfl
  | none =>
      refine (ensures_of_keepsCache (keepsCache_of_stored (keeps_dbCursorOpen _))).andThen fun c => ?_
      refine (cursorToJsonArray_arrayBody hplain c buf max).bind fun r hr => ?_
      refine Prog.ensures_ite (fun hpos => ?_) fun _ => Prog.ensures_pure hr
      have hhead := hr.resolve_left (Nat.pos_iff_ne_zero.mp hpos)
      exact (cacheStore_ensures hhead _ _ _ _).andThen fun _ => Prog.ensures_pure hr

theorem reportGetAllCityJson_arrayBody (hplain : PlainTexts) (buf : Bytes) (max : ℕ) (city : Bytes) :
    Prog.Ensures e CachedArrays ArrayBody (reportGetAllCityJson buf max city) := by
  refine (ensures_of_keepsCache (keepsCache_of_stored (keeps_dbCursorOpen _))).andThen fun c => ?_
  cases c with
  | none => exact Prog.ensures_pure (Or.inl rfl)
  | some rows =>
      refine (ensures_of_keepsCache (keepsCache_of_stored keeps_attemptAlloc)).andThen fun ok => ?_
      refine Prog.ensures_ite (fun _ => Prog.ensures_pure (Or.inl rfl)) fun _ => ?_
      refine (ensures_of_keepsCache (keepsCache_of_stored
        (keeps_drainRows keeps_allCityItem rows))).andThen fun items => ?_
      exact Prog.ensures_pure (arrayBody_printArray hplain items buf max)

theorem userGetOperatorsJson_arrayBody (hplain : PlainTexts) (buf : Bytes) (max : ℕ) (city : Bytes) :
    Prog.Ensures e CachedArrays ArrayBody (userGetOperatorsJson buf max city) := by
  refine (ensures_of_keepsCache (keepsCache_of_stored (keeps_dbCursorOpen _))).andThen fun c => ?_
  cases c with
  | none =>
      exact Prog.ensures_ite (fun _ => Prog.ensures_pure (Or.inr rfl))
        fun _ => Prog.ensures_pure (Or.inl rfl)
  | some rows =>
      refine (ensures_of_keepsCache (keepsCache_of_stored keeps_attemptAlloc)).andThen fun root => ?_
      refine (ensures_of_keepsCache (keepsCache_of_stored
        (keeps_drainRows keeps_operatorItem rows))).andThen fun items => ?_
      refine Prog.ensures_ite (fun _ => Prog.ensures_pure (Or.inl rfl)) fun _ => ?_
      cases hprint : Platform.printPreallocated items max with
      | none => exact Prog.ensures_pure (Or.inl rfl)
      | some text =>
          refine Prog.ensures_pure (Or.inr ?_)
          show (overlay (text ++ [0]) buf |>.take text.length).head? = some 91
          rw [take_overlay_text]
          exact hplain.array _ _ _ hprint

theorem sessionUserWith_ensures (allowed : User → Bool) (req : HttpRequest) :
    Prog.Ensures e CachedArrays (fun _ => True) (sessionUserWith allowed req) :=
  ensures_of_keepsCache (keepsCache_sessionUserWith allowed req)

theorem jsonError_renders (status : ℕ) (msg : Bytes) :
    Renders e resp (pure (respJsonError resp status msg)) :=
  Prog.ensures_pure (sends_jsonError status msg)

/-- A list for whoever the request comes from, or an error. -/
theorem listHandler_renders {find : App (Option User)} {list : User → App (ℕ × Bytes)}
    (hfind : Prog.Ensures e CachedArrays (fun _ => True) find) (status : ℕ) (msg : Bytes)
    (hlist : ∀ u, Prog.Ensures e CachedArrays ArrayBody (list u)) :
    Renders e resp (find >>= fun u => match u with
      | none => pure (respJsonError resp status msg)
      | some u => do
          let r ← list u
          pure (respList resp r)) := by
  refine hfind.andThen fun u => ?_
  cases u with
  | none => exact jsonError_renders status msg
  | some u => exact (hlist u).bind fun r hr => Prog.ensures_pure hr.sends

theorem routeApiReportStatus_renders : Renders e resp (routeApiReportStatus req resp) := by
  refine (sessionUserWith_ensures _ req).andThen fun u => ?_
  cases u with
  | none => exact jsonError_renders _ _
  | some u =>
      refine Prog.ensures_ite (fun _ => jsonError_renders _ _) fun _ => ?_
      refine (ensures_of_keepsCache (keepsCache_reportGetById _)).andThen fun r => ?_
      cases r with
      | none => exact jsonError_renders _ _
      | some r =>
          refine Prog.ensures_ite (fun _ => jsonError_renders _ _) fun _ => ?_
          refine Prog.ensures_ite (fun _ => ?_) fun _ => jsonError_renders _ _
          exact (reportResolve_ensures _ _).andThen fun rc =>
            Prog.ensures_pure (sends_write rc _ _)

theorem routeApiReportRespond_renders : Renders e resp (routeApiReportRespond req resp) := by
  refine (sessionUserWith_ensures _ req).andThen fun u => ?_
  cases u with
  | none => exact jsonError_renders _ _
  | some u =>
      refine Prog.ensures_ite (fun _ => jsonError_renders _ _) fun _ => ?_
      refine Prog.ensures_ite (fun _ => jsonError_renders _ _) fun _ => ?_
      refine (ensures_of_keepsCache (keepsCache_reportGetById _)).andThen fun r => ?_
      cases r with
      | none => exact jsonError_renders _ _
      | some r =>
          refine Prog.ensures_ite (fun _ => jsonError_renders _ _) fun _ => ?_
          refine Prog.ensures_ite (fun _ => ?_) fun _ => ?_
          · exact (guardedUpdate_ensures _ _ _).andThen fun rc =>
              Prog.ensures_pure (sends_write rc _ _)
          · exact (guardedUpdate_ensures _ _ _).andThen fun rc =>
              Prog.ensures_pure (sends_write rc _ _)

theorem routeApiReportFeedback_renders : Renders e resp (routeApiReportFeedback req resp) := by
  refine (sessionUserWith_ensures _ req).andThen fun u => ?_
  cases u with
  | none => exact jsonError_renders _ _
  | some u =>
      refine Prog.ensures_ite (fun _ => jsonError_renders _ _) fun _ => ?_
      refine Prog.ensures_ite (fun _ => jsonError_renders _ _) fun _ => ?_
      exact (reportSetFeedback_ensures _ _ _).andThen fun rc =>
        Prog.ensures_pure (sends_write rc _ _)

theorem forceAssign_ensures (id operatorId : UInt64) :
    Prog.Ensures e CachedArrays (fun _ => True) (forceAssign id operatorId) := by
  refine (ensures_of_keepsCache (keepsCache_reportGetById _)).andThen fun rr => ?_
  refine Prog.ensures_ite (fun _ => ?_) fun _ => Prog.ensures_pure trivial
  exact (ensures_of_keepsCache (keepsCache_dbExec _)).andThen fun _ => reportAssign_ensures _ _

theorem routeApiAdminAssign_renders : Renders e resp (routeApiAdminAssign req resp) := by
  refine (sessionUserWith_ensures _ req).andThen fun u => ?_
  cases u with
  | none => exact jsonError_renders _ _
  | some u =>
      refine Prog.ensures_ite (fun _ => jsonError_renders _ _) fun _ => ?_
      refine (ensures_of_keepsCache (keepsCache_reportGetById _)).andThen fun r => ?_
      cases r with
      | none => exact jsonError_renders _ _
      | some r =>
          refine Prog.ensures_ite (fun _ => jsonError_renders _ _) fun _ => ?_
          have hop : Prog.Keeps World.cache
              (userGetById (strtoull (getField req.bodyPtr (bytes "operator_id=") operatorIdParamLen))) :=
            (keepsCache_firstRow _).bind fun _ => Prog.keeps_pure _ _
          refine (ensures_of_keepsCache hop).andThen fun op => ?_
          dsimp only
          split
          · exact jsonError_renders _ _
          · refine (reportAssign_ensures _ _).andThen fun rc => ?_
            refine Prog.ensures_ite (fun _ => ?_) fun _ => ?_
            · exact (forceAssign_ensures _ _).andThen fun rc =>
                Prog.ensures_pure (sends_write rc _ _)
            · exact Prog.ensures_pure (sends_write rc _ _)

end lists

/-! ### Every request -/

section requests
variable {e : Env} {req : HttpRequest} {resp : HttpResponse}

theorem routeApiReportsActive_renders (hplain : PlainTexts) :
    Renders e resp (routeApiReportsActive req resp) :=
  listHandler_renders (getSessionUser_ensures req) _ _ fun _ =>
    cachedList_arrayBody hplain _ _ _ _ _ _ _

theorem routeApiReportsArchived_renders (hplain : PlainTexts) :
    Renders e resp (routeApiReportsArchived req resp) :=
  listHandler_renders (getSessionUser_ensures req) _ _ fun _ =>
    cachedList_arrayBody hplain _ _ _ _ _ _ _

theorem routeApiReportsAll_renders (hplain : PlainTexts) :
    Renders e resp (routeApiReportsAll req resp) :=
  listHandler_renders (sessionUserWith_ensures _ req) _ _ fun _ =>
    reportGetAllCityJson_arrayBody hplain _ _ _

theorem routeApiOperators_renders (hplain : PlainTexts) :
    Renders e resp (routeApiOperators req resp) :=
  listHandler_renders (sessionUserWith_ensures _ req) _ _ fun _ =>
    userGetOperatorsJson_arrayBody hplain _ _ _

theorem routeApiCities_renders : Renders e resp (routeApiCities req resp) :=
  serveTpl_renders _ _ (sends_jsonError 404 _)

theorem routeStaticCss_renders : Renders e resp (routeStaticCss req resp) :=
  serveTpl_renders _ _ (sends_htmlError (by decide) (List.mem_of_getElem? (i := 1) rfl))

theorem routeStaticDocs_renders : Renders e resp (routeStaticDocs req resp) :=
  serveTpl_renders _ _ (sends_htmlError (by decide) (List.mem_of_getElem? (i := 2) rfl))

theorem routes_render (hplain : PlainTexts) : ∀ r ∈ routes, Renders e resp (r.handler req resp) := by
  simp only [routes, List.forall_mem_cons, List.not_mem_nil, IsEmpty.forall_iff, implies_true,
    and_true]
  exact ⟨routeGetRoot_renders, routeGetHome_renders, routeGetRegister_renders,
    routeGetSubmit_renders, routeGetLogout_renders, routePostLogin_renders,
    routePostRegister_renders, routePostSubmit_renders, routeApiCities_renders,
    routeApiReportsActive_renders hplain, routeApiReportsArchived_renders hplain,
    routeApiReportsAll_renders hplain, routeApiOperators_renders hplain,
    routeApiReportStatus_renders, routeApiReportRespond_renders, routeApiReportFeedback_renders,
    routeApiAdminAssign_renders, routeStaticCss_renders, routeStaticDocs_renders⟩

/-- The loop over the table: composed by a handler or by the 405 page when the path is there, and
the 404 page when it is not. -/
theorem dispatch_renders {rs : List Route} (hrs : ∀ r ∈ rs, Renders e resp (r.handler req resp))
    (pathFound : Bool) : Prog.Ensures e CachedArrays (fun resp' =>
      (pathFound = true ∨ req.path.text ∈ rs.map Route.path → SendsComposed e resp resp') ∧
        (¬ (pathFound = true ∨ req.path.text ∈ rs.map Route.path) → resp' = notFound req resp))
      (dispatch req resp pathFound rs) := by
  induction rs generalizing pathFound with
  | nil =>
      refine Prog.ensures_ite (fun hfound => Prog.ensures_pure ?_) fun hno => Prog.ensures_pure ?_
      · refine ⟨fun _ => sends_htmlError (by decide) (List.mem_of_getElem? (i := 3) rfl), ?_⟩
        exact fun hmissing => absurd (Or.inl hfound) hmissing
      · refine ⟨fun hfound => ?_, fun _ => rfl⟩
        exact absurd (hfound.resolve_right List.not_mem_nil) hno
  | cons r rs ih =>
      obtain ⟨hr, hrs⟩ := List.forall_mem_cons.mp hrs
      rw [List.map_cons, List.mem_cons]
      refine Prog.ensures_ite (fun hother => ?_) fun hpath => Prog.ensures_ite (fun _ => ?_) fun _ => ?_
      · have hne : req.path.text ≠ r.path := by simpa [httpIsRequestPath] using hother
        refine (ih hrs pathFound).mono fun resp' h => ?_
        rw [or_iff_right hne]
        exact h
      · have heq : req.path.text = r.path := by simpa [httpIsRequestPath] using hpath
        refine hr.mono fun resp' h => ⟨fun _ => h, fun hmissing => ?_⟩
        exact absurd (Or.inr (Or.inl heq)) hmissing
      · have heq : req.path.text = r.path := by simpa [httpIsRequestPath] using hpath
        refine (ih hrs true).mono fun resp' h => ⟨fun _ => h.1 (Or.inl rfl), fun hmissing => ?_⟩
        exact absurd (Or.inr (Or.inl heq)) hmissing

theorem handleRequest_renders (hplain : PlainTexts) : Prog.Ensures e CachedArrays (fun resp' =>
    (req.path.text ∈ routePaths → SendsComposed e resp resp') ∧
      (req.path.text ∉ routePaths → resp' = notFound req resp)) (handleRequest req resp) := by
  refine (dispatch_renders (routes_render hplain) false).mono fun resp' h => ?_
  rw [routes_path] at h
  simpa using h

/-- What the 404 page shows of the path. -/
def shownPath (req : HttpRequest) : Bytes := cstr (req.path.text.take urlBufferSize)

/-- The segments of the answer to a request, or to bytes that are none. -/
inductive Page (e : Env) : Option HttpRequest → List Segment → Prop
  | badRequest : Page e none [.fixed (bytes "<h1>400 Bad Request</h1>")]
  | composed {req : HttpRequest} {page : List Segment} : req.path.text ∈ routePaths →
      Composed e page → Page e (some req) page
  | notFound {req : HttpRequest} : req.path.text ∉ routePaths →
      Page e (some req) [.fixed (bytes "<h1>404 Not Found</h1><p><code>"), verbatim (shownPath req),
        .fixed (bytes "</code> does not exist.</p>")]

omit [Platform] in
theorem notFound_sent (req : HttpRequest) (resp : HttpResponse) : (notFound req resp).raw.sent =
    bytes "<h1>404 Not Found</h1><p><code>" ++ shownPath req ++
      bytes "</code> does not exist.</p>" := by
  have hplain : (0 : UInt8) ∉ bytes "<h1>404 Not Found</h1><p><code>" ∧
      (0 : UInt8) ∉ bytes "</code> does not exist.</p>" ∧
      (bytes "<h1>404 Not Found</h1><p><code>").length = 31 ∧
      (bytes "</code> does not exist.</p>").length = 27 := by decide
  obtain ⟨hzero₁, hzero₂, hlen₁, hlen₂⟩ := hplain
  have hshown : (shownPath req).length ≤ urlBufferSize :=
    (List.takeWhile_sublist _).length_le.trans (List.length_take_le _ _)
  refine @print_sent { resp with statusCode := 404 } _ (show 404 ≠ 302 by decide) ?_ ?_
  · rw [List.mem_append, List.mem_append, not_or, not_or]
    exact ⟨⟨hzero₁, zero_notMem_cstr _⟩, hzero₂⟩
  · show (bytes "<h1>404 Not Found</h1><p><code>" ++ shownPath req ++
      bytes "</code> does not exist.</p>").length < _
    rw [List.length_append, List.length_append, hlen₁, hlen₂]
    have hsize : urlBufferSize = 1024 ∧ responseBufferSize = 262144 := by decide
    omega

/-- The response to the bytes `raw` of a client that the limiter has let through or not. -/
def served (e : Env) (w : World) (buffer raw : Bytes) (allowed : Bool) : HttpResponse :=
  if !allowed then r429
  else match httpRequestParse raw with
    | none => bad400
    | some req => (handleRequest req (prepared buffer) e w).1

/-- It is what `serve_request` sends. -/
theorem serveRequest_served {ρ : Type} (rateLimitCheck : ρ → Bool × ρ) (o : Outcome) (raw : Bytes)
    (s : Loop (ρ × World)) : ∃ keepAlive,
      (serveRequest (appServices e rateLimitCheck) o raw s).client =
        sendResponse o (served e s.app.2 s.responseBuffer raw (rateLimitCheck s.app.1).1) keepAlive
          { s.client with reading := false, timer := false } := by
  unfold serveRequest served
  cases hallowed : (rateLimitCheck s.app.1).1 with
  | false => exact ⟨false, by simp [appServices, hallowed]⟩
  | true =>
      cases hparse : httpRequestParse raw with
      | none => exact ⟨false, by simp [appServices, hallowed]⟩
      | some req => exact ⟨httpRequestContainsKeepalive req, by simp [appServices, hallowed, prepared]⟩

/-- The 404 page is free of injections when nothing in the path that it shows needs an entity. -/
theorem noInjection_notFound_iff {page : List Segment} (hno : req.path.text ∉ routePaths)
    (h : Page e (some req) page) : NoInjection page ↔ ∀ c ∈ shownPath req, htmlEntity c = [c] := by
  cases h with
  | composed hpath => exact absurd hpath hno
  | notFound =>
      rw [← verbatim_clean_iff]
      constructor
      · exact fun h => h.escaped _ (List.mem_cons_of_mem _ List.mem_cons_self)
      · exact fun h => noInjection_of_clean (List.forall_mem_cons.mpr ⟨trivial,
          List.forall_mem_cons.mpr ⟨h, List.forall_mem_singleton.mpr trivial⟩⟩)

/-- **HTML injection.**  In every reachable state the body of an HTML answer is made of fixed text
and of escaped text, with all markup in the fixed text, if and only if the path is in the table or
what the 404 page shows of it needs no escaping. -/
theorem html_pages_iff (hplain : PlainTexts) {sessions : HashTable Session} {w : World}
    {log : List ((HttpRequest × HttpResponse) × HttpResponse)}
    (hrun : Run answer e (emptyWorld sessions) log w) {buffer raw : Bytes} {allowed : Bool}
    (hhtml : Html (served e w buffer raw allowed)) :
    (∃ page, Page e (httpRequestParse raw) page ∧
        pageText page = (served e w buffer raw allowed).raw.sent ∧ NoInjection page) ↔
      ∀ req ∈ httpRequestParse raw,
        req.path.text ∈ routePaths ∨ ∀ c ∈ shownPath req, htmlEntity c = [c] := by
  have hcache : CachedArrays w :=
    hrun.ensured (fun _ => handleRequest_renders hplain) (emptyWorld_cachedArrays sessions)
  unfold served at hhtml ⊢
  cases allowed with
  | false =>
      have hplain429 : r429.raw.type ≠ bytes "text/html; charset=utf-8" := by decide
      exact absurd hhtml hplain429
  | true =>
      cases hparse : httpRequestParse raw with
      | none =>
          refine iff_of_true ⟨_, .badRequest, rfl, ?_⟩ (by simp)
          exact noInjection_of_clean (List.forall_mem_singleton.mpr trivial)
      | some req =>
          rw [hparse] at hhtml
          obtain ⟨hfound, hmissing⟩ := (handleRequest_renders hplain w hcache).2
          by_cases hpath : req.path.text ∈ routePaths
          · obtain ⟨page, hpage, htext⟩ := hfound hpath rfl hhtml
            refine iff_of_true ⟨page, .composed hpath hpage, htext, ?_⟩ (by simpa using Or.inl hpath)
            exact noInjection_of_clean (hpage.clean hplain)
          · constructor
            · rintro ⟨page, hpage, -, hsafe⟩ x hx
              obtain rfl := Option.some.inj hx
              exact Or.inr ((noInjection_notFound_iff hpath hpage).mp hsafe)
            · intro hshown
              have hpage : Page e (some req) _ := .notFound hpath
              have hplainPath := (hshown req rfl).resolve_left hpath
              refine ⟨_, hpage, ?_, (noInjection_notFound_iff hpath hpage).mpr hplainPath⟩
              show _ = ((handleRequest req (prepared buffer) e w).1).raw.sent
              rw [hmissing hpath, notFound_sent]
              show bytes "<h1>404 Not Found</h1><p><code>" ++ ((verbatim (shownPath req)).text ++
                (bytes "</code> does not exist.</p>" ++ [])) = _
              rw [verbatim_text, List.append_nil, List.append_assoc]

end requests

end platform

/-! ### A path with a tag -/

theorem samplePlainTexts : @PlainTexts samplePlatform :=
  letI := samplePlatform
  { array := fun items max t h => by
      rw [samplePrints.sound items max t h]
      rfl
    number := fun (x : ℤ) c hc => by
      have hdigit : ∀ d : UInt8, isDigit d = true → isMarkup d = false := by
        intro d hd
        by_contra hno
        simp only [isMarkup, Bool.not_eq_false, Bool.or_eq_true, decide_eq_true_eq] at hno
        rcases hno with ((rfl | rfl) | rfl) | rfl <;> exact absurd hd (by decide)
      have hshow : ∀ n : ℕ, ∀ d ∈ showNat n, isMarkup d = false := fun n d hd =>
        hdigit d ((showNat_digits n).2 d hd)
      have hsign : ∀ d ∈ (if x < 0 then bytes "-" else []), isMarkup d = false := by
        split_ifs <;> decide
      have hmem : c ∈ sampleFixed6 x := hc
      unfold sampleFixed6 at hmem
      simp only [List.mem_append] at hmem
      rcases hmem with (((h | h) | h) | h) | h
      · exact hsign c h
      · exact hshow _ c h
      · rw [List.mem_singleton.mp h]
        rfl
      · rw [List.eq_of_mem_replicate h]
        rfl
      · exact hshow _ c h }

/-- A request for a page. -/
def getRaw (path : String) : Bytes := bytes "GET " ++ bytes path ++ bytes " HTTP/1.1\x0d\n\x0d\n"

def tagRequest : HttpRequest :=
  (httpRequestParse (getRaw "/<script>")).getD ⟨[], ⟨0, []⟩, ⟨0, []⟩, [], 0, none, 0⟩

theorem tagRequest_facts : httpRequestParse (getRaw "/<script>") = some tagRequest ∧
    tagRequest.path.text ∉ routePaths ∧ (60 : UInt8) ∈ shownPath tagRequest := by
  decide +kernel

/-- The tag in the path stands in the page as it was sent. -/
theorem path_injects :
    letI := samplePlatform
    Run answer sampleEnv (emptyWorld noSessions) [] (emptyWorld noSessions) ∧
    Html (served sampleEnv (emptyWorld noSessions) [] (getRaw "/<script>") true) ∧
    ¬ ∃ page, Page sampleEnv (httpRequestParse (getRaw "/<script>")) page ∧
      pageText page = (served sampleEnv (emptyWorld noSessions) [] (getRaw "/<script>")
        true).raw.sent ∧ NoInjection page := by
  refine ⟨.nil, by unfold Html; decide +kernel, ?_⟩
  rintro ⟨page, hpage, -, hsafe⟩
  obtain ⟨hparse, hpath, htag⟩ := tagRequest_facts
  rw [hparse] at hpage
  exact absurd ((@noInjection_notFound_iff samplePlatform _ _ _ hpath hpage).mp hsafe 60 htag)
    (by decide)

theorem html_pages_iff_missing :
    letI := samplePlatform
    Html (served townEnv listedRun.2 [] (getRaw "/missing") true) ∧
    ∃ page, Page townEnv (httpRequestParse (getRaw "/missing")) page ∧
      pageText page = (served townEnv listedRun.2 [] (getRaw "/missing") true).raw.sent ∧
        NoInjection page :=
  letI := samplePlatform
  have hhtml : Html (served townEnv listedRun.2 [] (getRaw "/missing") true) := by
    unfold Html
    decide +kernel
  have hshown : ∀ req ∈ httpRequestParse (getRaw "/missing"),
      req.path.text ∈ routePaths ∨ ∀ c ∈ shownPath req, htmlEntity c = [c] := by
    decide +kernel
  ⟨hhtml, (html_pages_iff samplePlainTexts run_listedRun hhtml).mpr hshown⟩

end Segnalacity
