import Segnalacity.Http.Render
import Segnalacity.Registration

/-! # The shared response buffer

Every response is built in one static buffer, over what earlier requests have left there.  A body
that a handler writes starts at its first byte and ends with a NUL, so nothing old is sent with it;
but a handler that writes none leaves the first byte as it was, and the content type is inferred
from that byte.  `independent_iff`: what is sent does not depend on the old contents exactly when the
request is not `Unwritten`. -/

namespace Segnalacity

open CStr StateProg Sql Http HashTable

/-! ### Responses over a buffer -/

/-- The response as `serve_request` prepares it. -/
def prepared (buffer : Bytes) : HttpResponse := ⟨200, none, buffer, 0, [], []⟩

/-- What `send_response` hands to libuv, unless rendering fails. -/
def sentBytes (keepAlive : Bool) (resp : HttpResponse) : Option Bytes :=
  httpResponseRender resp keepAlive (maxHeaderStrLen + resp.bodyLen)

/-- Whatever was in the buffer, it begins with one text, and only that is read. -/
def Overwrites (f : Bytes → HttpResponse) : Prop :=
  ∃ (r : HttpResponse) (text : Bytes), text ≠ [] ∧ r.bodyLen ≤ text.length ∧
    ∀ buffer, ∃ rest, f buffer = { r with body := text ++ rest }

/-- Two contents of the buffer show in what is sent. -/
def Leaks (f : Bytes → HttpResponse) : Prop :=
  ∀ keepAlive, ∃ b b', b.length = responseBufferSize ∧ b'.length = responseBufferSize ∧
    sentBytes keepAlive (f b) ≠ sentBytes keepAlive (f b')

/-- No two contents do. -/
def Independent (f : Bytes → HttpResponse) : Prop :=
  ∀ keepAlive b b', b.length = responseBufferSize → b'.length = responseBufferSize →
    sentBytes keepAlive (f b) = sentBytes keepAlive (f b')

/-- The responses leak in the stale case and only then. -/
def Answers (stale : Prop) (f : Bytes → HttpResponse) : Prop :=
  (¬ stale ∧ Independent f) ∨ (stale ∧ Leaks f)

theorem answers_congr {p q : Prop} (h : p ↔ q) : Answers p = Answers q := by
  rw [propext h]

theorem inferContentType_append {text : Bytes} (h : text ≠ []) (rest : Bytes)
    (override : Option Bytes) :
    inferContentType (text ++ rest) override = inferContentType text override := by
  unfold inferContentType
  rw [List.head?_append_of_ne_nil text h]

theorem Overwrites.independent {f : Bytes → HttpResponse} (h : Overwrites f) : Independent f := by
  intro keepAlive b b' _ _
  obtain ⟨r, text, hne, hlen, hf⟩ := h
  have heq : ∀ buffer, sentBytes keepAlive (f buffer) =
      sentBytes keepAlive { r with body := text } := by
    intro buffer
    obtain ⟨rest, hrest⟩ := hf buffer
    have htake : ∀ n ≤ r.bodyLen, (text ++ rest).take n = text.take n := fun n hn =>
      List.take_append_of_le_length (hn.trans hlen)
    rw [hrest]
    unfold sentBytes httpResponseRender
    simp only [inferContentType_append hne]
    by_cases h302 : r.statusCode = 302
    · simp only [if_pos h302, htake 0 (Nat.zero_le _)]
    · simp only [if_neg h302, htake r.bodyLen le_rfl]
  rw [heq b, heq b']

/-! ### Responses without a body -/

theorem inferContentType_length_le (body : Bytes) : (inferContentType body none).length ≤ 25 := by
  unfold inferContentType
  dsimp only
  split <;> decide

theorem optionalText_length_le (name value : Bytes) :
    (optionalText name value).length ≤ name.length + value.length + 4 := by
  unfold optionalText
  split_ifs
  · exact Nat.zero_le _
  · have hcolon : (bytes ": ").length = 2 := rfl
    have hcrlf : (bytes "\x0d\n").length = 2 := rfl
    rw [List.length_append, List.length_append, List.length_append, hcolon, hcrlf]
    omega

/-- The header section up to the content type. -/
def beforeType (r : HttpResponse) : Bytes :=
  bytes "HTTP/1.1 " ++ showSigned r.statusCode ++ bytes " " ++ httpStatusMsg r.statusCode ++
    bytes "\x0d\nContent-Type: "

/-- The header section behind the content type when there is no body. -/
def afterType (r : HttpResponse) (keepAlive : Bool) : Bytes :=
  bytes "\x0d\nContent-Length: " ++ showNat 0 ++ bytes "\x0d\nConnection: " ++
    (if keepAlive then bytes "keep-alive" else bytes "close") ++
    bytes "\x0d\nAccess-Control-Allow-Origin: *\x0d\n" ++
    optionalText (bytes "Set-Cookie") r.setCookie ++
    optionalText (bytes "Location") r.location ++ bytes "\x0d\n"

theorem beforeType_length_le {r : HttpResponse} (h : r.statusCode = 200 ∨ r.statusCode = 302) :
    (beforeType r).length ≤ 60 := by
  unfold beforeType
  rcases h with h | h
  · rw [h]
    decide
  · rw [h]
    decide

theorem afterType_length_le (r : HttpResponse) (keepAlive : Bool) :
    (afterType r keepAlive).length ≤ 128 + r.setCookie.length + r.location.length := by
  have hfixed : (bytes "\x0d\nContent-Length: " ++ showNat 0 ++ bytes "\x0d\nConnection: " ++
      (if keepAlive then bytes "keep-alive" else bytes "close") ++
      bytes "\x0d\nAccess-Control-Allow-Origin: *\x0d\n").length ≤ 100 := by
    cases keepAlive <;> decide
  have hcookie : (optionalText (bytes "Set-Cookie") r.setCookie).length ≤
      10 + r.setCookie.length + 4 := optionalText_length_le _ _
  have hlocation : (optionalText (bytes "Location") r.location).length ≤
      8 + r.location.length + 4 := optionalText_length_le _ _
  have hcrlf : (bytes "\x0d\n").length = 2 := rfl
  unfold afterType
  rw [List.length_append, List.length_append, List.length_append, hcrlf]
  omega

/-- A response that has no body of its own over a buffer. -/
structure Bodiless (r : HttpResponse) : Prop where
  status : r.statusCode = 200 ∨ r.statusCode = 302
  type : r.contentType = none
  len : r.bodyLen = 0
  cookie : r.setCookie.length ≤ 128
  location : r.location.length ≤ 16

theorem Bodiless.sentBytes_eq {r : HttpResponse} (h : Bodiless r) (keepAlive : Bool)
    (body : Bytes) : sentBytes keepAlive { r with body := body } =
      some (beforeType r ++ (inferContentType body none ++ afterType r keepAlive)) := by
  have hzero : ({ r with body := body } : HttpResponse).raw.sentLen = 0 := by
    unfold RawResponse.sentLen HttpResponse.raw
    rw [h.len, ite_self]
  have hbody : ({ r with body := body } : HttpResponse).raw.sent = [] := by
    unfold RawResponse.sent
    rw [hzero, List.take_zero]
  have htype : ({ r with body := body } : HttpResponse).raw.type = inferContentType body none := by
    rw [← h.type]
    rfl
  have hheader : headerText { r with body := body }.raw keepAlive =
      beforeType r ++ (inferContentType body none ++ afterType r keepAlive) := by
    unfold headerText statusText beforeType afterType
    rw [hzero, htype]
    simp only [List.append_assoc]
    rfl
  have hlength : (beforeType r ++ (inferContentType body none ++ afterType r keepAlive)).length <
      maxHeaderStrLen + ({ r with body := body } : HttpResponse).bodyLen := by
    have hbefore := beforeType_length_le h.status
    have hct := inferContentType_length_le body
    have hafter := afterType_length_le r keepAlive
    have hcookie := h.cookie
    have hlocation := h.location
    show _ < 512 + r.bodyLen
    rw [List.length_append, List.length_append]
    omega
  unfold sentBytes
  rw [httpResponseRender_raw, hheader, hzero, hbody, List.append_nil, if_pos ⟨hlength, hlength.le⟩]

/-- Two buffers of different types show in what is sent. -/
theorem Bodiless.sentBytes_ne {r : HttpResponse} (h : Bodiless r) {body body' : Bytes}
    (hne : inferContentType body none ≠ inferContentType body' none) (keepAlive : Bool) :
    sentBytes keepAlive { r with body := body } ≠ sentBytes keepAlive { r with body := body' } := by
  rw [h.sentBytes_eq, h.sentBytes_eq]
  intro heq
  exact hne (List.append_cancel_right (List.append_cancel_left (Option.some.inj heq)))

/-- The buffer after an HTML page and after a JSON text. -/
def oldPage : Bytes := 60 :: List.replicate (responseBufferSize - 1) 0

def oldJson : Bytes := 123 :: List.replicate (responseBufferSize - 1) 0

theorem oldPage_length : oldPage.length = responseBufferSize := by
  rw [oldPage, List.length_cons, List.length_replicate]
  rfl

theorem oldJson_length : oldJson.length = responseBufferSize := by
  rw [oldJson, List.length_cons, List.length_replicate]
  rfl

/-- A response that leaves the buffer as it was. -/
theorem Bodiless.leaks {r : HttpResponse} (h : Bodiless r) :
    Leaks fun buffer => { r with body := buffer } := by
  intro keepAlive
  exact ⟨oldPage, oldJson, oldPage_length, oldJson_length, h.sentBytes_ne (by decide) keepAlive⟩

/-- A redirect sends the address only. -/
theorem redirect_leaks {url : Bytes} {cookie : Option Bytes} (hurl : url.length ≤ 16)
    (hcookie : ∀ c ∈ cookie, c.length ≤ 128) :
    Leaks fun buffer => redirect (prepared buffer) url cookie := by
  let r : HttpResponse := redirect (prepared []) url cookie
  have hr : Bodiless r := by
    refine ⟨Or.inr rfl, rfl, rfl, ?_, (List.length_take_le' _ _).trans hurl⟩
    cases cookie with
    | none => exact Nat.zero_le _
    | some c => exact (List.length_take_le' _ _).trans (hcookie c rfl)
  exact hr.leaks

/-! ### Responses with a body -/

theorem overwrites_of_overlay {r : HttpResponse} {t : Bytes} (hne : t ≠ [])
    (hlen : r.bodyLen ≤ t.length) : Overwrites fun buffer => { r with body := overlay t buffer } :=
  ⟨r, t, hne, hlen, fun buffer => ⟨buffer.drop t.length, rfl⟩⟩

/-- `snprintf` into the buffer. -/
theorem print_overwrites (r : HttpResponse) (text : Bytes) :
    Overwrites fun buffer => HttpResponse.print { r with body := buffer } text := by
  refine overwrites_of_overlay (t := snprintf responseBufferSize text ++ [0])
    (r := { r with bodyLen := (cstr (snprintf responseBufferSize text)).length })
    (List.append_ne_nil_of_right_ne_nil _ (List.cons_ne_nil _ _)) ?_
  rw [List.length_append]
  exact (List.takeWhile_sublist _).length_le.trans (Nat.le_add_right _ _)

theorem respJsonError_overwrites (status : ℕ) (msg : Bytes) :
    Overwrites fun buffer => respJsonError (prepared buffer) status msg :=
  print_overwrites ⟨status, none, [], 0, [], []⟩ _

theorem respHtmlError_overwrites (status : ℕ) (msg : Bytes) :
    Overwrites fun buffer => respHtmlError (prepared buffer) status msg :=
  print_overwrites ⟨status, none, [], 0, [], []⟩ _

theorem respWrite_overwrites (rc : ℤ) (status : ℕ) (msg : Bytes) :
    Overwrites fun buffer => respWrite (prepared buffer) rc status msg := by
  unfold respWrite
  split_ifs
  · exact respJsonError_overwrites status msg
  · exact respJsonError_overwrites 500 _
  · exact print_overwrites ⟨200, none, [], 0, [], []⟩ _

/-- `tpl_render` into the buffer; nothing is sent of a text that does not fit. -/
theorem tplRender_overwrites (tpl : Template) (vars : List TplVar) (contentType : Option Bytes) :
    Overwrites fun buffer =>
      let (n, body) := tplRender tpl buffer responseBufferSize vars
      { prepared buffer with
        statusCode := 200, contentType := contentType, body := body, bodyLen := n.toNat } := by
  unfold tplRender
  generalize renderFragments tpl responseBufferSize vars [] tpl.fragments = rendered
  obtain ⟨written, fits⟩ := rendered
  refine overwrites_of_overlay (r := ⟨200, contentType, [], (if fits then (written.length : ℤ)
    else -1).toNat, [], []⟩) (List.append_ne_nil_of_right_ne_nil written (List.cons_ne_nil 0 [])) ?_
  rw [List.length_append]
  cases fits
  · exact Nat.zero_le _
  · exact Nat.le_add_right _ _

section platform

variable [Platform]

section pages
variable {e : Env} {w : World}

theorem respRenderTpl_overwrites (name : Bytes) (vars : List TplVar) :
    Prog.Uniform Overwrites (fun buffer => respRenderTpl (prepared buffer) name vars) e w := by
  cases htpl : tplGet name e w with
  | mk tpl w₁ =>
      refine Prog.uniform_after htpl ?_
      cases tpl with
      | none => exact Prog.uniform_pure (respHtmlError_overwrites 500 _)
      | some tpl => exact Prog.uniform_pure (tplRender_overwrites tpl vars none)

theorem submitPage_overwrites (u : User) (errorBlock : Bytes) :
    Prog.Uniform Overwrites (fun buffer => submitPage (prepared buffer) u errorBlock) e w := by
  cases hmap : buildMapVars u.city e w with
  | mk mv w₁ => exact Prog.uniform_after hmap (respRenderTpl_overwrites _ _)

theorem serveTpl_overwrites (path contentType : Bytes) {m : HttpResponse → HttpResponse}
    (hmissing : Overwrites fun buffer => m (prepared buffer)) :
    Prog.Uniform Overwrites
      (fun buffer => serveTpl (prepared buffer) path contentType (m (prepared buffer))) e w := by
  cases htpl : tplGet path e w with
  | mk tpl w₁ =>
      refine Prog.uniform_after htpl ?_
      cases tpl with
      | none => exact Prog.uniform_pure hmissing
      | some tpl => exact Prog.uniform_pure (tplRender_overwrites tpl [] (some contentType))

/-! ### Who asks -/

/-- The request has a live session. -/
def HasSession (req : HttpRequest) (e : Env) (w : World) : Prop :=
  (getSessionUser req e w).1.isSome = true

/-- Nobody is logged in, or somebody who is not a citizen. -/
def NotCitizen (req : HttpRequest) (e : Env) (w : World) : Prop :=
  ∀ u ∈ (getSessionUser req e w).1, (userIsOperator u || userIsAdmin u) = true

/-- The credentials are right and a session is stored. -/
def LogsIn (req : HttpRequest) (e : Env) (w : World) : Prop :=
  ∃ u w₁ token w₂, userAuthenticate (formUsername req) (formPassword req) e w = (some u, w₁) ∧
    sessionCreate u e w₁ = (some token, w₂)

/-- The form is accepted and its row is inserted. -/
def Enrols (req : HttpRequest) (e : Env) (w : World) : Prop :=
  Accepted e req ∧ (formRole req = .admin →
      (userRegisterAdmin (formUsername req) (formPassword req) (formCity req) e w).1 = 0) ∧
    (formRole req ≠ .admin →
      (userRegister (formUsername req) (formPassword req) (formCity req) (formRole req) e w).1 = 0)

def formDescription (req : HttpRequest) : Bytes :=
  getField req.bodyPtr (bytes "description=") descLen

def formCategory (req : HttpRequest) : Bytes :=
  let category := getField req.bodyPtr (bytes "category=") catLen
  if category = [] then bytes "Altro" else category

def formLat (req : HttpRequest) : Double :=
  coordinate (getField req.bodyPtr (bytes "lat=") coordinateStrLen)

def formLon (req : HttpRequest) : Double :=
  coordinate (getField req.bodyPtr (bytes "lon=") coordinateStrLen)

/-- The report that a citizen sends is stored. -/
def Submits (req : HttpRequest) (e : Env) (w : World) : Prop :=
  ∃ u w₁ rid w₂, getSessionUser req e w = (some u, w₁) ∧ formDescription req ≠ [] ∧
    ¬ (geoLookup u.city e w₁).1.any (fun g => !geoContains g (formLat req) (formLon req)) = true ∧
    reportInsert u.userId (formLat req) (formLon req) u.city (formCategory req)
      (formDescription req) e w₁ = (rid, w₂) ∧ rid ≠ 0

/-- The list of operators cannot be built, or it cannot be printed and the buffer shows in what the
printer has left there. -/
def OperatorsFail (req : HttpRequest) (e : Env) (w : World) : Prop :=
  ∃ u w₁ rows w₂ root w₃ items w₄, sessionUserWith userIsAdmin req e w = (some u, w₁) ∧
    dbCursorOpen (selectOperators u.city) e w₁ = (some rows, w₂) ∧ jsonCreate e w₂ = (root, w₃) ∧
    drainRows operatorItem rows e w₃ = (items, w₄) ∧
    (root = false ∨ root = true ∧ Platform.printPreallocated items responseBufferSize = none ∧
      ∃ b b', b.length = responseBufferSize ∧ b'.length = responseBufferSize ∧
        inferContentType (Platform.printResidue items responseBufferSize b) none ≠
          inferContentType (Platform.printResidue items responseBufferSize b') none)

section handlers
variable {req : HttpRequest}

/-- A page in any case. -/
theorem answers_of_overwrites {stale : Prop} {m : Bytes → App HttpResponse} (hno : ¬ stale)
    (h : Prog.Uniform Overwrites m e w) : Prog.Uniform (Answers stale) m e w :=
  h.mono fun _ hf => Or.inl ⟨hno, hf.independent⟩

theorem answers_redirect {stale : Prop} (hstale : stale) {url : Bytes} {cookie : Option Bytes}
    (hurl : url.length ≤ 16) (hcookie : ∀ c ∈ cookie, c.length ≤ 128) :
    Prog.Uniform (Answers stale)
      (fun buffer => (pure (redirect (prepared buffer) url cookie) : App HttpResponse)) e w :=
  Prog.uniform_pure (Or.inr ⟨hstale, redirect_leaks hurl hcookie⟩)

theorem routeGetRoot_answers : Prog.Uniform (Answers (HasSession req e w))
    (fun buffer => routeGetRoot req (prepared buffer)) e w := by
  cases hu : getSessionUser req e w with
  | mk u w₁ =>
      refine Prog.uniform_after hu ?_
      unfold HasSession
      rw [hu]
      cases u with
      | none => exact answers_of_overwrites Bool.false_ne_true (respRenderTpl_overwrites _ _)
      | some u => exact answers_redirect rfl (by decide) (by simp)

theorem routeGetHome_answers : Prog.Uniform (Answers (¬ HasSession req e w))
    (fun buffer => routeGetHome req (prepared buffer)) e w := by
  cases hu : getSessionUser req e w with
  | mk u w₁ =>
      refine Prog.uniform_after hu ?_
      unfold HasSession
      rw [hu]
      cases u with
      | none => exact answers_redirect Bool.false_ne_true (by decide) (by simp)
      | some u =>
          cases hmap : buildMapVars u.city e w₁ with
          | mk mv w₂ =>
              refine Prog.uniform_after hmap ?_
              exact answers_of_overwrites (not_not.mpr rfl) (respRenderTpl_overwrites _ _)

theorem routeGetSubmit_answers : Prog.Uniform (Answers (NotCitizen req e w))
    (fun buffer => routeGetSubmit req (prepared buffer)) e w := by
  cases hu : getSessionUser req e w with
  | mk u w₁ =>
      refine Prog.uniform_after hu ?_
      unfold NotCitizen
      rw [hu]
      cases u with
      | none => exact answers_redirect (by simp) (by decide) (by simp)
      | some u =>
          refine Prog.uniform_ite (fun hrole => ?_) fun hrole => ?_
          · exact answers_redirect (by simpa using hrole) (by decide) (by simp)
          · exact answers_of_overwrites (by simpa using hrole) (submitPage_overwrites _ _)

theorem routeGetLogout_answers : Prog.Uniform (Answers True)
    (fun buffer => routeGetLogout req (prepared buffer)) e w := by
  have hcookie : ∀ c ∈ some (snprintf cookieMax (sessionCookieName ++
      bytes "=; Path=/; HttpOnly; Max-Age=0; SameSite=Lax")), c.length ≤ 128 := by
    rintro c ⟨⟩
    decide
  refine Prog.uniform_ite (fun _ => ?_) fun _ => ?_
  · exact Prog.uniform_after rfl (answers_redirect trivial (by decide) hcookie)
  · exact answers_redirect trivial (by decide) hcookie

/-! ### Forms -/

theorem freshToken_hexString {tries : ℕ} {t : Bytes} {w' : World}
    (h : freshToken tries e w = (some t, w')) : ∃ f, t = hexString f := by
  induction tries generalizing w with
  | zero => cases (Prog.pure_run_iff.mp h).1
  | succ tries ih =>
      obtain ⟨token, w₁, h₁, h₂⟩ := Prog.bind_run_iff.mp h
      obtain ⟨rfl, -⟩ := generateToken_run h₁
      obtain ⟨dummy, w₂, -, h₃⟩ := Prog.bind_run_iff.mp h₂
      rcases Prog.ite_run_iff.mp h₃ with ⟨-, h₄⟩ | ⟨-, h₄⟩
      · exact ⟨_, Option.some.inj (Prog.pure_run_iff.mp h₄).1⟩
      · exact ih h₄

theorem sessionCreate_length {u : User} {t : Bytes} {w' : World}
    (h : sessionCreate u e w = (some t, w')) : t.length = 32 := by
  obtain ⟨token, w₁, h₁, h₂⟩ := Prog.bind_run_iff.mp h
  cases token with
  | none => cases (Prog.pure_run_iff.mp h₂).1
  | some token =>
      obtain ⟨f, rfl⟩ := freshToken_hexString h₁
      obtain ⟨c, w₂, -, h₃⟩ := Prog.bind_run_iff.mp h₂
      obtain ⟨m, w₃, -, h₄⟩ := Prog.bind_run_iff.mp h₃
      obtain ⟨ok, w₄, -, h₅⟩ := Prog.bind_run_iff.mp h₄
      obtain ⟨_, w₅, -, h₆⟩ := Prog.bind_run_iff.mp h₅
      rcases Prog.ite_run_iff.mp h₆ with ⟨-, h₇⟩ | ⟨-, h₇⟩
      · rw [Option.some.inj (Prog.pure_run_iff.mp h₇).1, hexString_length]
      · cases (Prog.pure_run_iff.mp h₇).1

theorem routePostLogin_answers : Prog.Uniform (Answers (LogsIn req e w))
    (fun buffer => routePostLogin req (prepared buffer)) e w := by
  cases hu : userAuthenticate (formUsername req) (formPassword req) e w with
  | mk u w₁ =>
      refine Prog.uniform_after hu ?_
      cases u with
      | none =>
          refine answers_of_overwrites ?_ (respRenderTpl_overwrites _ _)
          rintro ⟨u, w₂, token, w₃, hu', -⟩
          rw [hu] at hu'
          cases hu'
      | some u =>
          cases hs : sessionCreate u e w₁ with
          | mk token w₂ =>
              refine Prog.uniform_after hs ?_
              cases token with
              | none =>
                  refine answers_of_overwrites ?_ (respRenderTpl_overwrites _ _)
                  rintro ⟨u', w₁', token, w₂', hu', hs'⟩
                  rw [hu] at hu'
                  cases hu'
                  rw [hs] at hs'
                  cases hs'
              | some token =>
                  refine answers_redirect ⟨u, w₁, token, w₂, hu, hs⟩ (by decide) ?_
                  rintro c ⟨⟩
                  refine (List.length_take_le' _ _).trans ?_
                  have hattributes : (bytes "; Path=/; HttpOnly; Max-Age=").length = 28 ∧
                      (showNat sessionMaxAge).length = 5 ∧
                      (bytes "; SameSite=Lax").length = 14 ∧
                      (sessionCookieName ++ bytes "=").length = 4 := by decide
                  simp only [List.length_append, hattributes, sessionCreate_length hs]
                  have hname := hattributes.2.2.2
                  rw [List.length_append] at hname
                  omega

theorem routePostRegister_answers : Prog.Uniform (Answers (Enrols req e w))
    (fun buffer => routePostRegister req (prepared buffer)) e w := by
  have hpage : ∀ {msg : Bytes}, ¬ Enrols req e w → ∀ {w₁ : World}, Prog.Uniform
      (Answers (Enrols req e w)) (fun buffer => registerError (prepared buffer) msg) e w₁ :=
    fun hno => answers_of_overwrites hno (respRenderTpl_overwrites _ _)
  refine Prog.uniform_ite (fun hempty => hpage fun h => h.1.filled hempty) fun hfilled => ?_
  refine Prog.uniform_ite (fun hshort => hpage fun h => ?_) fun hlong => ?_
  · exact absurd h.1.password.2 (not_le.mpr hshort)
  refine Prog.uniform_after (show geoLookup (formCity req) e w = (_, w) from rfl) ?_
  refine Prog.uniform_ite (fun hunknown => hpage fun h => h.1.not_isNone hunknown) fun hknown => ?_
  have hform : Accepted e req := accepted_of_checks hfilled hlong hknown
  refine Prog.uniform_ite (fun hadmin => ?_) fun hother => ?_
  · cases hrc : userRegisterAdmin (formUsername req) (formPassword req) (formCity req) e w with
    | mk rc w₁ =>
        have hzero : Enrols req e w → rc = 0 := fun h => by
          rw [← h.2.1 hadmin, hrc]
        refine Prog.uniform_after hrc ?_
        refine Prog.uniform_ite (fun htaken => hpage fun h => ?_) fun _ => ?_
        · rw [hzero h] at htaken
          exact absurd htaken (by decide)
        refine Prog.uniform_ite (fun hfailed => hpage fun h => hfailed (hzero h)) fun hok => ?_
        refine answers_redirect ⟨hform, fun _ => ?_, fun h => absurd hadmin h⟩ (by decide) (by simp)
        rw [hrc]
        exact not_not.mp hok
  · cases hrc : userRegister (formUsername req) (formPassword req) (formCity req) (formRole req)
        e w with
    | mk rc w₁ =>
        have hzero : Enrols req e w → rc = 0 := fun h => by
          rw [← h.2.2 hother, hrc]
        refine Prog.uniform_after hrc ?_
        refine Prog.uniform_ite (fun hfailed => hpage fun h => hfailed (hzero h)) fun hok => ?_
        refine answers_redirect ⟨hform, fun h => absurd h hother, fun _ => ?_⟩ (by decide) (by simp)
        rw [hrc]
        exact not_not.mp hok

theorem routePostSubmit_answers : Prog.Uniform (Answers (NotCitizen req e w ∨ Submits req e w))
    (fun buffer => routePostSubmit req (prepared buffer)) e w := by
  cases hu : getSessionUser req e w with
  | mk u w₁ =>
      refine Prog.uniform_after hu ?_
      cases u with
      | none =>
          refine answers_redirect (Or.inl ?_) (by decide) (by simp)
          unfold NotCitizen
          rw [hu]
          simp
      | some u =>
          refine Prog.uniform_ite (fun hrole => ?_) fun hrole => ?_
          · refine answers_redirect (Or.inl ?_) (by decide) (by simp)
            unfold NotCitizen
            rw [hu]
            simpa using hrole
          have hstale : NotCitizen req e w ∨ Submits req e w → Submits req e w := by
            refine fun h => h.resolve_left fun hno => hrole (hno u ?_)
            rw [hu]
            rfl
          have huser : ∀ {u' : User} {w' : World}, getSessionUser req e w = (some u', w') →
              u' = u ∧ w' = w₁ := by
            intro u' w' h
            rw [hu] at h
            cases h
            exact ⟨rfl, rfl⟩
          have hpage : ∀ {msg : Bytes}, ¬ Submits req e w → ∀ {w₂ : World}, Prog.Uniform
              (Answers (NotCitizen req e w ∨ Submits req e w))
              (fun buffer => submitError (prepared buffer) u msg) e w₂ :=
            fun hno => answers_of_overwrites (fun h => hno (hstale h)) (submitPage_overwrites _ _)
          refine Prog.uniform_ite (fun hempty => hpage ?_) fun hfilled => ?_
          · rintro ⟨_, _, _, _, -, hdesc, -⟩
            exact hdesc hempty
          refine Prog.uniform_after (show geoLookup u.city e w₁ = (_, w₁) from rfl) ?_
          refine Prog.uniform_ite (fun houtside => hpage ?_) fun hinside => ?_
          · rintro ⟨_, _, _, _, hu', -, hgeo, -⟩
            obtain ⟨rfl, rfl⟩ := huser hu'
            exact hgeo houtside
          cases hrid : reportInsert u.userId (formLat req) (formLon req) u.city (formCategory req)
              (formDescription req) e w₁ with
          | mk rid w₂ =>
              refine Prog.uniform_after hrid ?_
              refine Prog.uniform_ite (fun hfailed => hpage ?_) fun hok => ?_
              · rintro ⟨_, _, _, _, hu', -, -, hrid', hne⟩
                obtain ⟨rfl, rfl⟩ := huser hu'
                rw [hrid] at hrid'
                cases hrid'
                exact hne hfailed
              · exact answers_redirect (Or.inr ⟨u, w₁, rid, w₂, hu, hfilled, hinside, hrid, hok⟩)
                  (by decide) (by simp)

/-! ### Lists -/

/-- A list that writes one text at the start of the buffer, whatever was there. -/
def Fills (g : Bytes → ℕ × Bytes) : Prop :=
  ∃ n text, text ≠ [] ∧ n ≤ text.length ∧ ∀ buffer, ∃ rest, g buffer = (n, text ++ rest)

omit [Platform] in
theorem Fills.overwrites {g : Bytes → ℕ × Bytes} (h : Fills g) :
    Overwrites fun buffer => respList (prepared buffer) (g buffer) := by
  obtain ⟨n, text, hne, hlen, hg⟩ := h
  refine ⟨⟨200, none, [], n, [], []⟩, text, hne, hlen, fun buffer => ?_⟩
  obtain ⟨rest, hrest⟩ := hg buffer
  refine ⟨rest, ?_⟩
  show respList (prepared buffer) (g buffer) = _
  rw [hrest]
  rfl

omit [Platform] in
theorem fills_overlay {n : ℕ} {text : Bytes} (hne : text ≠ []) (hlen : n ≤ text.length) :
    Fills fun buffer => (n, overlay text buffer) :=
  ⟨n, text, hne, hlen, fun buffer => ⟨buffer.drop text.length, rfl⟩⟩

omit [Platform] in
theorem fills_text (text : Bytes) : Fills fun buffer => (text.length, overlay (text ++ [0]) buffer) := by
  refine fills_overlay (List.append_ne_nil_of_right_ne_nil text (List.cons_ne_nil 0 [])) ?_
  rw [List.length_append]
  exact Nat.le_add_right _ _

omit [Platform] in
theorem fills_empty (residue : Bytes → Bytes) : Fills fun buffer => (0, overlay [0] (residue buffer)) :=
  ⟨0, [0], List.cons_ne_nil 0 [], Nat.zero_le _, fun buffer => ⟨(residue buffer).drop 1, rfl⟩⟩

theorem printArray_fills (items : List (JsonObject Double)) (max : ℕ) :
    Fills fun buffer => printArray items buffer max := by
  unfold printArray
  cases Platform.printPreallocated items max with
  | none => exact fills_empty _
  | some text => exact fills_text text

theorem cursorToJsonArray_fills (c : Option (List ReportRow)) (max : ℕ) :
    Prog.Uniform Fills (fun buffer => cursorToJsonArray c buffer max) e w := by
  refine Prog.uniform_after (show jsonCreate e w = (_, _) from rfl) ?_
  refine Prog.uniform_ite (fun _ => Prog.uniform_pure (fills_empty id)) fun _ => ?_
  exact Prog.uniform_after rfl (Prog.uniform_pure (printArray_fills _ max))

theorem cachedList_fills (query : UInt64 → Bool → Database → List ReportRow) (isArchived : Bool)
    (max : ℕ) (userId : UInt64) (city : Bytes) (isOperator : Bool) :
    Prog.Uniform Fills
      (fun buffer => cachedList query isArchived buffer max userId city isOperator) e w := by
  refine Prog.uniform_after (show now e w = (_, _) from rfl) ?_
  refine Prog.uniform_after rfl ?_
  refine Prog.uniform_after rfl ?_
  split
  · exact Prog.uniform_pure (fills_text _)
  · refine Prog.uniform_after (show dbCursorOpen (query userId isOperator) e _ = (_, _) from rfl) ?_
    refine (cursorToJsonArray_fills _ max).bind fun g w₁ hg => ?_
    obtain ⟨n, text, hne, hlen, hrest⟩ := hg
    have hn : ∀ buffer, (g buffer).1 = n := fun buffer => by
      obtain ⟨rest, h⟩ := hrest buffer
      rw [h]
    have htake : ∀ buffer, (g buffer).2.take n = text.take n := fun buffer => by
      obtain ⟨rest, h⟩ := hrest buffer
      rw [h, List.take_append_of_le_length hlen]
    -- the slot gets what has been printed, not what was there before
    simp only [hn, htake]
    refine Prog.uniform_ite (fun _ => ?_) fun _ => ?_
    · exact Prog.uniform_after rfl (Prog.uniform_pure ⟨n, text, hne, hlen, hrest⟩)
    · exact Prog.uniform_pure ⟨n, text, hne, hlen, hrest⟩

theorem reportGetAllCityJson_fills (city : Bytes) : Prog.Uniform Fills
    (fun buffer => reportGetAllCityJson buffer responseBufferSize city) e w := by
  refine Prog.uniform_after (show dbCursorOpen (selectAllCity city) e w = (_, _) from rfl) ?_
  split
  · simp only [show responseBufferSize > 2 by decide, if_true]
    exact Prog.uniform_pure (fills_overlay (by decide) (Nat.zero_le _))
  · refine Prog.uniform_after (show jsonCreate e _ = (_, _) from rfl) ?_
    refine Prog.uniform_ite (fun _ => Prog.uniform_pure (fills_empty id)) fun _ => ?_
    exact Prog.uniform_after rfl (Prog.uniform_pure (printArray_fills _ _))

theorem routeApiCities_answers : Prog.Uniform (Answers False)
    (fun buffer => routeApiCities req (prepared buffer)) e w :=
  answers_of_overwrites id
    (serveTpl_overwrites (m := fun resp => respJsonError resp 404 (bytes "cities not found"))
      _ _ (respJsonError_overwrites 404 _))

theorem cachedRoute_answers (isArchived : Bool) : Prog.Uniform (Answers False)
    (fun buffer => (getSessionUser req >>= fun u => match u with
      | none => pure (respJsonError (prepared buffer) 401 (bytes "unauthorized"))
      | some u => do
          let r ← cachedList (listQuery isArchived) isArchived buffer responseBufferSize u.userId
            u.city (userIsOperator u)
          pure (respList (prepared buffer) r) : App HttpResponse)) e w := by
  refine answers_of_overwrites id ?_
  cases hu : getSessionUser req e w with
  | mk u w₁ =>
      refine Prog.uniform_after hu ?_
      cases u with
      | none => exact Prog.uniform_pure (respJsonError_overwrites 401 _)
      | some u =>
          exact (cachedList_fills _ _ _ _ _ _).bind fun g w₂ hg => Prog.uniform_pure hg.overwrites

theorem routeApiReportsAll_answers : Prog.Uniform (Answers False)
    (fun buffer => routeApiReportsAll req (prepared buffer)) e w := by
  refine answers_of_overwrites id ?_
  cases hu : sessionUserWith userIsAdmin req e w with
  | mk u w₁ =>
      refine Prog.uniform_after hu ?_
      cases u with
      | none => exact Prog.uniform_pure (respJsonError_overwrites 403 _)
      | some u =>
          exact (reportGetAllCityJson_fills u.city).bind fun g w₂ hg =>
            Prog.uniform_pure hg.overwrites

/-- The list of operators over what a failed print has left. -/
theorem residue_answers {items : List (JsonObject Double)} {stale : Prop}
    (hstale : stale ↔ ∃ b b', b.length = responseBufferSize ∧ b'.length = responseBufferSize ∧
      inferContentType (Platform.printResidue items responseBufferSize b) none ≠
        inferContentType (Platform.printResidue items responseBufferSize b') none) :
    Answers stale fun buffer => respList (prepared buffer)
      (0, Platform.printResidue items responseBufferSize buffer) := by
  have hr : Bodiless ⟨200, none, [], 0, [], []⟩ :=
    ⟨Or.inl rfl, rfl, rfl, Nat.zero_le _, Nat.zero_le _⟩
  by_cases hshows : stale
  · obtain ⟨b, b', hb, hb', hne⟩ := hstale.mp hshows
    exact Or.inr ⟨hshows, fun keepAlive => ⟨b, b', hb, hb', hr.sentBytes_ne hne keepAlive⟩⟩
  · refine Or.inl ⟨hshows, fun keepAlive b b' hb hb' => ?_⟩
    have hsame : inferContentType (Platform.printResidue items responseBufferSize b) none =
        inferContentType (Platform.printResidue items responseBufferSize b') none := by
      by_contra hne
      exact hshows (hstale.mpr ⟨b, b', hb, hb', hne⟩)
    have hsent := hr.sentBytes_eq keepAlive (Platform.printResidue items responseBufferSize b)
    rw [hsame, ← hr.sentBytes_eq keepAlive (Platform.printResidue items responseBufferSize b')] at hsent
    exact hsent

/-- What `user_get_operators_json` returns once its rows have been read. -/
def operatorsText (root : Bool) (items : List (JsonObject Double)) (buffer : Bytes) : ℕ × Bytes :=
  if !root then (0, buffer)
  else match Platform.printPreallocated items responseBufferSize with
    | none => (0, Platform.printResidue items responseBufferSize buffer)
    | some text => (text.length, overlay (text ++ [0]) buffer)

theorem userGetOperatorsJson_uniform {city : Bytes} {rows : List UserRow} {root : Bool}
    {items : List (JsonObject Double)} {w₁ w₂ w₃ : World}
    (hc : dbCursorOpen (selectOperators city) e w = (some rows, w₁))
    (hroot : jsonCreate e w₁ = (root, w₂)) (hitems : drainRows operatorItem rows e w₂ = (items, w₃)) :
    Prog.Uniform (fun g => g = operatorsText root items)
      (fun buffer => userGetOperatorsJson buffer responseBufferSize city) e w := by
  refine Prog.uniform_after hc (Prog.uniform_after hroot (Prog.uniform_after hitems ?_))
  unfold operatorsText
  cases root with
  | false => exact Prog.uniform_pure rfl
  | true =>
      cases Platform.printPreallocated items responseBufferSize with
      | none => exact Prog.uniform_pure rfl
      | some text => exact Prog.uniform_pure rfl

theorem operatorsFail_iff {u : User} {rows : List UserRow} {root : Bool}
    {items : List (JsonObject Double)} {w₁ w₂ w₃ w₄ : World}
    (hu : sessionUserWith userIsAdmin req e w = (some u, w₁))
    (hc : dbCursorOpen (selectOperators u.city) e w₁ = (some rows, w₂))
    (hroot : jsonCreate e w₂ = (root, w₃)) (hitems : drainRows operatorItem rows e w₃ = (items, w₄)) :
    OperatorsFail req e w ↔
      (root = false ∨ root = true ∧ Platform.printPreallocated items responseBufferSize = none ∧
        ∃ b b', b.length = responseBufferSize ∧ b'.length = responseBufferSize ∧
          inferContentType (Platform.printResidue items responseBufferSize b) none ≠
            inferContentType (Platform.printResidue items responseBufferSize b') none) := by
  constructor
  · rintro ⟨u', w₁', rows', w₂', root', w₃', items', w₄', hu', hc', hroot', hitems', h⟩
    rw [hu] at hu'
    cases hu'
    rw [hc] at hc'
    cases hc'
    rw [hroot] at hroot'
    cases hroot'
    rw [hitems] at hitems'
    cases hitems'
    exact h
  · exact fun h => ⟨u, w₁, rows, w₂, root, w₃, items, w₄, hu, hc, hroot, hitems, h⟩

theorem operatorsText_answers {root : Bool} {items : List (JsonObject Double)} {stale : Prop}
    (hstale : stale ↔ (root = false ∨ root = true ∧
      Platform.printPreallocated items responseBufferSize = none ∧
        ∃ b b', b.length = responseBufferSize ∧ b'.length = responseBufferSize ∧
          inferContentType (Platform.printResidue items responseBufferSize b) none ≠
            inferContentType (Platform.printResidue items responseBufferSize b') none)) :
    Answers stale fun buffer => respList (prepared buffer) (operatorsText root items buffer) := by
  unfold operatorsText
  cases root with
  | false =>
      have hr : Bodiless ⟨200, none, [], 0, [], []⟩ :=
        ⟨Or.inl rfl, rfl, rfl, Nat.zero_le _, Nat.zero_le _⟩
      exact Or.inr ⟨hstale.mpr (Or.inl rfl), hr.leaks⟩
  | true =>
      cases hprint : Platform.printPreallocated items responseBufferSize with
      | none => exact residue_answers (hstale.trans (by simp [hprint]))
      | some text =>
          refine Or.inl ⟨fun h => ?_, (fills_text text).overwrites.independent⟩
          rcases hstale.mp h with hroot | ⟨-, hnone, -⟩
          · cases hroot
          · rw [hprint] at hnone
            cases hnone

theorem routeApiOperators_answers : Prog.Uniform (Answers (OperatorsFail req e w))
    (fun buffer => routeApiOperators req (prepared buffer)) e w := by
  cases hu : sessionUserWith userIsAdmin req e w with
  | mk u w₁ =>
      refine Prog.uniform_after hu ?_
      cases u with
      | none =>
          refine answers_of_overwrites ?_ (Prog.uniform_pure (respJsonError_overwrites 403 _))
          rintro ⟨_, _, _, _, _, _, _, _, hu', -⟩
          rw [hu] at hu'
          cases hu'
      | some u =>
          cases hc : dbCursorOpen (selectOperators u.city) e w₁ with
          | mk c w₂ =>
              cases c with
              | none =>
                  refine answers_of_overwrites ?_ ?_
                  · rintro ⟨_, _, _, _, _, _, _, _, hu', hc', -⟩
                    rw [hu] at hu'
                    cases hu'
                    rw [hc] at hc'
                    cases hc'
                  · have hlist : Prog.Uniform Fills
                        (fun buffer => userGetOperatorsJson buffer responseBufferSize u.city) e w₁ := by
                      refine Prog.uniform_after hc ?_
                      simp only [show responseBufferSize > 2 by decide, if_true]
                      exact Prog.uniform_pure (fills_overlay (by decide) (by decide))
                    exact hlist.bind fun g w₃ hg => Prog.uniform_pure hg.overwrites
              | some rows =>
                  cases hroot : jsonCreate e w₂ with
                  | mk root w₃ =>
                      cases hitems : drainRows operatorItem rows e w₃ with
                      | mk items w₄ =>
                          refine (userGetOperatorsJson_uniform hc hroot hitems).bind ?_
                          rintro g w₅ rfl
                          exact Prog.uniform_pure
                            (operatorsText_answers (operatorsFail_iff hu hc hroot hitems))

/-! ### Endpoints that write -/

theorem routeApiReportStatus_answers : Prog.Uniform (Answers False)
    (fun buffer => routeApiReportStatus req (prepared buffer)) e w := by
  refine answers_of_overwrites id ?_
  cases hu : sessionUserWith userIsOperator req e w with
  | mk u w₁ =>
      refine Prog.uniform_after hu ?_
      cases u with
      | none => exact Prog.uniform_pure (respJsonError_overwrites 403 _)
      | some u =>
          refine Prog.uniform_ite (fun _ => Prog.uniform_pure (respJsonError_overwrites 400 _))
            fun _ => ?_
          refine Prog.uniform_after (show reportGetById _ e w₁ = (_, _) from rfl) ?_
          split
          · exact Prog.uniform_pure (respJsonError_overwrites 404 _)
          · refine Prog.uniform_ite (fun _ => Prog.uniform_pure (respJsonError_overwrites 403 _))
              fun _ => ?_
            refine Prog.uniform_ite (fun _ => ?_)
              fun _ => Prog.uniform_pure (respJsonError_overwrites 400 _)
            exact Prog.uniform_after (show reportResolve _ _ e _ = (_, _) from rfl)
              (Prog.uniform_pure (respWrite_overwrites _ 403 _))

theorem routeApiReportRespond_answers : Prog.Uniform (Answers False)
    (fun buffer => routeApiReportRespond req (prepared buffer)) e w := by
  refine answers_of_overwrites id ?_
  cases hu : sessionUserWith userIsOperator req e w with
  | mk u w₁ =>
      refine Prog.uniform_after hu ?_
      cases u with
      | none => exact Prog.uniform_pure (respJsonError_overwrites 403 _)
      | some u =>
          refine Prog.uniform_ite (fun _ => Prog.uniform_pure (respJsonError_overwrites 400 _))
            fun _ => ?_
          refine Prog.uniform_ite (fun _ => Prog.uniform_pure (respJsonError_overwrites 400 _))
            fun _ => ?_
          refine Prog.uniform_after (show reportGetById _ e w₁ = (_, _) from rfl) ?_
          split
          · exact Prog.uniform_pure (respJsonError_overwrites 404 _)
          · refine Prog.uniform_ite (fun _ => Prog.uniform_pure (respJsonError_overwrites 403 _))
              fun _ => ?_
            refine Prog.uniform_ite (fun _ => ?_) fun _ => ?_
            · exact Prog.uniform_after (show reportAccept _ _ e _ = (_, _) from rfl)
                (Prog.uniform_pure (respWrite_overwrites _ 409 _))
            · exact Prog.uniform_after (show reportReject _ _ e _ = (_, _) from rfl)
                (Prog.uniform_pure (respWrite_overwrites _ 409 _))

theorem routeApiReportFeedback_answers : Prog.Uniform (Answers False)
    (fun buffer => routeApiReportFeedback req (prepared buffer)) e w := by
  refine answers_of_overwrites id ?_
  cases hu : sessionUserWith (fun u => !userIsOperator u && !userIsAdmin u) req e w with
  | mk u w₁ =>
      refine Prog.uniform_after hu ?_
      cases u with
      | none => exact Prog.uniform_pure (respJsonError_overwrites 403 _)
      | some u =>
          refine Prog.uniform_ite (fun _ => Prog.uniform_pure (respJsonError_overwrites 400 _))
            fun _ => ?_
          refine Prog.uniform_ite (fun _ => Prog.uniform_pure (respJsonError_overwrites 400 _))
            fun _ => ?_
          exact Prog.uniform_after (show reportSetFeedback _ _ _ e w₁ = (_, _) from rfl)
            (Prog.uniform_pure (respWrite_overwrites _ 409 _))

theorem routeApiAdminAssign_answers : Prog.Uniform (Answers False)
    (fun buffer => routeApiAdminAssign req (prepared buffer)) e w := by
  refine answers_of_overwrites id ?_
  cases hu : sessionUserWith userIsAdmin req e w with
  | mk u w₁ =>
      refine Prog.uniform_after hu ?_
      cases u with
      | none => exact Prog.uniform_pure (respJsonError_overwrites 403 _)
      | some u =>
          refine Prog.uniform_ite (fun _ => Prog.uniform_pure (respJsonError_overwrites 400 _))
            fun _ => ?_
          refine Prog.uniform_after (show reportGetById _ e w₁ = (_, _) from rfl) ?_
          split
          · exact Prog.uniform_pure (respJsonError_overwrites 404 _)
          · refine Prog.uniform_ite (fun _ => Prog.uniform_pure (respJsonError_overwrites 403 _))
              fun _ => ?_
            refine Prog.uniform_after (show userGetById _ e _ = (_, _) from rfl) ?_
            split
            · exact Prog.uniform_pure (respJsonError_overwrites 400 _)
            · refine Prog.uniform_after (show reportAssign _ _ e _ = (_, _) from rfl) ?_
              refine Prog.uniform_ite (fun _ => ?_) fun _ => ?_
              · exact Prog.uniform_after (show forceAssign _ _ e _ = (_, _) from rfl)
                  (Prog.uniform_pure (respWrite_overwrites _ 409 _))
              · exact Prog.uniform_after rfl (Prog.uniform_pure (respWrite_overwrites _ 409 _))

end handlers

/-! ### Every request -/

/-- When the routes of the table leave the buffer unwritten. -/
def unwrittenRoutes : List (Bytes × Bytes × (HttpRequest → Env → World → Prop)) := [
  (bytes "GET", bytes "/", HasSession),
  (bytes "GET", bytes "/home", fun req e w => ¬ HasSession req e w),
  (bytes "GET", bytes "/register", fun _ _ _ => False),
  (bytes "GET", bytes "/submit", NotCitizen),
  (bytes "GET", bytes "/logout", fun _ _ _ => True),
  (bytes "POST", bytes "/login", LogsIn),
  (bytes "POST", bytes "/register", Enrols),
  (bytes "POST", bytes "/submit", fun req e w => NotCitizen req e w ∨ Submits req e w),
  (bytes "GET", bytes "/api/cities", fun _ _ _ => False),
  (bytes "GET", bytes "/api/reports/active", fun _ _ _ => False),
  (bytes "GET", bytes "/api/reports/archived", fun _ _ _ => False),
  (bytes "GET", bytes "/api/reports/all", fun _ _ _ => False),
  (bytes "GET", bytes "/api/operators", OperatorsFail),
  (bytes "POST", bytes "/api/report/status", fun _ _ _ => False),
  (bytes "POST", bytes "/api/report/respond", fun _ _ _ => False),
  (bytes "POST", bytes "/api/report/feedback", fun _ _ _ => False),
  (bytes "POST", bytes "/api/admin/assign", fun _ _ _ => False),
  (bytes "GET", bytes "/static/common.css", fun _ _ _ => False),
  (bytes "GET", bytes "/api/docs", fun _ _ _ => False)]

/-- The request is for one of these routes in such a case. -/
def Unwritten (req : HttpRequest) (e : Env) (w : World) : Prop :=
  ∃ x ∈ unwrittenRoutes, req.method.text = x.1 ∧ req.path.text = x.2.1 ∧ x.2.2 req e w

/-- A route and its entry agree. -/
structure Describes (req : HttpRequest) (e : Env) (w : World) (r : Route)
    (x : Bytes × Bytes × (HttpRequest → Env → World → Prop)) : Prop where
  method : r.method = x.1
  path : r.path = x.2.1
  answers : Prog.Uniform (Answers (x.2.2 req e w)) (fun buffer => r.handler req (prepared buffer)) e w

theorem unwrittenRoutes_describes (req : HttpRequest) :
    List.Forall₂ (Describes req e w) routes unwrittenRoutes := by
  refine .cons ⟨rfl, rfl, routeGetRoot_answers⟩ <| .cons ⟨rfl, rfl, routeGetHome_answers⟩ <|
    .cons ⟨rfl, rfl, answers_of_overwrites id (respRenderTpl_overwrites _ _)⟩ <|
    .cons ⟨rfl, rfl, routeGetSubmit_answers⟩ <| .cons ⟨rfl, rfl, routeGetLogout_answers⟩ <|
    .cons ⟨rfl, rfl, routePostLogin_answers⟩ <| .cons ⟨rfl, rfl, routePostRegister_answers⟩ <|
    .cons ⟨rfl, rfl, routePostSubmit_answers⟩ <| .cons ⟨rfl, rfl, @routeApiCities_answers _ e w req⟩ <|
    .cons ⟨rfl, rfl, cachedRoute_answers false⟩ <| .cons ⟨rfl, rfl, cachedRoute_answers true⟩ <|
    .cons ⟨rfl, rfl, routeApiReportsAll_answers⟩ <| .cons ⟨rfl, rfl, routeApiOperators_answers⟩ <|
    .cons ⟨rfl, rfl, routeApiReportStatus_answers⟩ <|
    .cons ⟨rfl, rfl, routeApiReportRespond_answers⟩ <|
    .cons ⟨rfl, rfl, routeApiReportFeedback_answers⟩ <|
    .cons ⟨rfl, rfl, routeApiAdminAssign_answers⟩ <| .cons ⟨rfl, rfl, ?_⟩ <|
    .cons ⟨rfl, rfl, ?_⟩ .nil
  · exact answers_of_overwrites id (serveTpl_overwrites
      (m := fun resp => respHtmlError resp 404 (bytes "CSS not found")) _ _
      (respHtmlError_overwrites 404 _))
  · exact answers_of_overwrites id (serveTpl_overwrites
      (m := fun resp => respHtmlError resp 404 (bytes "docs not found")) _ _
      (respHtmlError_overwrites 404 _))

/-- The loop over the table, when no two routes are for the same requests. -/
theorem dispatch_answers {req : HttpRequest} {rs : List Route}
    {xs : List (Bytes × Bytes × (HttpRequest → Env → World → Prop))}
    (h : List.Forall₂ (Describes req e w) rs xs)
    (hdistinct : xs.Pairwise fun x y => ¬ (x.1 = y.1 ∧ x.2.1 = y.2.1)) (pathFound : Bool) :
    Prog.Uniform (Answers (∃ x ∈ xs, req.method.text = x.1 ∧ req.path.text = x.2.1 ∧ x.2.2 req e w))
      (fun buffer => dispatch req (prepared buffer) pathFound rs) e w := by
  induction h generalizing pathFound with
  | nil =>
      refine answers_of_overwrites (by simp) ?_
      refine Prog.uniform_ite (fun _ => ?_) fun _ => ?_
      · exact Prog.uniform_pure (respHtmlError_overwrites 405 _)
      · exact Prog.uniform_pure (print_overwrites ⟨404, none, [], 0, [], []⟩ _)
  | @cons r x rs xs hx _ ih =>
      obtain ⟨hfirst, hdistinct⟩ := List.pairwise_cons.mp hdistinct
      have hskip : ¬ (req.method.text = x.1 ∧ req.path.text = x.2.1) →
          ((∃ y ∈ xs, req.method.text = y.1 ∧ req.path.text = y.2.1 ∧ y.2.2 req e w) ↔
            ∃ y ∈ x :: xs, req.method.text = y.1 ∧ req.path.text = y.2.1 ∧ y.2.2 req e w) := by
        intro hno
        rw [List.exists_mem_cons_iff]
        exact (or_iff_right fun hm => hno ⟨hm.1, hm.2.1⟩).symm
      refine Prog.uniform_ite (fun hpath => ?_) fun hpath => ?_
      · rw [← answers_congr (hskip fun hm => ?_)]
        · exact ih hdistinct pathFound
        · simp [httpIsRequestPath, hm.2, hx.path] at hpath
      refine Prog.uniform_ite (fun hmethod => ?_) fun hmethod => ?_
      · have hm : req.method.text = x.1 ∧ req.path.text = x.2.1 := by
          simp only [httpIsRequestPath, Bool.not_eq_true', decide_eq_false_iff_not, not_not] at hpath
          exact ⟨(of_decide_eq_true hmethod).trans hx.method, hpath.trans hx.path⟩
        have honly : (∃ y ∈ x :: xs, req.method.text = y.1 ∧ req.path.text = y.2.1 ∧
            y.2.2 req e w) ↔ x.2.2 req e w := by
          rw [List.exists_mem_cons_iff]
          constructor
          · rintro (hx' | ⟨y, hy, hm', hp', -⟩)
            · exact hx'.2.2
            · exact absurd ⟨hm.1.symm.trans hm', hm.2.symm.trans hp'⟩ (hfirst y hy)
          · exact fun hstale => Or.inl ⟨hm.1, hm.2, hstale⟩
        rw [answers_congr honly]
        exact hx.answers
      · rw [← answers_congr (hskip fun hm => ?_)]
        · exact ih hdistinct true
        · exact hmethod (decide_eq_true (hm.1.trans hx.method.symm))

theorem unwrittenRoutes_distinct :
    (unwrittenRoutes).Pairwise fun x y => ¬ (x.1 = y.1 ∧ x.2.1 = y.2.1) := by
  have hkeys : unwrittenRoutes.map (fun x => (x.1, x.2.1)) =
      routes.map fun r => (r.method, r.path) := rfl
  have hpairs : (routes.map fun r => (r.method, r.path)).Pairwise
      fun x y => ¬ (x.1 = y.1 ∧ x.2 = y.2) := by
    have hlist : (routes.map fun r => (r.method, r.path)) =
        (List.replicate 5 (bytes "GET") ++ List.replicate 3 (bytes "POST") ++
          List.replicate 5 (bytes "GET") ++ List.replicate 4 (bytes "POST") ++
          List.replicate 2 (bytes "GET")).zip routePaths := rfl
    rw [hlist]
    decide
  rw [← hkeys] at hpairs
  exact List.pairwise_map.mp hpairs

/-- **The response buffer.**  Two contents of the buffer make no difference to what is sent if and
only if the request is not one that leaves the buffer unwritten. -/
theorem independent_iff (req : HttpRequest) (e : Env) (w : World) (keepAlive : Bool) :
    (∀ b b' : Bytes, b.length = responseBufferSize → b'.length = responseBufferSize →
      sentBytes keepAlive (handleRequest req (prepared b) e w).1 =
        sentBytes keepAlive (handleRequest req (prepared b') e w).1) ↔ ¬ Unwritten req e w := by
  have hanswers : Answers (Unwritten req e w) fun b => (handleRequest req (prepared b) e w).1 :=
    (dispatch_answers (unwrittenRoutes_describes req) unwrittenRoutes_distinct false).results
  rcases hanswers with ⟨hwritten, hind⟩ | ⟨hunwritten, hleaks⟩
  · exact ⟨fun _ => hwritten, fun _ b b' hb hb' => hind keepAlive b b' hb hb'⟩
  · refine ⟨fun hsame => ?_, fun h => absurd hunwritten h⟩
    obtain ⟨b, b', hb, hb', hne⟩ := hleaks keepAlive
    exact absurd (hsame b b' hb hb') hne

end pages

end platform

/-! ### A logout after a page and after a list -/

def bareLogout : HttpRequest :=
  (httpRequestParse (bytes "GET /logout HTTP/1.1\x0d\n\x0d\n")).getD
    ⟨[], ⟨0, []⟩, ⟨0, []⟩, [], 0, none, 0⟩

/-- The answer to a logout names the type of the previous answer. -/
theorem logout_leaks :
    letI := samplePlatform
    oldPage.length = responseBufferSize ∧ oldJson.length = responseBufferSize ∧
    sentBytes false (handleRequest bareLogout (prepared oldPage) sampleEnv
      (emptyWorld noSessions)).1 ≠
    sentBytes false (handleRequest bareLogout (prepared oldJson) sampleEnv
      (emptyWorld noSessions)).1 :=
  ⟨oldPage_length, oldJson_length, by decide +kernel⟩

end Segnalacity
