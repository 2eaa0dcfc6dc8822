import Segnalacity.Http.Cookie
import Segnalacity.Routes.Pages
import Segnalacity.SessionContract

/-! # Logging out

`get_session_user` reads the cookie into a buffer of `TOKEN_HEX_LEN + 1` bytes and
`route_get_logout` into one byte more, and the decoder does not stop at `;`.  When another cookie
follows the token, the logout destroys a token that does not exist and the session stays.
`logout_ends_session_iff`: the logout works exactly when the value ends behind the token. -/

namespace Segnalacity

open CStr StateProg HashTable Http

/-! ### Cookies -/

/-- The two requests carry the same `Cookie` header. -/
def SameCookie (req req' : HttpRequest) : Prop :=
  (httpRequestHeader req (bytes "cookie")).map Slice.text =
    (httpRequestHeader req' (bytes "cookie")).map Slice.text

theorem isXDigit_hexString {f : Fin 32 → Fin 16} {b : UInt8} (h : b ∈ hexString f) :
    isXDigit b = true := by
  have hdigit : ∀ n : Fin 16, isXDigit ((bytes "0123456789abcdef").getD n.val 0) = true := by decide
  obtain ⟨i, -, rfl⟩ := List.mem_map.mp h
  exact hdigit (f i)

/-- A token read from a request is read from every request with the same header. -/
theorem sameToken {raw raw' : Bytes} {req req' : HttpRequest} (h : httpRequestParse raw = some req)
    (h' : httpRequestParse raw' = some req') (hsame : SameCookie req req') {name : Bytes}
    {f : Fin 32 → Fin 16} (htok : httpRequestCookie req name (tokenHexLen + 1) = hexString f) :
    httpRequestCookie req' name (tokenHexLen + 1) = hexString f := by
  have hlen := hexString_length f
  rw [httpRequestCookie_eq] at htok ⊢
  cases hsrc : cookieSource req name with
  | none =>
      rw [hsrc] at htok
      rw [← htok] at hlen
      cases hlen
  | some src =>
      rw [hsrc] at htok
      obtain ⟨text, k, t, rest, htext, hk, rfl, ht⟩ := cookieSource_parsed h hsrc
      have hsrc' : ∃ src', cookieSource req' name = some src' := by
        rw [hsame] at htext
        obtain ⟨v', hv', hvt⟩ := Option.map_eq_some_iff.mp htext
        refine ⟨req'.raw.drop (v'.off + k), ?_⟩
        unfold cookieSource
        rw [hv', Option.bind_some, hvt, hk]
        rfl
      obtain ⟨src', hsrc'⟩ := hsrc'
      obtain ⟨text', k', t', rest', htext', hk', rfl, ht'⟩ := cookieSource_parsed h' hsrc'
      rw [← hsame, htext] at htext'
      obtain rfl := Option.some.inj htext'
      rw [hk] at hk'
      obtain rfl := Option.some.inj hk'
      rw [hsrc']
      -- nothing of the token comes from behind the header text
      have hown : urlDecode tokenHexLen (text.drop k) = hexString f := by
        obtain ⟨-, heq | ⟨b, r, hb, hmem⟩⟩ :=
          urlDecode_append (not_isXDigit_of_end ht) rest tokenHexLen (text.drop k)
        · exact heq.symm.trans htok
        · rw [show urlDecode tokenHexLen (text.drop k ++ t :: rest) = hexString f from htok] at hmem
          have hxb := isXDigit_hexString hmem
          rcases ht with rfl | hd
          · have hnine : b = 9 := by
              rw [decodeStep_cons rest rfl] at hb
              have hno : percentByte (9 :: rest) = none := by
                match rest with
                | [] => rfl
                | [_] => rfl
                | _ :: _ :: _ => simp [percentByte_cons]
              rw [hno] at hb
              exact (Prod.mk.inj (Option.some.inj hb)).1.symm
            subst hnine
            cases hxb
          · rw [decodeStep_delimiter rest hd] at hb
            cases hb
      have hpre := (urlDecode_append (not_isXDigit_of_end ht') rest' tokenHexLen (text.drop k)).1
      rw [hown] at hpre
      refine (hpre.eq_of_length_le ?_).symm
      rw [hlen]
      exact urlDecode_length_le _ _

/-- What the logout destroys: the token, with one byte more unless the value ends behind it. -/
theorem logout_token {req : HttpRequest} {f : Fin 32 → Fin 16}
    (htok : httpRequestCookie req sessionCookieName (tokenHexLen + 1) = hexString f) :
    ∃ src, cookieSource req sessionCookieName = some src ∧
      httpRequestCookie req sessionCookieName (tokenHexLen + 2) =
        hexString f ++ ((decodeStep (dropDecoded tokenHexLen src)).map Prod.fst).toList := by
  have hlen := hexString_length f
  rw [httpRequestCookie_eq] at htok ⊢
  cases hsrc : cookieSource req sessionCookieName with
  | none =>
      rw [hsrc] at htok
      rw [← htok] at hlen
      cases hlen
  | some src =>
      rw [hsrc] at htok
      have htok' : urlDecode tokenHexLen src = hexString f := htok
      refine ⟨src, rfl, ?_⟩
      show urlDecode (tokenHexLen + 1) src = _
      rw [urlDecode_succ (by rw [htok']; exact hlen), htok']

/-! ### Tokens of the table -/

theorem sessionKey_hexString (f : Fin 32 → Fin 16) : sessionKey (hexString f) = hexString f ++ [0] := by
  unfold sessionKey
  rw [cstr_eq_self (zero_notMem_hexString f)]

section platform

variable [Platform]

/-- Every session is stored under a token that was drawn. -/
def Tokens (w : World) : Prop :=
  ∀ key s, htGet w.sessions key = some s → ∃ f, key = hexString f ++ [0]

theorem sessionCall_tokens {e : Env} {k : SessionCall} {a : SessionAnswer} {w w' : World}
    (hwf : w.sessions.WF) (hw : Tokens w) (h : k.run e w = (a, w')) :
    w'.sessions.WF ∧ Tokens w' := by
  cases k with
  | create user =>
      obtain ⟨token, w₁, h₁, h₂⟩ := Prog.bind_run_iff.mp h
      obtain ⟨c, w₂, h₃, h₄⟩ := Prog.bind_run_iff.mp h₂
      obtain ⟨rfl, rfl⟩ := Prog.askAt_run_iff.mp h₃
      obtain ⟨rfl, rfl⟩ := Prog.pure_run_iff.mp h₄
      rcases sessionCreate_run hwf h₁ with ⟨-, hev⟩ | ⟨t, w₂, -, ⟨f, rfl⟩, hev, -, -, hwf', -, hget⟩
      · exact ⟨hev.wf, fun key s hs => hw key s (hev.some hs)⟩
      · refine ⟨hwf', fun key s hs => ?_⟩
        rw [hget] at hs
        by_cases hk : key = sessionKey (hexString f)
        · exact ⟨f, hk.trans (sessionKey_hexString f)⟩
        · rw [Function.update_of_ne hk] at hs
          exact hw key s (hev.some hs)
  | verify token =>
      obtain ⟨u, w₁, h₁, h₂⟩ := Prog.bind_run_iff.mp h
      obtain ⟨rfl, rfl⟩ := Prog.pure_run_iff.mp h₂
      have hev := sessionVerify_evicts hwf h₁
      exact ⟨hev.wf, fun key s hs => hw key s (hev.some hs)⟩
  | destroy token =>
      obtain ⟨u, w₁, h₁, h₂⟩ := Prog.bind_run_iff.mp h
      obtain ⟨rfl, rfl⟩ := Prog.pure_run_iff.mp h₂
      obtain ⟨-, hwf', -, hget⟩ := sessionDestroy_run hwf h₁
      refine ⟨hwf', fun key s hs => ?_⟩
      rw [hget] at hs
      by_cases hk : key = sessionKey token
      · subst hk
        rw [Function.update_self] at hs
        cases hs
      · rw [Function.update_of_ne hk] at hs
        exact hw key s hs

theorem sessionRun_tokens {e : Env} {w₀ w : World} {log : SessionLog} (hwf : w₀.sessions.WF)
    (h₀ : Tokens w₀) (hrun : Run SessionCall.run e w₀ log w) : w.sessions.WF ∧ Tokens w := by
  refine hrun.invariant (I := fun _ w => w.sessions.WF ∧ Tokens w) ⟨hwf, h₀⟩ ?_
  rintro log w k a w' ⟨hwf, hw⟩ h
  exact sessionCall_tokens hwf hw h

theorem sessionInit_tokens {w₀ : World} {seed : UInt64} {tableOk poolOk : Bool}
    (h₀ : sessionInit seed tableOk poolOk = some w₀.sessions) :
    w₀.sessions.WF ∧ Tokens w₀ := by
  obtain ⟨hwf, hnil⟩ := htCreate_wf h₀
  refine ⟨hwf, fun key s hs => ?_⟩
  rw [htGet_of_entries_nil hwf hnil] at hs
  cases hs

/-- A token without a session keeps having none until it is returned by a creation. -/
theorem absent_until_created {e : Env} {w₀ w : World} {log : SessionLog} (hwf : w₀.sessions.WF)
    {f : Fin 32 → Fin 16} (ht : htGet w₀.sessions (sessionKey (hexString f)) = none)
    (hrun : Run SessionCall.run e w₀ log w)
    (hno : ∀ u c, (SessionCall.create u, SessionAnswer.created (some (hexString f)) c) ∉ log) :
    htGet w.sessions (sessionKey (hexString f)) = none := by
  have hinv : w.sessions.WF ∧ ((∀ u c, (SessionCall.create u,
      SessionAnswer.created (some (hexString f)) c) ∉ log) →
        htGet w.sessions (sessionKey (hexString f)) = none) := by
    refine hrun.invariant (I := fun log w => w.sessions.WF ∧ ((∀ u c, (SessionCall.create u,
      SessionAnswer.created (some (hexString f)) c) ∉ log) →
        htGet w.sessions (sessionKey (hexString f)) = none)) ⟨hwf, fun _ => ht⟩ ?_
    rintro log w k a w' ⟨hwf, hw⟩ h
    have hold : (∀ u c, (SessionCall.create u, SessionAnswer.created (some (hexString f)) c) ∉
        log ++ [(k, a)]) → htGet w.sessions (sessionKey (hexString f)) = none :=
      fun hno => hw fun u c hmem => hno u c (List.mem_append_left _ hmem)
    cases k with
    | create user =>
        obtain ⟨token, w₁, h₁, h₂⟩ := Prog.bind_run_iff.mp h
        obtain ⟨c, w₂, h₃, h₄⟩ := Prog.bind_run_iff.mp h₂
        obtain ⟨rfl, rfl⟩ := Prog.askAt_run_iff.mp h₃
        obtain ⟨rfl, rfl⟩ := Prog.pure_run_iff.mp h₄
        rcases sessionCreate_run hwf h₁ with
          ⟨-, hev⟩ | ⟨t, w₂, rfl, ⟨g, rfl⟩, hev, -, -, hwf', -, hget⟩
        · exact ⟨hev.wf, fun hno => hev.none (hold hno)⟩
        · refine ⟨hwf', fun hno => ?_⟩
          have hne : sessionKey (hexString f) ≠ sessionKey (hexString g) := by
            intro hk
            rw [sessionKey_hexString, sessionKey_hexString] at hk
            have hnew := hno user (e.clock (w'.ctr.ticks - 1))
            rw [List.append_cancel_right hk] at hnew
            exact hnew (List.mem_append_right _ List.mem_cons_self)
          rw [hget, Function.update_of_ne hne]
          exact hev.none (hold hno)
    | verify token =>
        obtain ⟨u, w₁, h₁, h₂⟩ := Prog.bind_run_iff.mp h
        obtain ⟨rfl, rfl⟩ := Prog.pure_run_iff.mp h₂
        have hev := sessionVerify_evicts hwf h₁
        exact ⟨hev.wf, fun hno => hev.none (hold hno)⟩
    | destroy token =>
        obtain ⟨u, w₁, h₁, h₂⟩ := Prog.bind_run_iff.mp h
        obtain ⟨rfl, rfl⟩ := Prog.pure_run_iff.mp h₂
        obtain ⟨-, hwf', -, hget⟩ := sessionDestroy_run hwf h₁
        refine ⟨hwf', fun hno => ?_⟩
        rw [hget]
        by_cases hk : sessionKey (hexString f) = sessionKey token
        · rw [hk, Function.update_self]
        · rw [Function.update_of_ne hk]
          exact hold hno
  exact hinv.2 hno

/-! ### The two readings of one cookie -/

variable {e : Env} {w w₁ w₂ : World} {req : HttpRequest} {u : User}

/-- A request that is logged in carries a drawn token of a live session. -/
theorem getSessionUser_some (hw : Tokens w) (h : getSessionUser req e w = (some u, w₁)) :
    ∃ f s, httpRequestCookie req sessionCookieName (tokenHexLen + 1) = hexString f ∧
      htGet w.sessions (sessionKey (hexString f)) = some s ∧ s.user = u ∧
      e.clock w.ctr.ticks - s.createdAt ≤ sessionMaxAge ∧ w₁ = w.tick := by
  rcases getSessionUser_run h with ⟨hu, -⟩ | ⟨-, hv⟩
  · cases hu
  · rcases sessionVerify_run hv with ⟨-, hu, -⟩ | ⟨s, hs, ⟨-, hu, -⟩ | ⟨hlive, hu, hw₁⟩⟩
    · cases hu
    · cases hu
    · obtain ⟨f, hf⟩ := hw _ s hs
      have htok : httpRequestCookie req sessionCookieName (tokenHexLen + 1) = hexString f := by
        unfold sessionKey at hf
        rw [cstr_eq_self (zero_notMem_httpRequestCookie _ _ _)] at hf
        exact List.append_cancel_right hf
      rw [htok] at hs
      exact ⟨f, s, htok, hs, (Option.some.inj hu).symm, hlive, hw₁⟩

theorem routeGetLogout_run {resp resp' : HttpResponse} (hwf : w.sessions.WF)
    (h : routeGetLogout req resp e w = (resp', w₁)) :
    w₁.sessions.WF ∧ w₁.ctr = w.ctr ∧ SameData w w₁ ∧ htGet w₁.sessions =
      if httpRequestCookie req sessionCookieName (tokenHexLen + 2) = [] then htGet w.sessions
      else Function.update (htGet w.sessions)
        (sessionKey (httpRequestCookie req sessionCookieName (tokenHexLen + 2))) none := by
  unfold routeGetLogout at h
  dsimp only at h
  rw [Prog.ite_run] at h
  split_ifs at h with ht
  · obtain ⟨v, w₂, h₁, h₂⟩ := Prog.bind_run_iff.mp h
    obtain ⟨-, rfl⟩ := Prog.pure_run_iff.mp h₂
    obtain ⟨hdata, hwf', hctr, hget⟩ := sessionDestroy_run hwf h₁
    exact ⟨hwf', hctr, hdata, by rw [if_neg ht, hget]⟩
  · obtain ⟨-, rfl⟩ := Prog.pure_run_iff.mp h
    exact ⟨hwf, rfl, SameData.refl _, by rw [if_pos (not_not.mp ht)]⟩

/-- From time `n` on, whatever happens to the sessions, no request with the cookie of `req` is
logged in, until a login returns its token. -/
def LoggedOut (n : ℤ) (w : World) (req : HttpRequest) : Prop :=
  ∀ (e : Env) (log : SessionLog) (w' : World) (raw' : Bytes) (req' : HttpRequest),
    Monotone e.clock → n ≤ e.clock w.ctr.ticks → Run SessionCall.run e w log w' →
    (∀ user c, (SessionCall.create user, SessionAnswer.created
      (some (httpRequestCookie req sessionCookieName (tokenHexLen + 1))) c) ∉ log) →
    httpRequestParse raw' = some req' → SameCookie req req' → (getSessionUser req' e w').1 = none

/-- **A logout ends the session exactly when the cookie value ends behind its 32 characters.** -/
theorem logout_ends_session_iff {e₀ : Env} {w₀ : World} {seed : UInt64} {tableOk poolOk : Bool}
    (h₀ : sessionInit seed tableOk poolOk = some w₀.sessions) {log : SessionLog}
    (hrun : Run SessionCall.run e₀ w₀ log w) {raw : Bytes}
    (hreq : httpRequestParse raw = some req) (huser : getSessionUser req e w = (some u, w₁))
    {resp resp' : HttpResponse} (hlogout : routeGetLogout req resp e w₁ = (resp', w₂)) :
    LoggedOut (e.clock w.ctr.ticks) w₂ req ↔
      ∃ src, cookieSource req sessionCookieName = some src ∧
        ValueEnds (dropDecoded tokenHexLen src) := by
  obtain ⟨hwf₀, htok₀⟩ := sessionInit_tokens h₀
  obtain ⟨hwf, htokens⟩ := sessionRun_tokens hwf₀ htok₀ hrun
  obtain ⟨f, s, htok, hs, rfl, hlive, rfl⟩ := getSessionUser_some htokens huser
  obtain ⟨src, hsrc, htok'⟩ := logout_token htok
  obtain ⟨hwf₂, hctr, -, hget⟩ := routeGetLogout_run (w := w.tick) hwf hlogout
  rw [htok'] at hget
  have hne : hexString f ++ ((decodeStep (dropDecoded tokenHexLen src)).map Prod.fst).toList ≠ [] := by
    have hlen := hexString_length f
    intro hnil
    rw [(List.append_eq_nil_iff.mp hnil).1] at hlen
    cases hlen
  rw [if_neg hne] at hget
  constructor
  · intro hout
    refine ⟨src, hsrc, decodeStep_eq_none_iff.mp ?_⟩
    by_contra hmore
    obtain ⟨br, hbr⟩ := Option.ne_none_iff_exists'.mp hmore
    -- the key destroyed is longer, so the session is still there, at the time of the request
    have hkept : htGet w₂.sessions (sessionKey (hexString f)) = some s := by
      rw [hget, hbr, Function.update_of_ne]
      · exact hs
      · have hb : br.1 ≠ 0 := decodeStep_ne_zero (show _ = some (br.1, br.2) from hbr)
        have h0 : (0 : UInt8) ∉ hexString f ++ [br.1] := by
          simp [zero_notMem_hexString, hb.symm]
        unfold sessionKey
        intro hk
        have hk' := List.append_cancel_right hk
        simp only [Option.map_some, Option.toList_some] at hk'
        rw [cstr_eq_self (zero_notMem_hexString f), cstr_eq_self h0] at hk'
        have := congrArg List.length hk'
        simp at this
    have hfail := hout { e with clock := fun _ => e.clock w.ctr.ticks } [] w₂ raw req
      (fun _ _ _ => le_rfl) le_rfl .nil (by simp) hreq rfl
    unfold getSessionUser at hfail
    rw [htok] at hfail
    have hnil : hexString f ≠ [] := by
      intro hnil
      have hlen := hexString_length f
      rw [hnil] at hlen
      cases hlen
    rw [if_neg hnil] at hfail
    generalize hres : sessionVerify (hexString f) _ w₂ = res at hfail
    obtain ⟨u', w₃⟩ := res
    rcases sessionVerify_run hres with
      ⟨hnone, -⟩ | ⟨s', hs', ⟨hexp, -⟩ | ⟨-, hu, -⟩⟩
    · rw [hkept] at hnone
      cases hnone
    · rw [hkept] at hs'
      obtain rfl := Option.some.inj hs'
      have hexp' : e.clock w.ctr.ticks - s.createdAt > sessionMaxAge := hexp
      omega
    · dsimp only at hfail
      rw [hu] at hfail
      cases hfail
  · rintro ⟨src', hsrc', hends⟩
    rw [hsrc] at hsrc'
    obtain rfl := Option.some.inj hsrc'
    rw [decodeStep_eq_none_iff.mpr hends, Option.map_none, Option.toList_none, List.append_nil]
      at hget
    intro e' log' w' raw' req' _ _ hrun' hno hreq' hsame
    have habs : htGet w₂.sessions (sessionKey (hexString f)) = none := by
      rw [hget, Function.update_self]
    rw [htok] at hno
    have habs' := absent_until_created hwf₂ habs hrun' hno
    have htok'' := sameToken hreq hreq' hsame htok
    generalize hres : getSessionUser req' e' w' = res
    obtain ⟨u', w₃⟩ := res
    rcases getSessionUser_run hres with ⟨hu, -⟩ | ⟨-, hv⟩
    · exact hu
    · rw [htok''] at hv
      rcases sessionVerify_run hv with ⟨-, hu, -⟩ | ⟨s', hs', -⟩
      · exact hu
      · rw [habs'] at hs'
        cases hs'

end platform

/-! ### One login, two `Cookie` headers -/

def sampleUser : User := ⟨1, bytes "ada", [], [], bytes "Torino", .citizen⟩

def sampleLogin : SessionLog × @World samplePlatform :=
  letI := samplePlatform
  Run.exec SessionCall.run sampleEnv (emptyWorld noSessions) [.create sampleUser]

theorem run_sampleLogin :
    Run (@SessionCall.run samplePlatform) sampleEnv (@emptyWorld samplePlatform noSessions)
      sampleLogin.1 sampleLogin.2 := Run.of_exec _ _ _ _

/-- A logout request whose cookie is the token of the login with `more` behind it. -/
def logoutRaw (more : Bytes) : Bytes :=
  bytes "GET /logout HTTP/1.1\x0d\nCookie: sid=aaaaaaaaaaaaaaaaaaaaaaaaaaaaaaa0" ++ more ++
    bytes "\x0d\n\x0d\n"

def logoutRequest (more : Bytes) : HttpRequest :=
  (httpRequestParse (logoutRaw more)).getD ⟨[], ⟨0, []⟩, ⟨0, []⟩, [], 0, none, 0⟩

/-- The state after `get_session_user` and `route_get_logout` on the same request. -/
def sampleLogout (more : Bytes) : @World samplePlatform :=
  letI := samplePlatform
  (routeGetLogout (logoutRequest more) ⟨200, none, [], 0, [], []⟩ sampleEnv
    (getSessionUser (logoutRequest more) sampleEnv sampleLogin.2).2).2

theorem logout_ends_session_iff_sidAlone :
    letI := samplePlatform
    LoggedOut (sampleEnv.clock sampleLogin.2.ctr.ticks) (sampleLogout []) (logoutRequest []) :=
  letI := samplePlatform
  have hreq : httpRequestParse (logoutRaw []) = some (logoutRequest []) := by decide +kernel
  have huser := Prog.run_of_fst (show (getSessionUser (logoutRequest []) sampleEnv
    sampleLogin.2).1 = some sampleUser by decide +kernel)
  have hlogout := Prog.run_of_fst (m := routeGetLogout (logoutRequest []) ⟨200, none, [], 0, [], []⟩)
    (e := sampleEnv) (s := (getSessionUser (logoutRequest []) sampleEnv sampleLogin.2).2) rfl
  (logout_ends_session_iff sessionInit_noSessions run_sampleLogin hreq huser hlogout).mpr
    ⟨bytes "aaaaaaaaaaaaaaaaaaaaaaaaaaaaaaa0\x0d\n\x0d\n", by decide +kernel,
      decodeStep_eq_none_iff.mp (by decide +kernel)⟩

/-- The sample environment with the clock stopped. -/
def stoppedEnv (n : ℤ) : @Env samplePlatform :=
  letI := samplePlatform
  { sampleEnv with clock := fun _ => n }

/-- With another cookie behind it the session survives the logout. -/
theorem session_survives_logout :
    letI := samplePlatform
    Run SessionCall.run sampleEnv (emptyWorld noSessions) sampleLogin.1 sampleLogin.2 ∧
    httpRequestParse (logoutRaw (bytes "; x=1")) = some (logoutRequest (bytes "; x=1")) ∧
    (getSessionUser (logoutRequest (bytes "; x=1")) sampleEnv sampleLogin.2).1 = some sampleUser ∧
    ¬ LoggedOut (sampleEnv.clock sampleLogin.2.ctr.ticks) (sampleLogout (bytes "; x=1"))
      (logoutRequest (bytes "; x=1")) := by
  let := samplePlatform
  have hreq : httpRequestParse (logoutRaw (bytes "; x=1")) =
      some (logoutRequest (bytes "; x=1")) := by decide +kernel
  refine ⟨run_sampleLogin, hreq, by decide +kernel, fun hout => ?_⟩
  have hclock : ∀ i n, n = (stoppedEnv n).clock i := fun _ _ => rfl
  have hfail := hout (stoppedEnv (sampleEnv.clock sampleLogin.2.ctr.ticks)) []
    (sampleLogout (bytes "; x=1")) (logoutRaw (bytes "; x=1")) (logoutRequest (bytes "; x=1"))
    (fun _ _ _ => le_of_eq ((hclock _ _).symm.trans (hclock _ _))) (le_of_eq (hclock _ _)) .nil
    (fun _ _ h => by cases h) hreq rfl
  have hin : (getSessionUser (logoutRequest (bytes "; x=1"))
      (stoppedEnv (sampleEnv.clock sampleLogin.2.ctr.ticks))
      (sampleLogout (bytes "; x=1"))).1 = some sampleUser := by decide +kernel
  rw [hin] at hfail
  cases hfail

end Segnalacity
