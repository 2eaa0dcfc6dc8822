import Segnalacity.Session

/-! # The contract of the session store

What `session_verify` answers is a function of the log of earlier calls and the time
(`session_contract`), although the table forgets expired sessions whenever it meets them: an
evicted session is one that no later call would have accepted (`Remembers`). -/

namespace Segnalacity

open CStr StateProg HashTable

inductive SessionCall where
  | create (user : User)
  | verify (token : Bytes)
  | destroy (token : Bytes)
deriving DecidableEq, Repr

/-- The answer of a call; a creation is recorded with the last time it read. -/
inductive SessionAnswer where
  | created (token : Option Bytes) (c : ℤ)
  | verified (user : Option User)
  | destroyed
deriving DecidableEq, Repr

abbrev SessionLog := List (SessionCall × SessionAnswer)

/-! ### What the log says -/

/-- Nothing in the log creates or destroys a session of `t`. -/
def Untouched (t : Bytes) (log : SessionLog) : Prop :=
  (∀ u t' c, (SessionCall.create u, SessionAnswer.created (some t') c) ∈ log → cstr t' ≠ cstr t) ∧
    ∀ t' a, (SessionCall.destroy t', a) ∈ log → cstr t' ≠ cstr t

/-- The last successful creation that returned `t` was for `u` at time `c`, and `t` has not been
destroyed since. -/
def LoggedIn (t : Bytes) (u : User) (c : ℤ) (log : SessionLog) : Prop :=
  ∃ (p q : SessionLog) (t' : Bytes), cstr t' = cstr t ∧ Untouched t q ∧
    log = p ++ (SessionCall.create u, SessionAnswer.created (some t') c) :: q

/-- The session of `t` after one more call. -/
def remember (t : Bytes) (s : Option Session) : SessionCall × SessionAnswer → Option Session
  | (.create u, .created (some t') c) => if cstr t' = cstr t then some ⟨u, c⟩ else s
  | (.destroy t', _) => if cstr t' = cstr t then none else s
  | _ => s

def lastSession (t : Bytes) (log : SessionLog) : Option Session := log.foldl (remember t) none

theorem lastSession_concat (t : Bytes) (log : SessionLog) (x : SessionCall × SessionAnswer) :
    lastSession t (log ++ [x]) = remember t (lastSession t log) x := by
  unfold lastSession
  rw [List.foldl_append]
  rfl

/-- A call either changes what is remembered of `t`, or leaves `t` untouched. -/
theorem remember_cases (t : Bytes) (s : Option Session) (x : SessionCall × SessionAnswer) :
    (∃ u t' c, x = (.create u, .created (some t') c) ∧ cstr t' = cstr t ∧
      remember t s x = some ⟨u, c⟩) ∨
    (∃ t' a, x = (.destroy t', a) ∧ cstr t' = cstr t ∧ remember t s x = none) ∨
    (Untouched t [x] ∧ remember t s x = s) := by
  unfold remember
  split
  · rename_i u t' c
    by_cases ht : cstr t' = cstr t
    · exact Or.inl ⟨u, t', c, rfl, ht, if_pos ht⟩
    · exact Or.inr (Or.inr ⟨⟨by simp_all, by simp⟩, if_neg ht⟩)
  · rename_i t' a
    by_cases ht : cstr t' = cstr t
    · exact Or.inr (Or.inl ⟨t', a, rfl, ht, if_pos ht⟩)
    · exact Or.inr (Or.inr ⟨⟨by simp, by simp_all⟩, if_neg ht⟩)
  · rename_i hc hd
    refine Or.inr (Or.inr ⟨⟨?_, ?_⟩, rfl⟩)
    · intro u t' c hmem
      exact absurd (List.mem_singleton.mp hmem).symm (hc u t' c)
    · intro t' a hmem
      exact absurd (List.mem_singleton.mp hmem).symm (hd t' a)

theorem Untouched.concat {t : Bytes} {log : SessionLog} {x : SessionCall × SessionAnswer}
    (h : Untouched t log) (hx : Untouched t [x]) : Untouched t (log ++ [x]) := by
  constructor
  · intro u t' c hmem
    rcases List.mem_append.mp hmem with hmem | hmem
    · exact h.1 u t' c hmem
    · exact hx.1 u t' c hmem
  · intro t' a hmem
    rcases List.mem_append.mp hmem with hmem | hmem
    · exact h.2 t' a hmem
    · exact hx.2 t' a hmem

theorem Untouched.of_concat {t : Bytes} {log : SessionLog} {x : SessionCall × SessionAnswer}
    (h : Untouched t (log ++ [x])) : Untouched t log ∧ Untouched t [x] :=
  ⟨⟨fun u t' c hmem => h.1 u t' c (List.mem_append_left _ hmem),
    fun t' a hmem => h.2 t' a (List.mem_append_left _ hmem)⟩,
    ⟨fun u t' c hmem => h.1 u t' c (List.mem_append_right _ hmem),
    fun t' a hmem => h.2 t' a (List.mem_append_right _ hmem)⟩⟩

/-- The recursive and the declarative reading of a log agree. -/
theorem lastSession_eq_some_iff {t : Bytes} {u : User} {c : ℤ} {log : SessionLog} :
    lastSession t log = some ⟨u, c⟩ ↔ LoggedIn t u c log := by
  induction log using List.reverseRecOn with
  | nil =>
      constructor
      · intro h
        cases h
      · rintro ⟨p, q, t', -, -, h⟩
        simp at h
  | append_singleton log x ih =>
      rw [lastSession_concat]
      constructor
      · intro h
        rcases remember_cases t (lastSession t log) x with
          ⟨u', t', c', rfl, ht, hr⟩ | ⟨t', a, rfl, ht, hr⟩ | ⟨hx, hr⟩
        · rw [hr] at h
          obtain ⟨rfl, rfl⟩ := Session.mk.inj (Option.some.inj h)
          exact ⟨log, [], t', ht, ⟨by simp, by simp⟩, rfl⟩
        · rw [hr] at h
          cases h
        · rw [hr] at h
          obtain ⟨p, q, t', ht, hq, rfl⟩ := ih.mp h
          exact ⟨p, q ++ [x], t', ht, hq.concat hx, by simp⟩
      · rintro ⟨p, q, t', ht, hq, heq⟩
        rcases List.eq_nil_or_concat q with rfl | ⟨q', y, rfl⟩
        · obtain ⟨-, hx⟩ := List.append_inj' heq rfl
          obtain rfl := List.singleton_inj.mp hx
          exact if_pos ht
        · rw [List.concat_eq_append, ← List.cons_append, ← List.append_assoc] at heq
          obtain ⟨hlog, hx⟩ := List.append_inj' heq rfl
          obtain rfl := List.singleton_inj.mp hx
          rw [List.concat_eq_append] at hq
          obtain ⟨hq', hx'⟩ := hq.of_concat
          have hlast := ih.mpr ⟨p, q', t', ht, hq', hlog⟩
          rcases remember_cases t (lastSession t log) x with
            ⟨u', t'', c', rfl, ht', -⟩ | ⟨t'', a, rfl, ht', -⟩ | ⟨-, hr⟩
          · exact absurd ht' (hx'.1 _ _ _ List.mem_cons_self)
          · exact absurd ht' (hx'.2 _ _ List.mem_cons_self)
          · rw [hr, hlast]

/-! ### What the table remembers -/

section platform

variable [Platform]

def SessionCall.run : SessionCall → App SessionAnswer
  | create user => do
      let token ← sessionCreate user
      let c ← Prog.askAt fun e w => e.clock (w.ctr.ticks - 1)
      pure (.created token c)
  | verify token => do
      let user ← sessionVerify token
      pure (.verified user)
  | destroy token => do
      sessionDestroy token
      pure .destroyed

/-- The table holds the session that the log says, unless it is expired for good. -/
structure Remembers (e : Env) (log : SessionLog) (w : World) : Prop where
  wf : w.sessions.WF
  get : ∀ t, htGet w.sessions (sessionKey t) = lastSession t log ∨
    (htGet w.sessions (sessionKey t) = none ∧ ∃ s, lastSession t log = some s ∧
      ∀ n, w.ctr.ticks ≤ n → e.clock n - s.createdAt > sessionMaxAge)

variable {e : Env} {log : SessionLog} {w w' : World}

/-- Evictions and the passing of time. -/
theorem Remembers.evict (he : Monotone e.clock) (hw : Remembers e log w) (h : Evicts e w w') :
    Remembers e log w' := by
  refine ⟨h.wf, fun t => ?_⟩
  have hticks := h.ticks
  rcases hw.get t with hget | ⟨hnone, s, hs, hexp⟩
  · rcases h.get (sessionKey t) with hsame | ⟨hnone, s, hs, i, -, hi, hexp⟩
    · exact Or.inl (hsame.trans hget)
    · refine Or.inr ⟨hnone, s, by rw [← hget, hs], fun n hn => ?_⟩
      have := he (show i ≤ n by omega)
      omega
  · exact Or.inr ⟨h.none hnone, s, hs, fun n hn => hexp n (by omega)⟩

theorem Remembers.step (he : Monotone e.clock) (hw : Remembers e log w) {k : SessionCall}
    {a : SessionAnswer} (h : k.run e w = (a, w')) : Remembers e (log ++ [(k, a)]) w' := by
  cases k with
  | create user =>
      obtain ⟨token, w₁, h₁, h₂⟩ := Prog.bind_run_iff.mp h
      obtain ⟨c, w₂, h₃, h₄⟩ := Prog.bind_run_iff.mp h₂
      obtain ⟨rfl, rfl⟩ := Prog.askAt_run_iff.mp h₃
      obtain ⟨rfl, rfl⟩ := Prog.pure_run_iff.mp h₄
      rcases sessionCreate_run hw.wf h₁ with
        ⟨rfl, hev⟩ | ⟨tok, w₂, rfl, -, hev, habs, -, hwf, hticks, hget⟩
      · have hev' := hw.evict he hev
        refine ⟨hev'.wf, fun t => ?_⟩
        rw [lastSession_concat]
        exact hev'.get t
      · have hev' := hw.evict he hev
        refine ⟨hwf, fun t => ?_⟩
        rw [lastSession_concat, hget]
        by_cases ht : cstr tok = cstr t
        · left
          rw [← sessionKey_eq_iff.mpr ht, Function.update_self, remember, if_pos ht, hticks,
            Nat.add_sub_cancel]
        · have hne : sessionKey t ≠ sessionKey tok := fun hk => ht (sessionKey_eq_iff.mp hk).symm
          rw [Function.update_of_ne hne, remember, if_neg ht]
          rcases hev'.get t with hsame | ⟨hnone, s, hs, hexp⟩
          · exact Or.inl hsame
          · exact Or.inr ⟨hnone, s, hs, fun n hn => hexp n (by omega)⟩
  | verify token =>
      obtain ⟨u, w₁, h₁, h₂⟩ := Prog.bind_run_iff.mp h
      obtain ⟨rfl, rfl⟩ := Prog.pure_run_iff.mp h₂
      have hev' := hw.evict he (sessionVerify_evicts hw.wf h₁)
      refine ⟨hev'.wf, fun t => ?_⟩
      rw [lastSession_concat]
      exact hev'.get t
  | destroy token =>
      obtain ⟨u, w₁, h₁, h₂⟩ := Prog.bind_run_iff.mp h
      obtain ⟨rfl, rfl⟩ := Prog.pure_run_iff.mp h₂
      obtain ⟨-, hwf, hctr, hget⟩ := sessionDestroy_run hw.wf h₁
      refine ⟨hwf, fun t => ?_⟩
      rw [lastSession_concat, hget, hctr]
      by_cases ht : cstr token = cstr t
      · left
        rw [← sessionKey_eq_iff.mpr ht, Function.update_self, remember, if_pos ht]
      · have hne : sessionKey t ≠ sessionKey token := fun hk => ht (sessionKey_eq_iff.mp hk).symm
        rw [Function.update_of_ne hne, remember, if_neg ht]
        exact hw.get t

theorem remembers (he : Monotone e.clock) {w₀ : World} {seed : UInt64} {tableOk poolOk : Bool}
    (h₀ : sessionInit seed tableOk poolOk = some w₀.sessions)
    (hrun : Run SessionCall.run e w₀ log w) : Remembers e log w := by
  refine hrun.invariant (I := Remembers e) ?_ ?_
  · obtain ⟨hwf, hnil⟩ := htCreate_wf h₀
    refine ⟨hwf, fun t => Or.inl ?_⟩
    rw [htGet_of_entries_nil hwf hnil]
    rfl
  · intro log w k a w' hw h
    exact hw.step he h

/-- `session_verify` accepts what the log accepts at the time of the call. -/
theorem Remembers.verify (hw : Remembers e log w) {t : Bytes} {out : Option User}
    (h : sessionVerify t e w = (out, w')) (u : User) :
    out = some u ↔ ∃ c, LoggedIn t u c log ∧ e.clock w.ctr.ticks - c ≤ sessionMaxAge := by
  constructor
  · rintro rfl
    rcases sessionVerify_run h with ⟨-, hu, -⟩ | ⟨s, hs, ⟨-, hu, -⟩ | ⟨hlive, hu, -⟩⟩
    · cases hu
    · cases hu
    · obtain rfl := Option.some.inj hu
      rcases hw.get t with hsame | ⟨hnone, -⟩
      · rw [hs] at hsame
        exact ⟨s.createdAt, lastSession_eq_some_iff.mp hsame.symm, hlive⟩
      · rw [hs] at hnone
        cases hnone
  · rintro ⟨c, hlog, hlive⟩
    have hlast := lastSession_eq_some_iff.mpr hlog
    have hs : htGet w.sessions (sessionKey t) = some ⟨u, c⟩ := by
      rcases hw.get t with hsame | ⟨-, s, hs, hexp⟩
      · rw [hsame, hlast]
      · rw [hlast] at hs
        obtain rfl := Option.some.inj hs
        have : e.clock w.ctr.ticks - c > sessionMaxAge := hexp _ le_rfl
        omega
    rcases sessionVerify_run h with ⟨hnone, -⟩ | ⟨s, hs', ⟨hexp, -⟩ | ⟨-, hu, -⟩⟩
    · rw [hs] at hnone
      cases hnone
    · rw [hs] at hs'
      obtain rfl := Option.some.inj hs'
      have : e.clock w.ctr.ticks - c > sessionMaxAge := hexp
      omega
    · rw [hs] at hs'
      obtain rfl := Option.some.inj hs'
      exact hu

/-- `session_create` keeps every session that is live at all the times it reads. -/
theorem sessionCreate_keeps (hw : w.sessions.WF) {user : User} {token : Option Bytes}
    (h : sessionCreate user e w = (token, w')) {key : Bytes} {s : Session}
    (hs : htGet w.sessions key = some s)
    (hlive : ∀ i, w.ctr.ticks ≤ i → i < w'.ctr.ticks → e.clock i - s.createdAt ≤ sessionMaxAge) :
    htGet w'.sessions key = some s := by
  -- an eviction would have read an expired time
  have hkept : ∀ w₁, Evicts e w w₁ → w₁.ctr.ticks ≤ w'.ctr.ticks →
      htGet w₁.sessions key = some s := by
    intro w₁ hev hticks
    rcases hev.get key with hsame | ⟨-, s', hs', i, hi, hi', hexp⟩
    · rw [hsame, hs]
    · rw [hs] at hs'
      obtain rfl := Option.some.inj hs'
      have := hlive i hi (by omega)
      omega
  rcases sessionCreate_run hw h with ⟨-, hev⟩ | ⟨t, w₁, -, -, hev, habs, -, -, hticks, hget⟩
  · exact hkept w' hev le_rfl
  · have hs₁ := hkept w₁ hev (by omega)
    have hne : key ≠ sessionKey t := by
      rintro rfl
      rw [hs₁] at habs
      cases habs
    rw [hget, Function.update_of_ne hne, hs₁]

/-- **The session store.**  After every run of its operations, `session_verify` accepts a token
for `u` exactly when the last creation that returned it was for `u`, at most `SESSION_MAX_AGE` ago
and with no destruction since; and `session_create` leaves every live session as it is. -/
theorem session_contract (he : Monotone e.clock) {w₀ : World} {seed : UInt64}
    {tableOk poolOk : Bool} (h₀ : sessionInit seed tableOk poolOk = some w₀.sessions)
    (hrun : Run SessionCall.run e w₀ log w) :
    (∀ t out w', sessionVerify t e w = (out, w') → ∀ u,
      out = some u ↔ ∃ c, LoggedIn t u c log ∧ e.clock w.ctr.ticks - c ≤ sessionMaxAge) ∧
    (∀ user token w', sessionCreate user e w = (token, w') → ∀ key s,
      htGet w.sessions key = some s →
      (∀ i, w.ctr.ticks ≤ i → i < w'.ctr.ticks → e.clock i - s.createdAt ≤ sessionMaxAge) →
      htGet w'.sessions key = some s) := by
  have hw := remembers he h₀ hrun
  constructor
  · intro t out w' h u
    exact hw.verify h u
  · intro user token w' h key s hs hlive
    exact sessionCreate_keeps hw.wf h hs hlive

end platform

/-- Two logins, the first of them ended, and one that finds its token taken. -/
def sampleSessionCalls : List SessionCall := [
  .create ⟨1, bytes "ada", [], [], bytes "Torino", .citizen⟩,
  .create ⟨2, bytes "bob", [], [], bytes "Torino", .operator⟩,
  .verify (bytes "aaaaaaaaaaaaaaaaaaaaaaaaaaaaaaa0"),
  .destroy (bytes "aaaaaaaaaaaaaaaaaaaaaaaaaaaaaaa0"),
  .create ⟨3, bytes "eva", [], [], bytes "Torino", .citizen⟩]

def noSessions : HashTable Session := ⟨List.replicate 101 [], 0, 101, 7, hashKey⟩

theorem sessionInit_noSessions : sessionInit 7 true true = some noSessions := rfl

/-- Every token is drawn twice. -/
def twiceEnv : @Env samplePlatform :=
  letI := samplePlatform
  { sampleEnv with token := fun n => sampleEnv.token (n / 2) }

theorem twiceClock_monotone : Monotone (@Env.clock samplePlatform twiceEnv) := sampleClock_monotone

/-- What the calls answer, and the state they leave. -/
def sampleSessionRun : SessionLog × @World samplePlatform :=
  letI := samplePlatform
  Run.exec SessionCall.run twiceEnv (emptyWorld noSessions) sampleSessionCalls

theorem run_sampleSessionRun :
    Run (@SessionCall.run samplePlatform) twiceEnv (@emptyWorld samplePlatform noSessions)
      sampleSessionRun.1 sampleSessionRun.2 := Run.of_exec _ _ _ _

theorem session_contract_sampleSessionRun :
    letI := samplePlatform
    (∀ t out w', sessionVerify t twiceEnv sampleSessionRun.2 = (out, w') → ∀ u,
      out = some u ↔ ∃ c, LoggedIn t u c sampleSessionRun.1 ∧
        twiceEnv.clock sampleSessionRun.2.ctr.ticks - c ≤ sessionMaxAge) ∧
    (sessionVerify (bytes "aaaaaaaaaaaaaaaaaaaaaaaaaaaaaaa1") twiceEnv sampleSessionRun.2).1 =
      some ⟨2, bytes "bob", [], [], bytes "Torino", .operator⟩ :=
  letI := samplePlatform
  ⟨(session_contract twiceClock_monotone sessionInit_noSessions run_sampleSessionRun).1,
    by decide +kernel⟩

end Segnalacity
