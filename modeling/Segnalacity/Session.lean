import Segnalacity.HashTable.Map
import Segnalacity.User

/-! # Sessions

`session.c`: a hash table from tokens to snapshots of the user taken at login.  The key of a
token is its C string with the NUL. -/

namespace Segnalacity

open CStr StateProg HashTable

def tokenHexLen : ℕ := 32

def sessionCookieName : Bytes := bytes "sid"

def sessionMaxAge : ℕ := 24 * 60 * 60

def sessionCreateMaxTries : ℕ := 5

def murmurRound (h : UInt64) (c : UInt8) : UInt64 :=
  let h := (h ^^^ c.toUInt64) * 0x5bd1e995
  h ^^^ (h >>> 15)

/-- `hash_key` of `server.c`, the hash function of every table. -/
def hashKey (key : Bytes) (seed : UInt64) : UInt64 :=
  let h := key.foldl murmurRound seed
  let h := (h ^^^ (h >>> 13)) * 0x85ebca6b
  h ^^^ (h >>> 16)

/-- `session_init`. -/
def sessionInit (seed : UInt64) (tableOk poolOk : Bool) : Option (HashTable Session) :=
  htCreate 0 hashKey seed tableOk poolOk

def sessionKey (token : Bytes) : Bytes := cstr token ++ [0]

theorem sessionKey_eq_iff {t t' : Bytes} : sessionKey t = sessionKey t' ↔ cstr t = cstr t' := by
  unfold sessionKey
  exact List.append_left_inj _

variable [Platform]

/-- `session_verify`; an expired session is deleted on the way. -/
def sessionVerify (token : Bytes) : App (Option User) := do
  let s ← Prog.view fun w => htGet w.sessions (sessionKey token)
  match s with
  | none => pure none
  | some s => do
      let t ← now
      if t - s.createdAt > sessionMaxAge then do
        Prog.update fun w => { w with sessions := (htDelete w.sessions (sessionKey token)).2 }
        pure none
      else pure (some s.user)

/-- The loop of `session_create`: a token that no live session has. -/
def freshToken : ℕ → App (Option Bytes)
  | 0 => pure none
  | tries + 1 => do
      let token ← generateToken
      let dummy ← sessionVerify token
      if dummy.isNone then pure (some token) else freshToken tries

/-- `session_create`: the token on success. -/
def sessionCreate (user : User) : App (Option Bytes) := do
  let token ← freshToken sessionCreateMaxTries
  match token with
  | none => pure none
  | some token => do
      let createdAt ← now
      let m ← nextSetAllocs
      let ok ← Prog.view fun w => (htSet w.sessions (sessionKey token) ⟨user, createdAt⟩ m).1
      Prog.update fun w =>
        { w with sessions := (htSet w.sessions (sessionKey token) ⟨user, createdAt⟩ m).2 }
      if ok then pure (some token) else pure none

def sessionDestroy (token : Bytes) : App Unit :=
  Prog.update fun w => { w with sessions := (htDelete w.sessions (sessionKey token)).2 }

/-! ### Runs -/

/-- What session operations leave alone. -/
structure SameData (w w' : World) : Prop where
  db : w'.db = w.db
  cache : w'.cache = w.cache
  calls : w'.ctr.calls = w.ctr.calls

theorem SameData.refl (w : World) : SameData w w := ⟨rfl, rfl, rfl⟩

theorem SameData.trans {w₁ w₂ w₃ : World} (h : SameData w₁ w₂) (h' : SameData w₂ w₃) :
    SameData w₁ w₃ := ⟨h'.db.trans h.db, h'.cache.trans h.cache, h'.calls.trans h.calls⟩

section runs
variable {e : Env} {w w' : World}

/-- `session_verify` reads the clock only for a stored session, and changes the table only by
deleting a session that this reading shows to be expired. -/
theorem sessionVerify_run {token : Bytes} {u : Option User}
    (h : sessionVerify token e w = (u, w')) :
    (htGet w.sessions (sessionKey token) = none ∧ u = none ∧ w' = w) ∨
      ∃ s, htGet w.sessions (sessionKey token) = some s ∧
        ((e.clock w.ctr.ticks - s.createdAt > sessionMaxAge ∧ u = none ∧
            w' = { w.tick with sessions := (htDelete w.sessions (sessionKey token)).2 }) ∨
          (e.clock w.ctr.ticks - s.createdAt ≤ sessionMaxAge ∧ u = some s.user ∧ w' = w.tick)) := by
  obtain ⟨s, w₁, h₁, h₂⟩ := Prog.bind_run_iff.mp h
  obtain ⟨rfl, rfl⟩ := Prog.view_run_iff.mp h₁
  cases hs : htGet w₁.sessions (sessionKey token) with
  | none =>
      simp only [hs] at h₂
      obtain ⟨rfl, rfl⟩ := Prog.pure_run_iff.mp h₂
      exact Or.inl ⟨rfl, rfl, rfl⟩
  | some s =>
      simp only [hs] at h₂
      obtain ⟨t, w₂, h₃, h₄⟩ := Prog.bind_run_iff.mp h₂
      obtain ⟨rfl, rfl⟩ := now_run h₃
      refine Or.inr ⟨s, rfl, ?_⟩
      rw [Prog.ite_run] at h₄
      split_ifs at h₄ with hexp
      · obtain ⟨_, w₃, h₅, h₆⟩ := Prog.bind_run_iff.mp h₄
        obtain rfl := Prog.update_run_iff.mp h₅
        obtain ⟨rfl, rfl⟩ := Prog.pure_run_iff.mp h₆
        exact Or.inl ⟨hexp, rfl, rfl⟩
      · obtain ⟨rfl, rfl⟩ := Prog.pure_run_iff.mp h₄
        exact Or.inr ⟨not_lt.mp hexp, rfl, rfl⟩

/-- What a call that only looks sessions up leaves: everything, less sessions that one of its own
clock readings shows to be expired. -/
structure Evicts (e : Env) (w w' : World) : Prop where
  data : SameData w w'
  wf : w'.sessions.WF
  ticks : w.ctr.ticks ≤ w'.ctr.ticks
  get : ∀ key, htGet w'.sessions key = htGet w.sessions key ∨
    (htGet w'.sessions key = none ∧ ∃ s, htGet w.sessions key = some s ∧
      ∃ i, w.ctr.ticks ≤ i ∧ i < w'.ctr.ticks ∧ e.clock i - s.createdAt > sessionMaxAge)

theorem Evicts.refl {e : Env} {w : World} (hw : w.sessions.WF) : Evicts e w w :=
  ⟨SameData.refl w, hw, le_rfl, fun _ => Or.inl rfl⟩

theorem Evicts.trans {w₁ w₂ w₃ : World} (h : Evicts e w₁ w₂) (h' : Evicts e w₂ w₃) :
    Evicts e w₁ w₃ := by
  refine ⟨h.data.trans h'.data, h'.wf, h.ticks.trans h'.ticks, fun key => ?_⟩
  have h₁ := h.ticks
  have h₂ := h'.ticks
  rcases h.get key with hsame | ⟨hnone, s, hs, i, hi, hi', hexp⟩
  · rcases h'.get key with hsame' | ⟨hnone', s, hs, i, hi, hi', hexp⟩
    · exact Or.inl (hsame'.trans hsame)
    · exact Or.inr ⟨hnone', s, by rw [← hsame, hs], i, by omega, hi', hexp⟩
  · have hnone' : htGet w₃.sessions key = none := by
      rcases h'.get key with hsame' | ⟨hnone', -⟩
      · rw [hsame', hnone]
      · exact hnone'
    exact Or.inr ⟨hnone', s, hs, i, hi, by omega, hexp⟩

/-- A key without a session stays without one. -/
theorem Evicts.none {w w' : World} (h : Evicts e w w') {key : Bytes}
    (hk : htGet w.sessions key = none) : htGet w'.sessions key = none := by
  rcases h.get key with hsame | ⟨hnone, -⟩
  · rw [hsame, hk]
  · exact hnone

/-- A session that is still there was there before. -/
theorem Evicts.some {w w' : World} (h : Evicts e w w') {key : Bytes} {s : Session}
    (hk : htGet w'.sessions key = some s) : htGet w.sessions key = some s := by
  rcases h.get key with hsame | ⟨hnone, -⟩
  · rw [← hsame, hk]
  · rw [hnone] at hk
    cases hk

/-- `session_verify`: a session not yet expired by the reading made, and evictions. -/
theorem sessionVerify_evicts {token : Bytes} {u : Option User} (hw : w.sessions.WF)
    (h : sessionVerify token e w = (u, w')) : Evicts e w w' := by
  rcases sessionVerify_run h with ⟨-, -, rfl⟩ | ⟨s, hs, ⟨hexp, -, rfl⟩ | ⟨-, -, rfl⟩⟩
  · exact Evicts.refl hw
  · obtain ⟨hf, -, hget⟩ := htDelete_spec hw (sessionKey token)
    refine ⟨⟨rfl, rfl, rfl⟩, hf.wf, Nat.le_succ _, fun key => ?_⟩
    show htGet (htDelete w.sessions (sessionKey token)).2 key = _ ∨ _
    rw [hget]
    by_cases hk : key = sessionKey token
    · subst hk
      right
      exact ⟨hget ▸ Function.update_self .., s, hs, w.ctr.ticks, le_rfl, Nat.lt_succ_self _, hexp⟩
    · left
      exact Function.update_of_ne hk _ _
  · exact ⟨⟨rfl, rfl, rfl⟩, hw, Nat.le_succ _, fun _ => Or.inl rfl⟩

theorem sessionVerify_none {token : Bytes} (hw : w.sessions.WF)
    (h : sessionVerify token e w = (none, w')) : htGet w'.sessions (sessionKey token) = none := by
  rcases sessionVerify_run h with ⟨hn, -, rfl⟩ | ⟨s, hs, ⟨-, -, rfl⟩ | ⟨-, hu, -⟩⟩
  · exact hn
  · show htGet (htDelete w.sessions (sessionKey token)).2 _ = _
    rw [(htDelete_spec hw _).2.2]
    exact Function.update_self ..
  · cases hu

/-- The token drawn has no session when the drawing ends. -/
theorem freshToken_run {tries : ℕ} {token : Option Bytes} (hw : w.sessions.WF)
    (h : freshToken tries e w = (token, w')) :
    Evicts e w w' ∧ ∀ t ∈ token, (∃ f, t = hexString f) ∧
      htGet w'.sessions (sessionKey t) = none := by
  induction tries generalizing w with
  | zero =>
      obtain ⟨rfl, rfl⟩ := Prog.pure_run_iff.mp h
      exact ⟨Evicts.refl hw, by simp⟩
  | succ tries ih =>
      obtain ⟨t, w₁, h₁, h₂⟩ := Prog.bind_run_iff.mp h
      obtain ⟨rfl, rfl⟩ := generateToken_run h₁
      obtain ⟨dummy, w₂, h₃, h₄⟩ := Prog.bind_run_iff.mp h₂
      -- drawing a token only moves the counter of tokens
      have hev : Evicts e w w₂ := by
        have hev₁ := sessionVerify_evicts (w := { w with ctr := { w.ctr with
          tokens := w.ctr.tokens + 1 } }) hw h₃
        exact ⟨⟨hev₁.data.db, hev₁.data.cache, hev₁.data.calls⟩, hev₁.wf, hev₁.ticks, hev₁.get⟩
      cases dummy with
      | none =>
          obtain ⟨rfl, rfl⟩ := Prog.pure_run_iff.mp h₄
          refine ⟨hev, ?_⟩
          rintro t ⟨⟩
          exact ⟨⟨_, rfl⟩, sessionVerify_none (w := { w with
            ctr := { w.ctr with tokens := w.ctr.tokens + 1 } }) hw h₃⟩
      | some u =>
          obtain ⟨hev', ht⟩ := ih hev.wf h₄
          exact ⟨hev.trans hev', ht⟩

/-- `session_create`: evictions, then a session under a key that has none, unless memory runs
out. -/
theorem sessionCreate_run {user : User} {token : Option Bytes} (hw : w.sessions.WF)
    (h : sessionCreate user e w = (token, w')) :
    (token = none ∧ Evicts e w w') ∨
      ∃ t w₁, token = some t ∧ (∃ f, t = hexString f) ∧ Evicts e w w₁ ∧
        htGet w₁.sessions (sessionKey t) = none ∧ SameData w w' ∧ w'.sessions.WF ∧
        w'.ctr.ticks = w₁.ctr.ticks + 1 ∧ htGet w'.sessions =
          Function.update (htGet w₁.sessions) (sessionKey t) (some ⟨user, e.clock w₁.ctr.ticks⟩) := by
  obtain ⟨token₁, w₁, h₁, h₂⟩ := Prog.bind_run_iff.mp h
  obtain ⟨hev, htok⟩ := freshToken_run hw h₁
  cases token₁ with
  | none =>
      obtain ⟨rfl, rfl⟩ := Prog.pure_run_iff.mp h₂
      exact Or.inl ⟨rfl, hev⟩
  | some t =>
      obtain ⟨hhex, habs⟩ := htok t rfl
      obtain ⟨c, w₂, h₃, h₄⟩ := Prog.bind_run_iff.mp h₂
      obtain ⟨rfl, rfl⟩ := now_run h₃
      obtain ⟨m, w₃, h₅, h₆⟩ := Prog.bind_run_iff.mp h₄
      obtain ⟨rfl, rfl⟩ := nextSetAllocs_run h₅
      obtain ⟨ok, w₄, h₇, h₈⟩ := Prog.bind_run_iff.mp h₆
      obtain ⟨rfl, rfl⟩ := Prog.view_run_iff.mp h₇
      obtain ⟨_, w₅, h₉, h₁₀⟩ := Prog.bind_run_iff.mp h₈
      obtain rfl := Prog.update_run_iff.mp h₉
      obtain ⟨hf, hget⟩ := htSet_spec hev.wf (sessionKey t) ⟨user, e.clock w₁.ctr.ticks⟩
        (e.setAllocs w₁.tick.ctr.sets)
      rw [Prog.ite_run] at h₁₀
      split_ifs at h₁₀ with hok
      · obtain ⟨rfl, rfl⟩ := Prog.pure_run_iff.mp h₁₀
        right
        refine ⟨t, w₁, rfl, hhex, hev, habs, ⟨hev.data.db, hev.data.cache, hev.data.calls⟩, hf.wf, rfl, ?_⟩
        refine hget.trans (if_pos ?_)
        exact hok
      · obtain ⟨rfl, rfl⟩ := Prog.pure_run_iff.mp h₁₀
        left
        have hsame := hget.trans (if_neg hok)
        refine ⟨rfl, hev.trans ⟨⟨rfl, rfl, rfl⟩, hf.wf, Nat.le_succ _, fun key => Or.inl ?_⟩⟩
        exact congrFun hsame key

theorem sessionDestroy_run {token : Bytes} {u : Unit} (hw : w.sessions.WF)
    (h : sessionDestroy token e w = (u, w')) :
    SameData w w' ∧ w'.sessions.WF ∧ w'.ctr = w.ctr ∧
      htGet w'.sessions = Function.update (htGet w.sessions) (sessionKey token) none := by
  obtain rfl := Prog.update_run_iff.mp h
  obtain ⟨hf, -, hget⟩ := htDelete_spec hw (sessionKey token)
  exact ⟨⟨rfl, rfl, rfl⟩, hf.wf, rfl, hget⟩

end runs

end Segnalacity
