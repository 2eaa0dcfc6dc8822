import Segnalacity.Lib.StateProg
import Segnalacity.Server.Steps

/-! # Contexts and write requests as memory

What the log of the calls says.  `Made s c` is what is true of the state once `c` has been made;
it stays true, so no call is made twice, and a context has been released as soon as both close
callbacks have run on it. -/

namespace Segnalacity

open CStr Http Dll
open StateProg (guardedRun guardedRun_induction)

namespace Server

variable {σ : Type}

def Made (s : Server σ) : Call → Prop
  | .release p => p < s.contexts ∧ (s.handles p).Done
  | .uvClose p t => p < s.contexts ∧ (s.handles p).closeState t ≠ .opened
  | .free id => id < s.requests ∧ s.req id = none
  | .writeError p id => p < s.contexts ∧ id < s.requests

structure Logged (s : Server σ) : Prop where
  nodup : s.calls.Nodup
  made : ∀ c ∈ s.calls, Made s c
  release : ∀ p, Made s (.release p) → .release p ∈ s.calls

/-- `s'` has logged `new` after `s`. -/
structure Adds (s s' : Server σ) (new : List Call) : Prop where
  calls : s'.calls = s.calls ++ new
  nodup : new.Nodup
  first : ∀ c ∈ new, ¬ Made s c
  made : ∀ c ∈ new, Made s' c
  stays : ∀ c, Made s c → Made s' c
  release : ∀ p, Made s' (.release p) → Made s (.release p) ∨ .release p ∈ new

theorem Logged.adds {s s' : Server σ} {new : List Call} (hl : Logged s) (ha : Adds s s' new) :
    Logged s' := by
  refine ⟨?_, fun c hc => ?_, fun p hp => ?_⟩
  · rw [ha.calls]
    refine List.nodup_append.mpr ⟨hl.nodup, ha.nodup, fun c hc d hd hcd => ?_⟩
    exact ha.first d hd (hl.made d (hcd ▸ hc))
  · rw [ha.calls] at hc
    rcases List.mem_append.mp hc with hc | hc
    · exact ha.stays c (hl.made c hc)
    · exact ha.made c hc
  · rw [ha.calls]
    rcases ha.release p hp with hp | hp
    · exact List.mem_append_left _ (hl.release p hp)
    · exact List.mem_append_right _ hp

theorem Adds.refl (s : Server σ) : Adds s s [] :=
  ⟨(List.append_nil _).symm, List.nodup_nil, fun _ h => absurd h List.not_mem_nil,
    fun _ h => absurd h List.not_mem_nil, fun _ h => h, fun _ h => .inl h⟩

/-! ### Moves -/

section moves
variable {s s' : Server σ} {p n n' : ℕ} {req req' : ℕ → Option Server.WriteReq}
  {c c' : ClientCtx} {h h' : Handles} {new : List Call}

theorem Move.requests_le (hm : Move p req n c h c' h' req' n' new) : n ≤ n' := by
  cases hm with
  | submit | refuse => exact Nat.le_succ n
  | _ => exact le_rfl

theorem Move.req_none (hm : Move p req n c h c' h' req' n' new) {id : ℕ} (hid : id < n)
    (hnone : req id = none) : req' id = none := by
  have hadded : ∀ v, Function.update req n (some v) id = none := by
    intro v
    rw [Function.update_of_ne hid.ne]
    exact hnone
  have hfreed : ∀ id', Function.update req id' none id = none := by
    intro id'
    by_cases heq : id = id'
    · rw [heq, Function.update_self]
    · rw [Function.update_of_ne heq]
      exact hnone
  cases hm with
  | data | close | closed => exact hnone
  | submit v | refuse v => exact hadded v
  | complete | resume | finish => exact hfreed _

theorem Move.closeState (hm : Move p req n c h c' h' req' n' new) {t : HandleType}
    (ht : h.closeState t ≠ .opened) : h'.closeState t ≠ .opened := by
  cases hm with
  | close | finish => cases t <;> exact CloseState.noConfusion
  | closed t' => cases t <;> cases t' <;> first | exact CloseState.noConfusion | exact ht
  | _ => cases t <;> exact ht

theorem Owned.held {id : ℕ} {rest : List ℕ} (hown : Owned req p h) (hw : h.writes = id :: rest) :
    req id ≠ none := by
  obtain ⟨w, hreq, -⟩ := hown.2 id (hw ▸ List.mem_cons_self)
  rw [hreq]
  exact Option.some_ne_none w

/-- What a move may log. -/
theorem Move.logged (hm : Move p req n c h c' h' req' n' new) (hp : Phase (some c) h)
    (hown : Owned req p h) (hfresh : ∀ id, n ≤ id → req id = none) :
    new.Nodup ∧ ∀ d ∈ new,
      (∃ t, d = .uvClose p t ∧ h.closeState t = .opened ∧ h'.closeState t ≠ .opened) ∨
      (∃ id, d = .free id ∧ req id ≠ none ∧ id < n' ∧ req' id = none) ∨
      d = .writeError p n ∧ n < n' := by
  have hclose : c.closing = false → ∀ t, h.closeState t = .opened := by
    intro hc t
    obtain ⟨htcp, htimer, -⟩ := hp.opened hc
    cases t with
    | tcp => exact htcp
    | timer => exact htimer
  have hfreed : ∀ {id rest}, h.writes = id :: rest →
      req id ≠ none ∧ id < n ∧ Function.update req id none id = none := by
    intro id rest hw
    exact ⟨hown.held hw, hown.lt hfresh (hw ▸ List.mem_cons_self), Function.update_self _ _ _⟩
  cases hm with
  | data | submit | closed => exact ⟨List.nodup_nil, fun d hd => absurd hd List.not_mem_nil⟩
  | close hc =>
      refine ⟨by simp, fun d hd => .inl ?_⟩
      rcases List.mem_pair.mp hd with rfl | rfl
      · exact ⟨.tcp, rfl, hclose hc .tcp, CloseState.noConfusion⟩
      · exact ⟨.timer, rfl, hclose hc .timer, CloseState.noConfusion⟩
  | refuse w _ =>
      refine ⟨List.nodup_singleton _, fun d hd => .inr (.inr ?_)⟩
      exact ⟨List.mem_singleton.mp hd, Nat.lt_succ_self n⟩
  | complete _ _ _ hw | resume _ _ _ hw =>
      refine ⟨List.nodup_singleton _, fun d hd => .inr (.inl ?_)⟩
      exact ⟨_, List.mem_singleton.mp hd, hfreed hw⟩
  | finish hc hw =>
      refine ⟨by simp, fun d hd => ?_⟩
      rcases List.mem_cons.mp hd with rfl | hd
      · exact .inr (.inl ⟨_, rfl, hfreed hw⟩)
      rcases List.mem_pair.mp hd with rfl | rfl
      · exact .inl ⟨.tcp, rfl, hclose hc .tcp, CloseState.noConfusion⟩
      · exact .inl ⟨.timer, rfl, hclose hc .timer, CloseState.noConfusion⟩

theorem Inv.adds_move (hs : Inv s) (hc : s.ctx p = some c)
    (hm : Move p s.req s.requests c (s.handles p) c' h' req' n' new) :
    Adds s { s with
      ctx := Function.update s.ctx p (some c')
      handles := Function.update s.handles p h'
      req := req'
      requests := n'
      calls := s.calls ++ new } new := by
  have hphase := hs.phase_of hc
  obtain ⟨hnodup, hnew⟩ := hm.logged hphase (hs.owned p) hs.fresh
  refine ⟨rfl, hnodup, fun d hd => ?_, fun d hd => ?_, fun d hd => ?_, fun q hq => .inl ?_⟩
  · rcases hnew d hd with ⟨t, rfl, ht, -⟩ | ⟨id, rfl, hid, -⟩ | ⟨rfl, -⟩
    · exact fun hmade => hmade.2 ht
    · exact fun hmade => hid hmade.2
    · exact fun hmade => lt_irrefl s.requests hmade.2
  · rcases hnew d hd with ⟨t, rfl, -, ht⟩ | ⟨id, rfl, -, hid⟩ | ⟨rfl, hn⟩
    · refine ⟨hs.lt hc, ?_⟩
      show (Function.update s.handles p h' p).closeState t ≠ .opened
      rw [Function.update_self]
      exact ht
    · exact hid
    · exact ⟨hs.lt hc, hn⟩
  · cases d with
    | release q =>
        obtain ⟨hq, hdone⟩ := hd
        refine ⟨hq, ?_⟩
        show (Function.update s.handles p h' q).Done
        by_cases hqp : q = p
        · rw [hqp] at hdone
          exact absurd hdone hphase.not_done
        · rw [Function.update_of_ne hqp]
          exact hdone
    | uvClose q t =>
        obtain ⟨hq, ht⟩ := hd
        refine ⟨hq, ?_⟩
        show (Function.update s.handles p h' q).closeState t ≠ .opened
        by_cases hqp : q = p
        · rw [hqp, Function.update_self]
          exact hm.closeState (hqp ▸ ht)
        · rw [Function.update_of_ne hqp]
          exact ht
    | free id => exact ⟨lt_of_lt_of_le hd.1 hm.requests_le, hm.req_none hd.1 hd.2⟩
    | writeError q id => exact ⟨hd.1, lt_of_lt_of_le hd.2 hm.requests_le⟩
  · obtain ⟨hlt, hdone⟩ := hq
    refine ⟨hlt, ?_⟩
    have hdone' : (Function.update s.handles p h' q).Done := hdone
    by_cases hqp : q = p
    · rw [hqp, Function.update_self] at hdone'
      exact absurd hdone' (hm.phase hphase).not_done
    · rw [Function.update_of_ne hqp] at hdone'
      exact hdone'

end moves

/-! ### Steps -/

section steps
variable {s s' : Server σ} {p : ℕ} {c : ClientCtx}

theorem Handles.closeState_close {h : Handles} {t t' : HandleType}
    (ht : h.closeState t' ≠ .opened) : (Handles.close t .done h).closeState t' ≠ .opened := by
  cases t <;> cases t' <;> first | exact CloseState.noConfusion | exact ht

theorem Inv.adds_last (hs : Inv s) {t : HandleType} {ctx' : ℕ → Option ClientCtx}
    {head : Option ℕ} (hc : s.ctx p = some c) (ht : (s.handles p).closeState t = .pending)
    (htcp : t = .tcp → (s.handles p).writes = []) (hzero : decrement c.pendingCloses = 0) :
    Adds s { s with
      ctx := ctx'
      handles := Function.update s.handles p (Handles.close t .done (s.handles p))
      activeClientsHead := head
      activeClientsCount := s.activeClientsCount - 1
      calls := s.calls ++ [.release p] } [.release p] := by
  have hphase := hs.phase_of hc
  have hdone := (hphase.last ht htcp hzero).gone_done.1
  refine ⟨rfl, List.nodup_singleton _, fun d hd => ?_, fun d hd => ?_, fun d hd => ?_,
    fun q hq => ?_⟩
  · rw [List.mem_singleton.mp hd]
    exact fun hmade => hphase.not_done hmade.2
  · rw [List.mem_singleton.mp hd]
    refine ⟨hs.lt hc, ?_⟩
    show (Function.update s.handles p _ p).Done
    rw [Function.update_self]
    exact hdone
  · cases d with
    | release q =>
        refine ⟨hd.1, ?_⟩
        show (Function.update s.handles p _ q).Done
        by_cases hqp : q = p
        · rw [hqp, Function.update_self]
          exact hdone
        · rw [Function.update_of_ne hqp]
          exact hd.2
    | uvClose q t' =>
        refine ⟨hd.1, ?_⟩
        show (Function.update s.handles p _ q).closeState t' ≠ .opened
        by_cases hqp : q = p
        · rw [hqp, Function.update_self]
          exact Handles.closeState_close (hqp ▸ hd.2)
        · rw [Function.update_of_ne hqp]
          exact hd.2
    | free | writeError => exact hd
  · by_cases hqp : q = p
    · exact .inr (hqp ▸ List.mem_singleton_self _)
    · have hdone' : (Function.update s.handles p _ q).Done := hq.2
      rw [Function.update_of_ne hqp] at hdone'
      exact .inl ⟨hq.1, hdone'⟩

theorem adds_discard (s : Server σ) :
    Adds s { s with
      req := Function.update s.req s.requests none
      requests := s.requests + 1
      calls := s.calls ++ [.free s.requests] } [.free s.requests] := by
  refine ⟨rfl, List.nodup_singleton _, fun d hd => ?_, fun d hd => ?_, fun d hd => ?_,
    fun q hq => .inl hq⟩
  · rw [List.mem_singleton.mp hd]
    exact fun hmade => lt_irrefl _ hmade.1
  · rw [List.mem_singleton.mp hd]
    exact ⟨Nat.lt_succ_self _, Function.update_self _ _ _⟩
  · cases d with
    | release | uvClose => exact hd
    | free id =>
        obtain ⟨hid, hnone⟩ := hd
        refine ⟨Nat.lt_succ_of_lt hid, ?_⟩
        show Function.update s.req s.requests none id = none
        rw [Function.update_of_ne hid.ne]
        exact hnone
    | writeError q id => exact ⟨hd.1, Nat.lt_succ_of_lt hd.2⟩

theorem Inv.adds (hs : Inv s) (he : Effect s s') : ∃ new, Adds s s' new := by
  cases he with
  | background responseBuffer app =>
      exact ⟨[], (List.append_nil _).symm, List.nodup_nil, fun _ h => absurd h List.not_mem_nil,
        fun _ h => absurd h List.not_mem_nil, fun d hd => by cases d <;> exact hd,
        fun _ h => .inl h⟩
  | discard => exact ⟨_, adds_discard s⟩
  | move hc hm _ _ => exact ⟨_, hs.adds_move hc hm⟩
  | last t hc ht htcp hzero _ _ => exact ⟨_, hs.adds_last hc ht htcp hzero⟩

/-- A context more, whose number no call has named. -/
theorem Adds.arrival {new : List Call} {ctx' : ℕ → Option ClientCtx} {h : Handles}
    {head : Option ℕ} {count : ℤ} {waiting : Bool} (hnot : ¬ h.Done) (hnodup : new.Nodup)
    (hnew : ∀ d ∈ new, ∃ t, d = .uvClose s.contexts t ∧ h.closeState t ≠ .opened) :
    Adds s { s with
      ctx := ctx'
      contexts := s.contexts + 1
      handles := Function.update s.handles s.contexts h
      activeClientsHead := head
      activeClientsCount := count
      waiting := waiting
      calls := s.calls ++ new } new := by
  refine ⟨rfl, hnodup, fun d hd => ?_, fun d hd => ?_, fun d hd => ?_, fun q hq => .inl ?_⟩
  · obtain ⟨t, rfl, -⟩ := hnew d hd
    exact fun hmade => lt_irrefl _ hmade.1
  · obtain ⟨t, rfl, ht⟩ := hnew d hd
    refine ⟨Nat.lt_succ_self _, ?_⟩
    show (Function.update s.handles s.contexts h s.contexts).closeState t ≠ .opened
    rw [Function.update_self]
    exact ht
  · cases d with
    | release q =>
        refine ⟨Nat.lt_succ_of_lt hd.1, ?_⟩
        show (Function.update s.handles s.contexts h q).Done
        rw [Function.update_of_ne hd.1.ne]
        exact hd.2
    | uvClose q t =>
        refine ⟨Nat.lt_succ_of_lt hd.1, ?_⟩
        show (Function.update s.handles s.contexts h q).closeState t ≠ .opened
        rw [Function.update_of_ne hd.1.ne]
        exact hd.2
    | free => exact hd
    | writeError => exact ⟨Nat.lt_succ_of_lt hd.1, hd.2⟩
  · obtain ⟨hlt, hdone⟩ := hq
    have hlt' : q < s.contexts + 1 := hlt
    have hdone' : (Function.update s.handles s.contexts h q).Done := hdone
    by_cases hqn : q = s.contexts
    · rw [hqn, Function.update_self] at hdone'
      exact absurd hdone' hnot
    · rw [Function.update_of_ne hqn] at hdone'
      exact ⟨by omega, hdone'⟩

theorem Arrival.adds {a b : Bool} (ha : Arrival a b s s') : ∃ new, Adds s s' new := by
  cases ha with
  | full => exact ⟨[], .refl s⟩
  | noMemory => exact ⟨[], .refl s⟩
  | @admitted ctx' =>
      have hadds : Adds s { s with
          ctx := ctx'
          contexts := s.contexts + 1
          handles := Function.update s.handles s.contexts ⟨true, true, true, [], .opened, .opened⟩
          activeClientsHead := some s.contexts
          activeClientsCount := s.activeClientsCount + 1
          waiting := false
          calls := s.calls ++ [] } [] :=
        .arrival (fun h => by cases h.1) List.nodup_nil fun _ h => absurd h List.not_mem_nil
      rw [List.append_nil] at hadds
      exact ⟨[], hadds⟩
  | refused =>
      refine ⟨_, Adds.arrival (fun h => by cases h.1) (by simp) fun d hd => ?_⟩
      rcases List.mem_pair.mp hd with rfl | rfl
      · exact ⟨.tcp, rfl, CloseState.noConfusion⟩
      · exact ⟨.timer, rfl, CloseState.noConfusion⟩

theorem Adds.mem {new : List Call} (ha : Adds s s' new) {d : Call} (hd : d ∈ s.calls) :
    d ∈ s'.calls := by
  rw [ha.calls]
  exact List.mem_append_left _ hd

theorem Logged.effects (hs : Inv s) (hl : Logged s) (he : Effects s s') :
    Logged s' ∧ ∀ d ∈ s.calls, d ∈ s'.calls := by
  induction he with
  | refl => exact ⟨hl, fun _ hd => hd⟩
  | tail hes he ih =>
      obtain ⟨hl', hmem⟩ := ih
      obtain ⟨new, ha⟩ := (hs.effects hes).adds he
      exact ⟨hl'.adds ha, fun d hd => ha.mem (hmem d hd)⟩

/-- The listener's flags are in no call. -/
theorem Logged.listener (hl : Logged s) (waiting stopped : Bool) :
    Logged { s with waiting := waiting, stopped := stopped } :=
  ⟨hl.nodup, fun d hd => by cases d <;> exact hl.made _ hd, fun p hp => hl.release p hp⟩

theorem Logged.does (hs : Inv s) (hl : Logged s) {cb : Callback} (hdoes : Does s cb s') :
    Logged s' ∧ ∀ d ∈ s.calls, d ∈ s'.calls := by
  cases hdoes with
  | failed => exact ⟨hl.listener false s.stopped, fun _ hd => hd⟩
  | arrival _ harrival =>
      obtain ⟨new, ha⟩ := harrival.adds
      exact ⟨(hl.listener true s.stopped).adds ha, fun d hd => ha.mem hd⟩
  | client _ heffects => exact hl.effects hs heffects
  | @shutdown s₁ heffects =>
      obtain ⟨hl₁, hmem⟩ := hl.effects hs heffects
      exact ⟨hl₁.listener s₁.waiting true, hmem⟩

theorem logged_start (responseBuffer : Bytes) (app : σ) : Logged (start responseBuffer app) :=
  ⟨List.nodup_nil, fun _ hd => absurd hd List.not_mem_nil,
    fun p hp => absurd hp.1 (Nat.not_lt_zero p)⟩

end steps

/-! ### Runs -/

section runs
variable {svc : Services σ} {s₀ s : Server σ} {cbs : List Callback}

theorem Trace.logged (h₀ : Inv s₀) (hl : Logged s₀) (h : Trace svc s₀ cbs s) : Logged s := by
  induction h with
  | nil => exact hl
  | snoc htrace hallowed hstep ih =>
      exact (ih.does (htrace.inv h₀) (does_of_step svc (htrace.inv h₀) hallowed hstep)).1

theorem Trace.freed (h₀ : Inv s₀) (hl : Logged s₀) (h : Trace svc s₀ cbs s) {p id : ℕ}
    {ok : Bool} (hcb : .written p id ok ∈ cbs) : .free id ∈ s.calls := by
  induction h with
  | nil => exact absurd hcb List.not_mem_nil
  | @snoc cbs s s' cb htrace hallowed hstep ih =>
      have hs := htrace.inv h₀
      rcases List.mem_append.mp hcb with hcb | hcb
      · exact ((htrace.logged h₀ hl).does hs (does_of_step svc hs hallowed hstep)).2 _ (ih hcb)
      · obtain rfl := List.mem_singleton.mp hcb
        obtain ⟨rest, hw⟩ := List.head?_eq_some_iff.mp hallowed
        obtain ⟨s₁, hrun, -, hfree⟩ := onWriteComplete_runs hs hw ok
        have hsame : some s' = some s₁ := hstep.symm.trans hrun
        rw [Option.some.inj hsame]
        exact hfree

end runs

/-! ### Memory safety -/

/-- The context whose handles a callback is about. -/
def Callback.subject : Callback → Option ℕ
  | .connection _ _ _ => none
  | .readable p _ _ _ => some p
  | .readError p _ _ => some p
  | .written p _ _ => some p
  | .timeout p => some p
  | .closed p _ => some p
  | .shutdown => none

theorem Inv.silent {s : Server σ} (hs : Inv s) {p : ℕ} (hp : p < s.contexts)
    (hdone : (s.handles p).Done) :
    s.ctx p = none ∧ ∀ cb, cb.subject = some p → ¬ Allowed s cb := by
  have hnone : s.ctx p = none := by
    cases hc : s.ctx p with
    | none => rfl
    | some c => exact absurd hdone (hs.phase_of hc).not_done
  have hphase := hs.phase p hp
  rw [hnone] at hphase
  obtain ⟨-, hwrites, hreading, htimer⟩ := hphase.gone_done
  refine ⟨hnone, fun cb hcb hallowed => ?_⟩
  cases cb with
  | connection | shutdown => cases hcb
  | readable q =>
      obtain rfl := Option.some.inj hcb
      exact absurd (hallowed.1.symm.trans hreading) Bool.noConfusion
  | readError q =>
      obtain rfl := Option.some.inj hcb
      exact absurd (hallowed.1.symm.trans hreading) Bool.noConfusion
  | written q id ok =>
      obtain rfl := Option.some.inj hcb
      have hhead : (s.handles q).writes.head? = some id := hallowed
      rw [hwrites] at hhead
      cases hhead
  | timeout q =>
      obtain rfl := Option.some.inj hcb
      exact absurd (Eq.trans (Eq.symm hallowed) htimer) Bool.noConfusion
  | closed q t =>
      obtain rfl := Option.some.inj hcb
      cases t with
      | tcp => exact absurd (hdone.1.symm.trans hallowed.1) CloseState.noConfusion
      | timer => exact absurd (hdone.2.symm.trans hallowed.1) CloseState.noConfusion

/-- In every run: what libuv may report next has a result, so it touches no block that has been
given back; no context is released, no handle closed and no request freed twice; a context is
released once both close callbacks have run, and libuv has nothing more to report on it; every
request that has been completed is freed. -/
theorem memory_safe (svc : Services σ) (responseBuffer : Bytes) (app : σ) {s : Server σ}
    {cbs : List Callback} (h : Trace svc (start responseBuffer app) cbs s) :
    (∀ cb, Allowed s cb → ∃ s', step svc cb s = some s') ∧
      s.calls.Nodup ∧
      (∀ p, .release p ∈ s.calls ↔ p < s.contexts ∧ (s.handles p).Done) ∧
      (∀ p, .release p ∈ s.calls →
        s.ctx p = none ∧ ∀ cb, cb.subject = some p → ¬ Allowed s cb) ∧
      ∀ p id ok, .written p id ok ∈ cbs → .free id ∈ s.calls := by
  have h₀ := inv_start responseBuffer app
  have hl₀ := logged_start responseBuffer app
  have hs := h.inv h₀
  have hl := h.logged h₀ hl₀
  have hrelease : ∀ p, .release p ∈ s.calls ↔ p < s.contexts ∧ (s.handles p).Done :=
    fun p => ⟨hl.made _, hl.release p⟩
  refine ⟨fun cb hallowed => ?_, hl.nodup, hrelease, fun p hp => ?_, fun p id ok hcb =>
    h.freed h₀ hl₀ hcb⟩
  · obtain ⟨s', hrun, -⟩ := step_runs svc hs hallowed
    exact ⟨s', hrun⟩
  · obtain ⟨hlt, hdone⟩ := (hrelease p).mp hp
    exact hs.silent hlt hdone

/-! ### A run with two clients -/

/-- One callback more. -/
theorem Trace.andThen {svc : Services σ} {s₀ s s' : Server σ} {cbs : List Callback}
    (h : Trace svc s₀ cbs s) (cb : Callback) (hallowed : Allowed s cb)
    (hstep : step svc cb s = some s') : Trace svc s₀ (cbs ++ [cb]) s' :=
  .snoc h hallowed hstep

/-- Services that let every request through and answer it with what the buffer holds. -/
def echo : Services Unit where
  rateLimitCheck := fun app => (true, app)
  handleRequest := fun _ resp app => (resp, app)

/-- The server with one client that has sent nothing yet. -/
def oneClient : Server Unit :=
  (step echo (.connection 0 true true) (start [] ())).getD (start [] ())

theorem trace_oneClient : Trace echo (start [] ()) [.connection 0 true true] oneClient :=
  Trace.andThen .nil (.connection 0 true true) ⟨rfl, rfl⟩ rfl

/-- The callbacks one after the other, as long as libuv may report them. -/
def runLoop (svc : Services σ) : List Callback → Server σ → Option (Server σ) :=
  guardedRun Allowed (step svc)

theorem Trace.runLoop {svc : Services σ} {s₀ s s' : Server σ} {before cbs : List Callback}
    (h : Trace svc s₀ before s) (hrun : Server.runLoop svc cbs s = some s') :
    Trace svc s₀ (before ++ cbs) s' :=
  guardedRun_induction (fun _ _ _ _ ht hallowed hstep => .snoc ht hallowed hstep) h hrun

/-- `text` arrives from client `p`; an answer goes out. -/
def readText (p : ℕ) (text : String) : Callback :=
  .readable p (some (List.replicate clientBufferSize 0)) ⟨true, true⟩ (bytes text)

/-- Two clients connect and a third connection fails in `uv_accept`; the first client is answered
and leaves, one of the two close callbacks of the third has run, and the answer to the second client
is on its way. -/
def mixedCallbacks : List Callback :=
  [.connection 0 true true, .connection 0 true true, .connection 0 true false,
    readText 0 "GET / HTTP/1.1\x0d\n\x0d\n", .closed 2 .tcp, .written 0 0 true,
    .closed 0 .tcp, .closed 0 .timer, readText 1 "GET / HTTP/1.1\x0d\n\x0d\n"]

def mixed : Server Unit := (runLoop echo mixedCallbacks (start [] ())).getD (start [] ())

theorem runLoop_mixed : runLoop echo mixedCallbacks (start [] ()) = some mixed := by
  have hsome : (runLoop echo mixedCallbacks (start [] ())).isSome = true := by decide +kernel
  obtain ⟨s, hrun⟩ := Option.isSome_iff_exists.mp hsome
  rw [mixed, hrun, Option.getD_some]

theorem trace_mixed : Trace echo (start [] ()) mixedCallbacks mixed :=
  Trace.nil.runLoop runLoop_mixed

theorem mixed_state : mixed.contexts = 3 ∧
    mixed.handles 0 = ⟨true, false, false, [], .done, .done⟩ ∧
    mixed.handles 1 = ⟨true, false, false, [1], .opened, .opened⟩ ∧
    mixed.handles 2 = ⟨false, false, false, [], .done, .pending⟩ := by
  decide +kernel

theorem mixed_allowed : Allowed mixed (.closed 2 .timer) := by
  obtain ⟨-, -, -, h₂⟩ := mixed_state
  refine ⟨?_, HandleType.noConfusion⟩
  rw [h₂]
  rfl

theorem mixed_not_done {p : ℕ} (hp : (mixed.handles p).accepted = false) :
    ¬ (mixed.handles p).Done := by
  obtain ⟨hcontexts, h₀, h₁, h₂⟩ := mixed_state
  intro hdone
  by_cases hlt : p < 3
  · have hcases : p = 0 ∨ p = 1 ∨ p = 2 := by omega
    rcases hcases with rfl | rfl | rfl
    · rw [h₀] at hp
      cases hp
    · rw [h₁] at hp
      cases hp
    · rw [h₂] at hdone
      cases hdone.2
  · have hinv := trace_mixed.inv (inv_start [] ())
    rw [(hinv.unborn p (by omega)).2] at hdone
    cases hdone.1

theorem memory_safe_mixed : mixed.calls.Nodup ∧ .release 0 ∈ mixed.calls ∧
    .release 2 ∉ mixed.calls ∧ .free 0 ∈ mixed.calls ∧ mixed.ctx 0 = none ∧
    (∃ s, step echo (.written 1 1 true) mixed = some s) ∧
    ∃ s, step echo (.closed 2 .timer) mixed = some s := by
  obtain ⟨hruns, hnodup, hrelease, hgone, hfree⟩ := memory_safe echo [] () trace_mixed
  obtain ⟨hcontexts, h₀, h₁, h₂⟩ := mixed_state
  have hreleased : .release 0 ∈ mixed.calls := by
    apply (hrelease 0).mpr
    rw [hcontexts, h₀]
    exact ⟨by decide, rfl, rfl⟩
  refine ⟨hnodup, hreleased, fun hheld => ?_, hfree 0 0 true (by simp [mixedCallbacks]),
    (hgone 0 hreleased).1, hruns _ ?_, hruns _ mixed_allowed⟩
  · have hdone := ((hrelease 2).mp hheld).2
    rw [h₂] at hdone
    cases hdone.2
  · show (mixed.handles 1).writes.head? = some 1
    rw [h₁]
    rfl

end Server

end Segnalacity
