import Segnalacity.Server.Effects

/-! # Every callback runs

From a state with the invariant every callback that libuv allows has a result, reached by effects
(`step_runs`): no pointer it follows leads to a block that is not allocated. -/

namespace Segnalacity

open CStr Http Dll

namespace Server

variable {σ : Type} {s s' : Server σ} {p : ℕ} {c : ClientCtx}

/-! ### Closing -/

theorem closeClient_closing (hc : s.ctx p = some c) (hclosing : c.closing = true) :
    closeClient p s = some s := by
  simp [closeClient, hc, hclosing]

/-- `close_client` for a context whose handles are open. -/
theorem closeClient_opened (hc : s.ctx p = some c) (hclosing : c.closing = false)
    (htcp : (s.handles p).tcpClose = .opened) (htimer : (s.handles p).timerClose = .opened) :
    closeClient p s = some { s with
      ctx := Function.update s.ctx p (some { c with closing := true, pendingCloses := 2 })
      handles := Function.update s.handles p
        ⟨(s.handles p).accepted, false, false, (s.handles p).writes, .pending, .pending⟩
      calls := s.calls ++ [.uvClose p .tcp, .uvClose p .timer] } := by
  simp [closeClient, hc, hclosing, uvClose, setCtx, setHandles, log, Handles.close,
    Handles.closeState, htcp, htimer]

theorem closeClient_runs (hs : Inv s) (hc : s.ctx p = some c) :
    ∃ s', closeClient p s = some s' ∧ Effects s s' ∧ s'.nodes = s.nodes := by
  cases hclosing : c.closing with
  | true => exact ⟨s, closeClient_closing hc hclosing, .refl, rfl⟩
  | false =>
      obtain ⟨htcp, htimer, -⟩ := (hs.phase_of hc).opened hclosing
      refine ⟨_, closeClient_opened hc hclosing htcp htimer,
        .single (.move hc (.close hclosing) rfl rfl), ?_⟩
      exact nodesOf_update hc rfl rfl

/-! ### Sending -/

/-- The context with reading and the timer stopped. -/
def paused (p : ℕ) (s : Server σ) : Server σ := uvTimerStop p (uvReadStop p s)

theorem paused_handles : (paused p s).handles =
    Function.update s.handles p { s.handles p with reading := false, timer := false } := by
  simp [paused, uvTimerStop, uvReadStop, setHandles]

theorem closeClient_paused (hs : Inv s) (hc : s.ctx p = some c) (hclosing : c.closing = false) :
    ∃ s', closeClient p (paused p s) = some s' ∧ Effects s s' := by
  obtain ⟨htcp, htimer, -⟩ := (hs.phase_of hc).opened hclosing
  have hpaused : (paused p s).ctx p = some c := hc
  refine ⟨_, closeClient_opened hpaused hclosing ?_ ?_, ?_⟩
  · rw [paused_handles, Function.update_self]
    exact htcp
  · rw [paused_handles, Function.update_self]
    exact htimer
  · rw [paused_handles, Function.update_self, Function.update_idem]
    exact .single (.move hc (.close hclosing) rfl rfl)

theorem sendResponse_runs (hs : Inv s) (hc : s.ctx p = some c)
    (hreading : (s.handles p).reading = true) (hclosing : c.closing = false) (o : Outcome)
    (resp : HttpResponse) (keepAlive : Bool) :
    ∃ s', sendResponse o resp keepAlive p (paused p s) = some s' ∧ Effects s s' := by
  unfold sendResponse
  cases o.malloc with
  | false => exact closeClient_paused hs hc hclosing
  | true =>
      rw [if_pos rfl]
      cases httpResponseRender resp keepAlive (maxHeaderStrLen + resp.bodyLen) with
      | none =>
          -- the block is allocated and freed, then the connection is closed
          have hdiscard : Effect s _ := .discard
          have hs' := hs.effect hdiscard
          obtain ⟨s', hclose, heffects⟩ := closeClient_paused hs' hc hclosing
          refine ⟨s', ?_, Relation.ReflTransGen.head hdiscard heffects⟩
          simp only [mallocReq, freeReq, log, Function.update_self, Function.update_idem,
            Option.bind_eq_bind, Option.bind_some]
          exact hclose
      | some data =>
          refine ⟨_, rfl, ?_⟩
          have hself : Function.update s.ctx p (some c) = s.ctx := by
            rw [← hc, Function.update_eq_self]
          cases o.uvWrite with
          | true =>
              have hmove := Effect.move hc
                (.submit (p := p) (n := s.requests) ⟨p, keepAlive, data⟩ hreading rfl) rfl rfl
              rw [hself, List.append_nil] at hmove
              convert Relation.ReflTransGen.single hmove using 1
              simp [uvWrite, mallocReq, paused, uvTimerStop, uvReadStop, setHandles]
          | false =>
              have hmove := Effect.move hc
                (.refuse (p := p) (n := s.requests) ⟨p, keepAlive, data⟩ hreading) rfl rfl
              rw [hself] at hmove
              convert Relation.ReflTransGen.single hmove using 1
              simp [uvWrite, mallocReq, paused, uvTimerStop, uvReadStop, setHandles, log]

/-! ### Reading -/

theorem Inv.idle (hs : Inv s) (hreading : (s.handles p).reading = true) :
    ∃ c, s.ctx p = some c ∧ c.closing = false := by
  by_cases hp : p < s.contexts
  · have hphase := hs.phase p hp
    cases hc : s.ctx p with
    | none =>
        rw [hc] at hphase
        obtain ⟨-, -, hr, -⟩ := hphase.gone_done
        rw [hreading] at hr
        cases hr
    | some c =>
        refine ⟨c, rfl, ?_⟩
        rw [hc] at hphase
        cases hclosing : c.closing with
        | false => rfl
        | true =>
            generalize hh : s.handles p = h at hphase hreading
            cases hphase with
            | closing _ hr =>
                rw [hreading] at hr
                cases hr
            | idle hc' | writing _ hc' | stuck hc' =>
                rw [hclosing] at hc'
                cases hc'
  · rw [(hs.unborn p (not_lt.mp hp)).2] at hreading
    cases hreading

/-- A change of the data of a context. -/
theorem effect_data (hc : s.ctx p = some c) {c' : ClientCtx} (hclosing : c'.closing = c.closing)
    (hpending : c'.pendingCloses = c.pendingCloses) (hnext : c'.next = c.next)
    (hprev : c'.prev = c.prev) : Effect s (s.setCtx p c') := by
  have hmove := Effect.move hc (.data (p := p) (n := s.requests) (h := s.handles p) hclosing hpending)
    hnext hprev
  rw [Function.update_eq_self, List.append_nil] at hmove
  exact hmove

section callbacks
variable (svc : Services σ) (o : Outcome)

theorem serveRequest_runs (hs : Inv s) (hc : s.ctx p = some c)
    (hreading : (s.handles p).reading = true) (hclosing : c.closing = false) (raw : Bytes) :
    ∃ s', serveRequest svc o raw p s = some s' ∧ Effects s s' := by
  unfold serveRequest
  -- the services change no context
  have hanswer : ∀ (buf : Bytes) (app : σ) (resp : HttpResponse) (keepAlive : Bool),
      ∃ s', sendResponse o resp keepAlive p
        { paused p s with responseBuffer := buf, app := app } = some s' ∧ Effects s s' := by
    intro buf app resp keepAlive
    have hback : Effect s { s with responseBuffer := buf, app := app } := .background buf app
    obtain ⟨s', hsend, heffects⟩ :=
      sendResponse_runs (hs.effect hback) hc hreading hclosing o resp keepAlive
    exact ⟨s', hsend, .head hback heffects⟩
  have hpaused : uvTimerStop p (uvReadStop p s) = paused p s := rfl
  have happ : (paused p s).app = s.app := rfl
  simp only [hpaused, happ]
  by_cases hallowed : (!(svc.rateLimitCheck s.app).1) = true
  · rw [if_pos hallowed]
    exact hanswer s.responseBuffer _ r429 false
  rw [if_neg hallowed]
  cases httpRequestParse raw with
  | none => exact hanswer s.responseBuffer _ bad400 false
  | some req => exact hanswer _ _ _ _

theorem onRead_runs (hs : Inv s) (hreading : (s.handles p).reading = true) (nread : ℤ) :
    ∃ s', onRead svc o nread p s = some s' ∧ Effects s s' := by
  obtain ⟨c, hc, hclosing⟩ := hs.idle hreading
  unfold onRead
  rw [hc, Option.bind_eq_bind, Option.bind_some]
  split_ifs
  · obtain ⟨s', hclose, heffects, -⟩ := closeClient_runs hs hc
    exact ⟨s', hclose, heffects⟩
  · exact ⟨s, rfl, .refl⟩
  · dsimp only
    set c' : ClientCtx := { c with
      totalRead := c.totalRead + nread.toNat
      buffer := some (writeAt (c.buffer.getD []) (c.totalRead + nread.toNat) [0]) }
    have hdata : Effect s (s.setCtx p c') := effect_data hc rfl rfl rfl rfl
    have hc' : (s.setCtx p c').ctx p = some c' := Function.update_self _ _ _
    split_ifs
    · exact ⟨_, rfl, .single hdata⟩
    · obtain ⟨s', hserve, heffects⟩ :=
        serveRequest_runs svc o (hs.effect hdata) hc' hreading hclosing _
      exact ⟨s', hserve, .head hdata heffects⟩

theorem onBufferAlloc_runs (hs : Inv s) (hreading : (s.handles p).reading = true)
    (fresh : Option Bytes) :
    ∃ s' n, onBufferAlloc fresh p s = some (s', n) ∧ Effects s s' ∧ s'.handles = s.handles := by
  obtain ⟨c, hc, -⟩ := hs.idle hreading
  unfold onBufferAlloc
  rw [hc, Option.bind_eq_bind, Option.bind_some]
  cases c.buffer <|> fresh with
  | none => exact ⟨s, 0, rfl, .refl, rfl⟩
  | some b => exact ⟨_, _, rfl, .single (effect_data hc rfl rfl rfl rfl), rfl⟩

theorem receive_runs (hs : Inv s) (hreading : (s.handles p).reading = true) (data : Bytes) :
    ∃ s', receive data p s = some s' ∧ Effects s s' ∧ s'.handles = s.handles := by
  obtain ⟨c, hc, -⟩ := hs.idle hreading
  unfold receive modifyCtx
  rw [hc, Option.bind_eq_bind, Option.bind_some]
  exact ⟨_, rfl, .single (effect_data hc rfl rfl rfl rfl), rfl⟩

end callbacks

/-! ### Writes and timeouts -/

/-- A context with a write in flight is there. -/
theorem Inv.waits (hs : Inv s) {id : ℕ} {rest : List ℕ} (hw : (s.handles p).writes = id :: rest) :
    ∃ c, s.ctx p = some c := by
  by_cases hp : p < s.contexts
  · have hphase := hs.phase p hp
    cases hc : s.ctx p with
    | none =>
        rw [hc] at hphase
        obtain ⟨-, hnil, -⟩ := hphase.gone_done
        rw [hw] at hnil
        cases hnil
    | some c => exact ⟨c, rfl⟩
  · rw [(hs.unborn p (not_lt.mp hp)).2] at hw
    cases hw

/-- Handles of a context that is closing are not started again. -/
theorem Phase.not_opened {h : Handles} (hp : Phase (some c) h) (hclosing : c.closing = true) :
    h.tcpClose ≠ .opened ∧ h.timerClose ≠ .opened := by
  cases hp with
  | closing _ _ _ h₁ h₂ => exact ⟨h₁, h₂⟩
  | idle hc | writing _ hc | stuck hc =>
      rw [hclosing] at hc
      cases hc

theorem onWriteComplete_runs (hs : Inv s) {id : ℕ} {rest : List ℕ}
    (hw : (s.handles p).writes = id :: rest) (ok : Bool) :
    ∃ s', onWriteComplete ok id (s.setHandles p fun h => { h with writes := h.writes.tail }) =
      some s' ∧ Effects s s' ∧ .free id ∈ s'.calls := by
  obtain ⟨c, hc⟩ := hs.waits hw
  have hphase := hs.phase_of hc
  obtain ⟨wr, hreq, hctx⟩ := (hs.owned p).2 id (hw ▸ List.mem_cons_self)
  have htail : (s.handles p).writes.tail = rest := by rw [hw]; rfl
  unfold onWriteComplete freeReq
  simp only [setHandles, log, hreq, hctx, htail, Option.bind_eq_bind, Option.bind_some]
  -- the state when the request has been freed
  set s₁ : Server σ := { s with
    handles := Function.update s.handles p { s.handles p with writes := rest }
    req := Function.update s.req id none
    calls := s.calls ++ [.free id] }
  have hc₁ : s₁.ctx p = some c := hc
  have hh₁ : s₁.handles p = { s.handles p with writes := rest } := Function.update_self _ _ _
  have hfreed : Call.free id ∈ s₁.calls := List.mem_append_right _ (List.mem_singleton_self _)
  cases hclosing : c.closing with
  | true =>
      have hmove : ∀ c' : ClientCtx, c'.closing = c.closing → c'.pendingCloses = c.pendingCloses →
          c'.next = c.next → c'.prev = c.prev →
          Effect s { s₁ with ctx := Function.update s.ctx p (some c') } :=
        fun c' h₁ h₂ h₃ h₄ => .move hc (.complete hclosing h₁ h₂ hw) h₃ h₄
      obtain ⟨htcp, htimer⟩ := hphase.not_opened hclosing
      split_ifs
      · refine ⟨s₁, closeClient_closing hc₁ hclosing, .single ?_, hfreed⟩
        have hsame := hmove c rfl rfl rfl rfl
        rw [← hc, Function.update_eq_self] at hsame
        exact hsame
      · refine ⟨_, ?_, .single (hmove { c with totalRead := 0 } rfl rfl rfl rfl), hfreed⟩
        simp [modifyCtx, hc, setCtx, uvReadStart, uvTimerStart, setHandles, htcp, htimer, s₁]
  | false =>
      obtain ⟨htcp, htimer, -⟩ := hphase.opened hclosing
      split_ifs
      · refine ⟨_, closeClient_opened hc₁ hclosing (hh₁ ▸ htcp) (hh₁ ▸ htimer), ?_,
          List.mem_append_left _ hfreed⟩
        rw [hh₁]
        have hmove := Effect.move hc (.finish hclosing hw) rfl rfl
        convert Relation.ReflTransGen.single hmove using 1
        simp [s₁]
      · have hmove : Move p s.req s.requests c (s.handles p) { c with totalRead := 0 } _ _ _ _ :=
          .resume hclosing rfl rfl hw
        refine ⟨_, ?_, .single (.move hc hmove rfl rfl), hfreed⟩
        simp [modifyCtx, hc, setCtx, uvReadStart, uvTimerStart, setHandles, htcp, htimer, s₁]

theorem onTimeout_runs (hs : Inv s) (htimer : (s.handles p).timer = true) :
    ∃ s', onTimeout p (uvTimerStop p s) = some s' ∧ Effects s s' := by
  have hreading : (s.handles p).reading = true := by
    by_cases hp : p < s.contexts
    · have hphase := hs.phase p hp
      generalize s.handles p = h at hphase htimer
      generalize s.ctx p = x at hphase
      cases hphase with
      | idle => rfl
      | writing | stuck => cases htimer
      | closing _ _ ht =>
          rw [htimer] at ht
          cases ht
      | gone _ ht =>
          rw [htimer] at ht
          cases ht
    · rw [(hs.unborn p (not_lt.mp hp)).2] at htimer
      cases htimer
  obtain ⟨c, hc, hclosing⟩ := hs.idle hreading
  obtain ⟨htcp, htimer', -⟩ := (hs.phase_of hc).opened hclosing
  have hstop : (uvTimerStop p s).handles p = { s.handles p with timer := false } :=
    Function.update_self _ _ _
  have hc' : (uvTimerStop p s).ctx p = some c := hc
  refine ⟨_, closeClient_opened hc' hclosing (hstop ▸ htcp) (hstop ▸ htimer'), ?_⟩
  rw [hstop]
  have hmove := Effect.move hc (.close hclosing) rfl rfl
  convert Relation.ReflTransGen.single hmove using 1
  simp [uvTimerStop, setHandles]

/-! ### Pointers -/

/-- The contexts after a write through a pointer, if there is one. -/
def patched (ctx : ℕ → Option ClientCtx) (o : Option ℕ) (f : ClientCtx → ClientCtx) :
    ℕ → Option ClientCtx := fun x => (ctx x).map fun d => if o = some x then f d else d

theorem patched_none (ctx : ℕ → Option ClientCtx) (f : ClientCtx → ClientCtx) :
    patched ctx none f = ctx := by
  funext x
  simp [patched]

theorem modifyCtx_patched {q : ℕ} {d : ClientCtx} (hd : s.ctx q = some d)
    (f : ClientCtx → ClientCtx) :
    s.modifyCtx q f = some { s with ctx := patched s.ctx (some q) f } := by
  have hupdate : Function.update s.ctx q (some (f d)) = patched s.ctx (some q) f := by
    funext x
    by_cases hx : x = q
    · simp [patched, hx, hd]
    · have hx' : ¬ q = x := fun h => hx h.symm
      simp [patched, hx, hx']
  simp [modifyCtx, hd, setCtx, hupdate]

theorem modifyIf_patched {o : Option ℕ} (ho : ∀ q, o = some q → ∃ d, s.ctx q = some d)
    (f : ClientCtx → ClientCtx) :
    s.modifyIf o f = some { s with ctx := patched s.ctx o f } := by
  cases o with
  | none => rw [modifyIf, patched_none]
  | some q =>
      obtain ⟨d, hd⟩ := ho q rfl
      exact modifyCtx_patched hd f

theorem patched_map {α : Type} (ctx : ℕ → Option ClientCtx) (o : Option ℕ)
    {f : ClientCtx → ClientCtx} {g : ClientCtx → α} (hg : ∀ d, g (f d) = g d) (x : ℕ) :
    (patched ctx o f x).map g = (ctx x).map g := by
  unfold patched
  cases ctx x with
  | none => rfl
  | some d =>
      simp only [Option.map_some]
      split_ifs
      · rw [hg]
      · rfl

theorem exists_patched {ctx : ℕ → Option ClientCtx} {o : Option ℕ} {f : ClientCtx → ClientCtx}
    {x : ℕ} {d : ClientCtx} (hd : ctx x = some d) : ∃ d', patched ctx o f x = some d' :=
  ⟨_, by rw [patched, hd, Option.map_some]⟩

/-- `client_manager_unlink` and `client_manager_release`, through whatever links there are. -/
theorem unlink_release {member : ℕ → Prop} (hlinks : Threaded s.nodes s.activeClientsHead member)
    (hc : s.ctx p = some c) :
    ∃ ctx', (do
        let s ← clientManagerUnlink p s
        clientManagerRelease p s) = some { s with
          ctx := ctx'
          activeClientsHead := detachHead s.activeClientsHead ⟨c.next, c.prev⟩
          activeClientsCount := s.activeClientsCount - 1
          calls := s.calls ++ [.release p] } ∧
      (∀ q, q ≠ p → (ctx' q).map (fun d => (d.closing, d.pendingCloses)) =
        (s.ctx q).map fun d => (d.closing, d.pendingCloses)) ∧
      nodesOf ctx' = detach s.nodes p ⟨c.next, c.prev⟩ := by
  have hnode : s.nodes p = some ⟨c.next, c.prev⟩ := nodes_of hc
  have hprev : ∀ q, c.prev = some q → ∃ d, s.ctx q = some d := by
    intro q hq
    obtain ⟨b, hb, -⟩ := hlinks.backward p _ q hnode hq
    obtain ⟨d, hd, -⟩ := Option.map_eq_some_iff.mp hb
    exact ⟨d, hd⟩
  have hnext : ∀ q, c.next = some q → ∃ d, s.ctx q = some d := by
    intro q hq
    obtain ⟨-, b, hb, -⟩ := hlinks.forward p _ q hnode hq
    obtain ⟨d, hd, -⟩ := Option.map_eq_some_iff.mp hb
    exact ⟨d, hd⟩
  set ctx₁ := patched s.ctx c.prev fun d => { d with next := c.next }
  set ctx₂ := patched ctx₁ c.next fun d => { d with prev := c.prev }
  set s₁ : Server σ := { s with
    ctx := ctx₁, activeClientsHead := detachHead s.activeClientsHead ⟨c.next, c.prev⟩ }
  have h₁ : skipContext c s = some s₁ := by
    unfold skipContext
    cases hq : c.prev with
    | none => simp [s₁, ctx₁, hq, patched_none, detachHead]
    | some q =>
        obtain ⟨d, hd⟩ := hprev q hq
        simp only [modifyCtx_patched hd]
        simp [s₁, ctx₁, hq, detachHead]
  have h₂ : s₁.modifyIf c.next (fun d => { d with prev := c.prev }) =
      some { s₁ with ctx := ctx₂ } :=
    modifyIf_patched (fun q hq => exists_patched (hnext q hq).choose_spec) _
  obtain ⟨c', hc'⟩ : ∃ c', ctx₁ p = some c' := exists_patched hc
  obtain ⟨c'', hc''⟩ : ∃ c'', ctx₂ p = some c'' := exists_patched hc'
  refine ⟨Function.update ctx₂ p none, ?_, ?_, ?_⟩
  · have hunlink : clientManagerUnlink p s = some { s₁ with
        ctx := Function.update ctx₂ p (some { c'' with next := none, prev := none })
        activeClientsCount := s.activeClientsCount - 1 } := by
      unfold clientManagerUnlink
      simp only [hc, h₁, h₂, Option.bind_eq_bind, Option.bind_some]
      simp [modifyCtx, hc'', setCtx, s₁]
    rw [hunlink]
    simp [clientManagerRelease, log, s₁]
  · intro q hq
    rw [Function.update_of_ne hq]
    simp only [ctx₂, ctx₁]
    rw [patched_map, patched_map]
    · exact fun _ => rfl
    · exact fun _ => rfl
  · funext x
    by_cases hx : x = p
    · simp [detach, nodesOf, hx]
    · rw [nodesOf, Function.update_of_ne hx, detach, if_neg hx, nodes, nodesOf]
      simp only [ctx₂, ctx₁, patched, Option.map_map]
      congr 1
      funext d
      simp only [Function.comp_apply]
      split_ifs <;> rfl

theorem onClose_runs (hs : Inv s) {t : HandleType}
    (ht : (s.handles p).closeState t = .pending)
    (htcp : t = .tcp → (s.handles p).writes = []) :
    ∃ s', onClose p (s.setHandles p (Handles.close t .done)) = some s' ∧ Effects s s' := by
  obtain ⟨c, hc⟩ : ∃ c, s.ctx p = some c := by
    by_cases hp : p < s.contexts
    · have hphase := hs.phase p hp
      cases hc : s.ctx p with
      | none =>
          rw [hc] at hphase
          obtain ⟨⟨h₁, h₂⟩, -⟩ := hphase.gone_done
          cases t with
          | tcp => exact absurd (h₁.symm.trans ht) (by decide)
          | timer => exact absurd (h₂.symm.trans ht) (by decide)
      | some c => exact ⟨c, rfl⟩
    · rw [(hs.unborn p (not_lt.mp hp)).2] at ht
      cases t <;> cases ht
  unfold onClose
  have hc' : (s.setHandles p (Handles.close t .done)).ctx p = some c := hc
  rw [hc', Option.bind_eq_bind, Option.bind_some]
  by_cases hpos : decrement c.pendingCloses > 0
  · rw [if_pos hpos]
    have hmove := Effect.move hc (.closed t ht htcp hpos) rfl rfl
    rw [List.append_nil] at hmove
    exact ⟨_, rfl, .single hmove⟩
  · rw [if_neg hpos]
    have hzero : decrement c.pendingCloses = 0 := Nat.eq_zero_of_not_pos hpos
    set c' : ClientCtx := { c with pendingCloses := decrement c.pendingCloses }
    set s₁ : Server σ := (s.setHandles p (Handles.close t .done)).setCtx p c'
    have hnodes : s₁.nodes = s.nodes := nodesOf_update hc rfl rfl
    have hc₁ : s₁.ctx p = some c' := Function.update_self _ _ _
    have hlinks : Threaded s₁.nodes s₁.activeClientsHead s.Live := by
      rw [hnodes]
      exact hs.links
    obtain ⟨ctx', hrun, hsame, hctx'⟩ := unlink_release hlinks hc₁
    refine ⟨_, hrun, .single ?_⟩
    have hsame' : ∀ q, q ≠ p → (ctx' q).map (fun d => (d.closing, d.pendingCloses)) =
        (s.ctx q).map fun d => (d.closing, d.pendingCloses) := by
      intro q hq
      rw [hsame q hq]
      simp [s₁, setCtx, setHandles, hq]
    rw [hnodes] at hctx'
    have hlast := Effect.last t hc ht htcp hzero hsame' hctx'
    exact hlast

/-! ### Shutdown -/

theorem closeAll_runs (n : ℕ) (o : Option ℕ) (hs : Inv s)
    (hctx : ∀ p, o = some p → p < n ∧ ∃ c, s.ctx p = some c) :
    ∃ s', closeAllLoop closeClient n o s = some s' ∧ Effects s s' := by
  induction n generalizing o s with
  | zero =>
      cases o with
      | none => exact ⟨s, rfl, .refl⟩
      | some p => exact absurd (hctx p rfl).1 (Nat.not_lt_zero p)
  | succ n ih =>
      cases o with
      | none => exact ⟨s, rfl, .refl⟩
      | some p =>
          obtain ⟨hp, c, hc⟩ := hctx p rfl
          obtain ⟨s₁, hclose, heffects, hnodes⟩ := closeClient_runs hs hc
          -- the successor was read before the call and is still there after it
          have hnext : ∀ q, c.next = some q → q < n ∧ ∃ d, s₁.ctx q = some d := by
            intro q hq
            obtain ⟨hlt, b, hb, -⟩ := hs.links.forward p _ q (nodes_of hc) hq
            rw [← hnodes] at hb
            obtain ⟨d, hd, -⟩ := Option.map_eq_some_iff.mp hb
            exact ⟨by omega, d, hd⟩
          obtain ⟨s', hloop, heffects'⟩ := ih c.next (hs.effects heffects) hnext
          refine ⟨s', ?_, heffects.trans heffects'⟩
          simp only [closeAllLoop, hc, hclose, Option.bind_eq_bind, Option.bind_some]
          exact hloop

theorem clientManagerCloseAll_runs (hs : Inv s) :
    ∃ s', clientManagerCloseAll closeClient s = some s' ∧ Effects s s' := by
  refine closeAll_runs _ _ hs fun p hp => ?_
  obtain ⟨-, a, ha, -⟩ := hs.links.start p hp
  obtain ⟨c, hc, -⟩ := Option.map_eq_some_iff.mp ha
  exact ⟨hs.lt hc, c, hc⟩

/-! ### Connections -/

theorem setupClient_runs (hs : Inv s) (allocOk acceptOk : Bool) :
    ∃ s', setupClient allocOk acceptOk s = some s' ∧ Arrival allocOk acceptOk s s' := by
  unfold setupClient
  by_cases hfull : s.activeClientsCount ≥ maxClients
  · rw [if_pos hfull]
    exact ⟨s, rfl, .full hfull⟩
  rw [if_neg hfull]
  have hroom : s.activeClientsCount < maxClients := not_le.mp hfull
  cases hallocOk : allocOk with
  | false => exact ⟨s, rfl, .noMemory hroom rfl⟩
  | true =>
      obtain ⟨hnone, hinit⟩ := hs.unborn s.contexts le_rfl
      cases hacceptOk : acceptOk with
      | false =>
          refine ⟨_, ?_, .refused hroom rfl rfl⟩
          simp [clientManagerAlloc, closeClient, uvClose, setCtx, setHandles, log, Handles.close,
            Handles.closeState, initHandles]
      | true =>
          have hhead : ∀ q, s.activeClientsHead = some q → ∃ d, s.ctx q = some d := by
            intro q hq
            obtain ⟨-, a, ha, -⟩ := hs.links.start q hq
            obtain ⟨d, hd, -⟩ := Option.map_eq_some_iff.mp ha
            exact ⟨d, hd⟩
          have hne : s.activeClientsHead ≠ some s.contexts := by
            intro hq
            obtain ⟨d, hd⟩ := hhead _ hq
            rw [hnone] at hd
            cases hd
          set c : ClientCtx := ⟨false, 0, s.activeClientsHead, none, 0, none⟩
          set ctx₁ := Function.update s.ctx s.contexts (some c)
          set ctx₂ := patched ctx₁ s.activeClientsHead fun d => { d with prev := some s.contexts }
          have hlinked : ∀ s₁ : Server σ, s₁.ctx = ctx₁ →
              s₁.modifyIf s.activeClientsHead (fun d => { d with prev := some s.contexts }) =
                some { s₁ with ctx := ctx₂ } := by
            intro s₁ h₁
            rw [modifyIf_patched, h₁]
            intro q hq
            obtain ⟨d, hd⟩ := hhead q hq
            refine ⟨d, ?_⟩
            rw [h₁, ← hd]
            refine Function.update_of_ne ?_ _ _
            rintro rfl
            exact hne hq
          have harrival : Arrival true true s { s with
              ctx := ctx₂
              contexts := s.contexts + 1
              handles := Function.update s.handles s.contexts
                ⟨true, true, true, [], .opened, .opened⟩
              activeClientsHead := some s.contexts
              activeClientsCount := s.activeClientsCount + 1
              waiting := false } := by
            refine .admitted hroom rfl rfl ?_ ⟨c, ?_, rfl⟩ ?_
            · intro q hq
              simp only [ctx₂, ctx₁]
              rw [patched_map, Function.update_of_ne hq]
              exact fun _ => rfl
            · simp [ctx₂, patched, ctx₁, hne]
            · funext q
              by_cases hq : q = s.contexts
              · rw [hq, prepend_self]
                simp [nodesOf, ctx₂, patched, ctx₁, hne, c]
              · rw [prepend, if_neg hq]
                simp only [nodesOf, ctx₂, patched, ctx₁, Function.update_of_ne hq, nodes,
                  Option.map_map]
                split_ifs with hq'
                · congr 1
                · congr 1
          refine ⟨_, ?_, harrival⟩
          simp only [clientManagerAlloc, clientManagerLink, modifyCtx, setCtx, setHandles,
            uvTimerStart, initHandles, Function.update_self, Function.update_idem,
            Option.bind_eq_bind, Option.bind_some, if_true, Bool.not_true, Bool.false_eq_true,
            if_false]
          rw [hlinked _ rfl]
          simp [uvReadStart, setHandles]

/-! ### Steps -/

/-- What a step of the event loop amounts to. -/
inductive Does (s : Server σ) : Callback → Server σ → Prop
  | failed {status : ℤ} {a b : Bool} : status < 0 →
      Does s (.connection status a b) { s with waiting := false }
  | arrival {status : ℤ} {a b : Bool} {s' : Server σ} : 0 ≤ status →
      Arrival a b { s with waiting := true } s' → Does s (.connection status a b) s'
  | client {cb : Callback} {s' : Server σ} : (∀ status a b, cb ≠ .connection status a b) →
      Effects s s' → Does s cb s'
  | shutdown {s' : Server σ} : Effects s s' → Does s .shutdown { s' with stopped := true }

variable (svc : Services σ)

/-- Every callback that libuv allows has a result. -/
theorem step_runs (hs : Inv s) {cb : Callback} (hallowed : Allowed s cb) :
    ∃ s', step svc cb s = some s' ∧ Does s cb s' := by
  cases cb with
  | connection status a b =>
      show ∃ s', onConnection status a b { s with waiting := decide (0 ≤ status) } = some s' ∧ _
      unfold onConnection
      by_cases hstatus : status < 0
      · rw [if_pos hstatus, decide_eq_false (not_le.mpr hstatus)]
        exact ⟨_, rfl, .failed hstatus⟩
      · rw [if_neg hstatus, decide_eq_true (not_lt.mp hstatus)]
        obtain ⟨s', hrun, harrival⟩ := setupClient_runs (hs.listener true s.stopped) a b
        exact ⟨s', hrun, .arrival (not_lt.mp hstatus) harrival⟩
  | readable p fresh o data =>
      obtain ⟨hreading, -, -⟩ := hallowed
      obtain ⟨s₁, n, h₁, he₁, hh₁⟩ := onBufferAlloc_runs hs hreading fresh
      obtain ⟨s₂, h₂, he₂, hh₂⟩ := receive_runs (hs.effects he₁) (hh₁ ▸ hreading) data
      obtain ⟨s', h₃, he₃⟩ := onRead_runs svc o ((hs.effects he₁).effects he₂)
        (by rw [hh₂, hh₁]; exact hreading) data.length
      refine ⟨s', ?_, .client (fun _ _ _ => Callback.noConfusion) ((he₁.trans he₂).trans he₃)⟩
      simp only [step, h₁, h₂, Option.bind_eq_bind, Option.bind_some]
      exact h₃
  | readError p fresh o =>
      obtain ⟨hreading, -⟩ := hallowed
      obtain ⟨s₁, n, h₁, he₁, hh₁⟩ := onBufferAlloc_runs hs hreading fresh
      obtain ⟨s', h₂, he₂⟩ := onRead_runs svc o (hs.effects he₁) (hh₁ ▸ hreading) (-1)
      refine ⟨s', ?_, .client (fun _ _ _ => Callback.noConfusion) (he₁.trans he₂)⟩
      simp only [step, h₁, Option.bind_eq_bind, Option.bind_some]
      exact h₂
  | written p id ok =>
      obtain ⟨rest, hw⟩ := List.head?_eq_some_iff.mp hallowed
      obtain ⟨s', hrun, heffects, -⟩ := onWriteComplete_runs hs hw ok
      exact ⟨s', hrun, .client (fun _ _ _ => Callback.noConfusion) heffects⟩
  | timeout p =>
      obtain ⟨s', hrun, heffects⟩ := onTimeout_runs hs hallowed
      exact ⟨s', hrun, .client (fun _ _ _ => Callback.noConfusion) heffects⟩
  | closed p t =>
      obtain ⟨s', hrun, heffects⟩ := onClose_runs hs hallowed.1 hallowed.2
      exact ⟨s', hrun, .client (fun _ _ _ => Callback.noConfusion) heffects⟩
  | shutdown =>
      obtain ⟨s', hrun, heffects⟩ := clientManagerCloseAll_runs hs
      refine ⟨{ s' with stopped := true }, ?_, .shutdown heffects⟩
      simp only [step, hrun, Option.bind_eq_bind, Option.bind_some]

/-- The result of a step is the one described. -/
theorem does_of_step (hs : Inv s) {cb : Callback} (hallowed : Allowed s cb)
    (hstep : step svc cb s = some s') : Does s cb s' := by
  obtain ⟨s₁, hrun, hdoes⟩ := step_runs svc hs hallowed
  rw [hstep] at hrun
  obtain rfl := Option.some.inj hrun
  exact hdoes

theorem Inv.does (hs : Inv s) {cb : Callback} (hdoes : Does s cb s') : Inv s' := by
  cases hdoes with
  | failed => exact hs.listener false s.stopped
  | arrival _ harrival => exact (hs.listener true s.stopped).arrival harrival
  | client _ heffects => exact hs.effects heffects
  | @shutdown s₁ heffects => exact (hs.effects heffects).listener s₁.waiting true

theorem inv_start (responseBuffer : Bytes) (app : σ) : Inv (start responseBuffer app) := by
  refine ⟨fun p _ => ⟨rfl, rfl⟩, fun p hp => absurd hp (Nat.not_lt_zero p), ?_, fun _ _ => rfl, ?_,
    rfl, ?_⟩
  · exact fun p => ⟨List.nodup_nil, fun id hid => absurd hid List.not_mem_nil⟩
  · refine ⟨fun p a q hp => ?_, fun p a q hp => ?_, fun p hp => ?_, fun p hp => ?_,
      fun p a hp => ?_⟩
    · cases hp
    · cases hp
    · cases hp
    · cases hp.1
    · cases hp
  · exact Int.natCast_nonneg _

/-- The invariant holds in every state of every run. -/
theorem Trace.inv {svc : Services σ} {s₀ : Server σ} {cbs : List Callback} (h₀ : Inv s₀)
    (h : Trace svc s₀ cbs s) : Inv s := by
  induction h with
  | nil => exact h₀
  | snoc _ hallowed hstep ih => exact ih.does (does_of_step _ ih hallowed hstep)

end Server

end Segnalacity
