import Segnalacity.Server.Registry

/-! # Progress

Two ways to wait forever.  `send_response` does not look at what `uv_write` returns, so a client
whose response could not be submitted is neither read nor timed nor closed (`served_iff`).
`setup_client` returns without `uv_accept` when there are too many clients or no memory, and libuv
reports no further connection (`listener_iff`). -/

namespace Segnalacity

open CStr Http Dll

namespace Server

variable {σ : Type} {s s' : Server σ} {p : ℕ} {c : ClientCtx}

/-! ### Clients -/

/-- Neither read nor waiting for a write. -/
def Handles.Stuck (h : Handles) : Prop := h.reading = false ∧ h.writes = []

/-- The clients that are open and stuck are those whose `uv_write` has failed. -/
def Tracked (s : Server σ) : Prop :=
  ∀ p c, s.ctx p = some c → c.closing = false →
    ((∃ id, .writeError p id ∈ s.calls) ↔ (s.handles p).Stuck)

section moves
variable {n n' : ℕ} {req req' : ℕ → Option Server.WriteReq} {c' : ClientCtx} {h h' : Handles}
  {new : List Call}

/-- Only the context itself is named by what a move logs. -/
theorem Move.writeError_other (hm : Move p req n c h c' h' req' n' new) {q id : ℕ} (hq : q ≠ p) :
    .writeError q id ∉ new := by
  cases hm with
  | refuse =>
      intro h
      have := List.mem_singleton.mp h
      injection this with hqp
      exact hq hqp
  | _ => simp

theorem Move.closing_mono (hm : Move p req n c h c' h' req' n' new) (hc' : c'.closing = false) :
    c.closing = false := by
  cases hm with
  | data hclosing | complete _ hclosing | resume _ hclosing => exact hclosing ▸ hc'
  | close hc | finish hc => exact hc
  | submit | refuse | closed => exact hc'

/-- A context that is read has no write in flight. -/
theorem Phase.reading_writes (hp : Phase (some c) h) (hreading : h.reading = true) :
    h.writes = [] := by
  cases hp with
  | idle => rfl
  | writing | stuck => cases hreading
  | closing _ hr =>
      rw [hreading] at hr
      cases hr

theorem Move.stuck (hm : Move p req n c h c' h' req' n' new) (hp : Phase (some c) h)
    (hc' : c'.closing = false) :
    h'.Stuck ↔ h.Stuck ∨ ∃ id, .writeError p id ∈ new := by
  unfold Handles.Stuck
  cases hm with
  | data => simp
  | close => cases hc'
  | submit w hreading => simp [hreading]
  | refuse w hreading => simp [hp.reading_writes hreading]
  | complete hc hclosing =>
      rw [hclosing, hc] at hc'
      cases hc'
  | resume _ _ _ hw => simp [hw]
  | finish => cases hc'
  | closed t ht =>
      obtain ⟨htcp, htimer, -⟩ := hp.opened hc'
      cases t with
      | tcp => exact absurd (htcp.symm.trans ht) CloseState.noConfusion
      | timer => exact absurd (htimer.symm.trans ht) CloseState.noConfusion

end moves

theorem Tracked.move (hs : Inv s) (ht : Tracked s) {c' : ClientCtx} {h' : Handles}
    {req' : ℕ → Option Server.WriteReq} {n' : ℕ} {new : List Call} (hc : s.ctx p = some c)
    (hm : Move p s.req s.requests c (s.handles p) c' h' req' n' new) :
    Tracked { s with
      ctx := Function.update s.ctx p (some c')
      handles := Function.update s.handles p h'
      req := req'
      requests := n'
      calls := s.calls ++ new } := by
  intro q d hd hclosing
  have hd' : Function.update s.ctx p (some c') q = some d := hd
  show (∃ id, .writeError q id ∈ s.calls ++ new) ↔ (Function.update s.handles p h' q).Stuck
  simp only [List.mem_append, exists_or]
  by_cases hqp : q = p
  · subst hqp
    rw [Function.update_self] at hd'
    obtain rfl := Option.some.inj hd'
    rw [Function.update_self, hm.stuck (hs.phase_of hc) hclosing,
      ht q c hc (hm.closing_mono hclosing)]
  · rw [Function.update_of_ne hqp] at hd' ⊢
    rw [← ht q d hd' hclosing]
    exact or_iff_left fun ⟨id, hid⟩ => hm.writeError_other hqp hid

/-- A context of which at most the links have changed. -/
theorem exists_of_map {x y : Option ClientCtx} {d : ClientCtx} (hx : x = some d)
    (hxy : x.map (fun d => (d.closing, d.pendingCloses)) =
      y.map fun d => (d.closing, d.pendingCloses)) : ∃ e, y = some e ∧ e.closing = d.closing := by
  rw [hx, Option.map_some] at hxy
  obtain ⟨e, he, hpair⟩ := Option.map_eq_some_iff.mp hxy.symm
  exact ⟨e, he, (Prod.mk.inj hpair).1⟩

theorem Tracked.effect (hs : Inv s) (ht : Tracked s) (he : Effect s s') : Tracked s' := by
  cases he with
  | background => exact ht
  | discard =>
      intro q d hd hclosing
      have htracked := ht q d hd hclosing
      simpa using htracked
  | move hc hm _ _ => exact ht.move hs hc hm
  | @last p c t ctx' hc _ _ _ hsame hnodes =>
      intro q d hd hclosing
      have hqp : q ≠ p := by
        rintro rfl
        have hnone := congrFun hnodes q
        rw [detach, if_pos rfl, nodesOf, Option.map_eq_none_iff] at hnone
        exact Option.some_ne_none d (hd.symm.trans hnone)
      obtain ⟨e, he, hsame'⟩ := exists_of_map hd (hsame q hqp)
      have htracked := ht q e he (hsame'.trans hclosing)
      show _ ↔ (Function.update s.handles p _ q).Stuck
      rw [Function.update_of_ne hqp]
      simpa using htracked

theorem Tracked.effects (hs : Inv s) (ht : Tracked s) (he : Effects s s') : Tracked s' := by
  induction he with
  | refl => exact ht
  | tail hes he ih => exact ih.effect (hs.effects hes) he

theorem Tracked.arrival {a b : Bool} (hl : Logged s) (ht : Tracked s)
    (ha : Arrival a b s s') : Tracked s' := by
  cases ha with
  | full => exact ht
  | noMemory => exact ht
  | @admitted ctx' _ _ _ hsame hnew hnodes =>
      intro q d hd hclosing
      by_cases hqn : q = s.contexts
      · subst hqn
        refine iff_of_false (fun ⟨id, hid⟩ => ?_) ?_
        · exact lt_irrefl _ (hl.made _ hid).1
        · show ¬ (Function.update s.handles s.contexts _ s.contexts).Stuck
          rw [Function.update_self]
          exact fun h => by cases h.1
      · obtain ⟨e, he, hsame'⟩ := exists_of_map hd (hsame q hqn)
        show _ ↔ (Function.update s.handles s.contexts _ q).Stuck
        rw [Function.update_of_ne hqn]
        exact ht q e he (hsame'.trans hclosing)
  | refused =>
      intro q d hd hclosing
      have hd' : Function.update s.ctx s.contexts _ q = some d := hd
      by_cases hqn : q = s.contexts
      · rw [hqn, Function.update_self] at hd'
        obtain rfl := Option.some.inj hd'
        cases hclosing
      · rw [Function.update_of_ne hqn] at hd'
        show _ ↔ (Function.update s.handles s.contexts _ q).Stuck
        rw [Function.update_of_ne hqn]
        simpa using ht q d hd' hclosing

theorem Tracked.does (hs : Inv s) (hl : Logged s) (ht : Tracked s) {cb : Callback}
    (hdoes : Does s cb s') : Tracked s' := by
  cases hdoes with
  | failed => exact ht
  | arrival _ harrival =>
      have ht' : Tracked { s with waiting := true } := ht
      exact ht'.arrival (hl.listener true s.stopped) harrival
  | client _ heffects => exact ht.effects hs heffects
  | shutdown heffects =>
      have ht' := ht.effects hs heffects
      exact ht'

theorem Trace.tracked {svc : Services σ} {s₀ : Server σ} {cbs : List Callback} (h₀ : Inv s₀)
    (hl₀ : Logged s₀) (ht₀ : Tracked s₀) (h : Trace svc s₀ cbs s) : Tracked s := by
  induction h with
  | nil => exact ht₀
  | snoc htrace hallowed hstep ih =>
      have hs := htrace.inv h₀
      exact ih.does hs (htrace.logged h₀ hl₀) (does_of_step svc hs hallowed hstep)

/-- Every accepted client that is not closing is read, with its idle timer armed, or has a write
submitted. -/
def Served (s : Server σ) : Prop :=
  ∀ p c, s.ctx p = some c → (s.handles p).accepted = true → c.closing = false →
    ((s.handles p).reading = true ∧ (s.handles p).timer = true) ∨ (s.handles p).writes ≠ []

theorem Phase.not_stuck_iff {h : Handles} (hp : Phase (some c) h) (hc : c.closing = false) :
    (h.reading = true ∧ h.timer = true) ∨ h.writes ≠ [] ↔ ¬ h.Stuck := by
  unfold Handles.Stuck
  cases hp with
  | idle | writing | stuck => simp
  | closing hc' =>
      rw [hc] at hc'
      cases hc'

/-- No client is stuck exactly as long as `uv_write` has not failed for one that is open. -/
theorem served_iff (svc : Services σ) (responseBuffer : Bytes) (app : σ) {s : Server σ}
    {cbs : List Callback} (h : Trace svc (start responseBuffer app) cbs s) :
    Served s ↔ ∀ p c, s.ctx p = some c → (s.handles p).accepted = true → c.closing = false →
      ∀ id, .writeError p id ∉ s.calls := by
  have h₀ := inv_start responseBuffer app
  have hl₀ := logged_start responseBuffer app
  have hs := h.inv h₀
  have ht : Tracked s := by
    refine h.tracked h₀ hl₀ fun p c hc _ => ?_
    cases hc
  refine forall_congr' fun p => forall_congr' fun c => forall_congr' fun hc =>
    forall_congr' fun _ => forall_congr' fun hclosing => ?_
  rw [(hs.phase_of hc).not_stuck_iff hclosing, ← ht p c hc hclosing, not_exists]

/-- A whole request arrives; `ok` is what becomes of `uv_write`. -/
def sampleRead (ok : Bool) : Callback :=
  .readable 0 (some (List.replicate clientBufferSize 0)) ⟨true, ok⟩
    (bytes "GET / HTTP/1.1\x0d\n\x0d\n")

theorem sampleRead_allowed (ok : Bool) : Allowed oneClient (sampleRead ok) := by
  refine ⟨rfl, by simp [Block], fun r hr => ?_⟩
  have hspace : (onBufferAlloc (some (List.replicate clientBufferSize 0)) 0 oneClient).map
      Prod.snd = some (clientBufferSize - 1) := by decide +kernel
  rw [hr] at hspace
  rw [Option.some.inj hspace]
  decide +kernel

theorem served_iff_answered : ∃ s : Server Unit,
    Trace echo (start [] ()) [.connection 0 true true, sampleRead true] s ∧ Served s := by
  obtain ⟨s, hrun, -⟩ :=
    step_runs echo (trace_oneClient.inv (inv_start [] ())) (sampleRead_allowed true)
  have htrace := trace_oneClient.andThen (sampleRead true) (sampleRead_allowed true) hrun
  refine ⟨s, htrace, (served_iff echo [] () htrace).mpr fun p c _ _ _ id => ?_⟩
  have hcalls : (step echo (sampleRead true) oneClient).map Server.calls = some [] := by
    decide +kernel
  rw [hrun] at hcalls
  rw [Option.some.inj hcalls]
  exact List.not_mem_nil

/-- The request has come and `uv_write` fails. -/
theorem served_lost : ¬ ∀ (cbs : List Callback) (s : Server Unit),
    Trace echo (start [] ()) cbs s → Served s := by
  intro hall
  obtain ⟨s, hrun, -⟩ :=
    step_runs echo (trace_oneClient.inv (inv_start [] ())) (sampleRead_allowed false)
  have htrace := trace_oneClient.andThen (sampleRead false) (sampleRead_allowed false) hrun
  have hview : (step echo (sampleRead false) oneClient).map
      (fun s => ((s.ctx 0).map ClientCtx.closing, s.handles 0)) =
      some (some false, ⟨true, false, false, [], .opened, .opened⟩) := by decide +kernel
  rw [hrun] at hview
  obtain ⟨hctx, hhandles⟩ := Prod.mk.inj (Option.some.inj hview)
  obtain ⟨c, hc, hclosing⟩ := Option.map_eq_some_iff.mp hctx
  have hserved := hall _ _ htrace 0 c hc (by rw [hhandles]) hclosing
  rw [hhandles] at hserved
  simp at hserved

/-! ### The listener -/

/-- The server leaves a connection that libuv reports without `uv_accept`. -/
def TurnedAway (s : Server σ) (cb : Callback) : Prop :=
  ∃ status allocOk acceptOk, cb = .connection status allocOk acceptOk ∧ 0 ≤ status ∧
    (s.activeClientsCount ≥ maxClients ∨ allocOk = false)

/-- No step of the run turns a connection away. -/
def NoneTurnedAway (svc : Services σ) (s₀ : Server σ) (cbs : List Callback) : Prop :=
  ∀ before cb after s, cbs = before ++ cb :: after → Trace svc s₀ before s → ¬ TurnedAway s cb

section listener
variable {svc : Services σ} {s₀ : Server σ} {cbs : List Callback}

/-- The callbacks determine the state. -/
theorem Trace.unique {cbs' : List Callback} (h : Trace svc s₀ cbs s) (h' : Trace svc s₀ cbs' s')
    (hcbs : cbs' = cbs) : s' = s := by
  induction h generalizing cbs' s' with
  | nil =>
      cases h' with
      | nil => rfl
      | snoc => simp at hcbs
  | snoc htrace _ hstep ih =>
      cases h' with
      | nil => simp at hcbs
      | snoc htrace' _ hstep' =>
          obtain ⟨hcbs, hcb⟩ := List.append_inj' hcbs rfl
          obtain rfl := ih htrace' hcbs
          obtain rfl := List.head_eq_of_cons_eq hcb
          exact Option.some.inj (hstep'.symm.trans hstep)

theorem noneTurnedAway_concat (h : Trace svc s₀ cbs s) (cb : Callback) :
    NoneTurnedAway svc s₀ (cbs ++ [cb]) ↔ NoneTurnedAway svc s₀ cbs ∧ ¬ TurnedAway s cb := by
  refine ⟨fun hnone => ⟨fun before cb' after s₁ hcbs htrace => ?_, ?_⟩, fun hnone => ?_⟩
  · exact hnone before cb' (after ++ [cb]) s₁ (by rw [hcbs]; simp) htrace
  · exact hnone cbs cb [] s rfl h
  · intro before cb' after s₁ hcbs htrace
    rcases List.eq_nil_or_concat after with rfl | ⟨after, last, rfl⟩
    · obtain ⟨rfl, hcb⟩ := List.append_inj' hcbs rfl
      obtain rfl := List.head_eq_of_cons_eq hcb
      rw [h.unique htrace rfl]
      exact hnone.2
    · rw [List.concat_eq_append, ← List.cons_append, ← List.append_assoc] at hcbs
      obtain ⟨hcbs, -⟩ := List.append_inj' hcbs rfl
      exact hnone.1 before cb' after s₁ hcbs htrace

theorem Effect.waiting (he : Effect s s') : s'.waiting = s.waiting := by
  cases he <;> rfl

theorem Effects.waiting (he : Effects s s') : s'.waiting = s.waiting := by
  induction he with
  | refl => rfl
  | tail _ he ih => exact he.waiting.trans ih

theorem Arrival.waiting {a b : Bool} (hs : s.waiting = true) (ha : Arrival a b s s') :
    s'.waiting = true ↔ s.activeClientsCount ≥ maxClients ∨ a = false := by
  cases ha with
  | full hfull => exact iff_of_true hs (.inl hfull)
  | noMemory _ ha => exact iff_of_true hs (.inr ha)
  | admitted hroom ha | refused hroom ha =>
      refine iff_of_false Bool.noConfusion ?_
      rintro (hfull | ha')
      · exact absurd hroom (not_lt.mpr hfull)
      · exact absurd (ha.symm.trans ha') Bool.noConfusion

/-- A step leaves a connection waiting if one waited before it or it turns one away. -/
theorem Does.waiting {cb : Callback} (hallowed : Allowed s cb) (hdoes : Does s cb s') :
    s'.waiting = true ↔ s.waiting = true ∨ TurnedAway s cb := by
  have hother : (∀ status a b, cb ≠ .connection status a b) → ¬ TurnedAway s cb :=
    fun hcb ⟨status, a, b, h, _⟩ => hcb status a b h
  cases hdoes with
  | failed hstatus =>
      refine iff_of_false Bool.noConfusion ?_
      rintro (hwaiting | ⟨status, a, b, h, hstatus', -⟩)
      · exact absurd (hwaiting.symm.trans hallowed.1) Bool.noConfusion
      · injection h with h
        omega
  | @arrival status a b s' hstatus harrival =>
      rw [harrival.waiting rfl]
      refine ⟨fun h => .inr ⟨status, a, b, rfl, hstatus, h⟩, ?_⟩
      rintro (hwaiting | ⟨status', a', b', h, -, hturned⟩)
      · exact absurd (hwaiting.symm.trans hallowed.1) Bool.noConfusion
      · injection h with _ ha
        rw [ha]
        exact hturned
  | client hcb heffects =>
      rw [heffects.waiting]
      exact (or_iff_left (hother hcb)).symm
  | @shutdown s₁ heffects =>
      show s₁.waiting = true ↔ _
      rw [heffects.waiting]
      exact (or_iff_left (hother fun _ _ _ => Callback.noConfusion)).symm

theorem Trace.waiting (h₀ : Inv s₀) (hw : s₀.waiting = false) (h : Trace svc s₀ cbs s) :
    s.waiting = false ↔ NoneTurnedAway svc s₀ cbs := by
  induction h with
  | nil =>
      refine iff_of_true hw fun before cb after s hcbs => ?_
      simp at hcbs
  | @snoc cbs s s' cb htrace hallowed hstep ih =>
      have hdoes := does_of_step svc (htrace.inv h₀) hallowed hstep
      rw [noneTurnedAway_concat htrace, ← ih, ← Bool.not_eq_true, ← Bool.not_eq_true,
        hdoes.waiting hallowed, not_or]

end listener

/-- libuv may report a connection. -/
def Able (s : Server σ) : Prop :=
  ∀ status allocOk acceptOk, Allowed s (.connection status allocOk acceptOk)

/-- With fewer clients than the cap a listener that is open delivers exactly as long as no
connection of the run has been turned away. -/
theorem listener_iff (svc : Services σ) (responseBuffer : Bytes) (app : σ) {s : Server σ}
    {cbs : List Callback} (h : Trace svc (start responseBuffer app) cbs s) :
    (s.liveCount < maxClients → s.stopped = false → Able s) ↔
      (s.liveCount < maxClients → s.stopped = false →
        NoneTurnedAway svc (start responseBuffer app) cbs) := by
  have hwaiting := h.waiting (inv_start responseBuffer app) rfl
  refine forall_congr' fun _ => forall_congr' fun hstopped => ?_
  rw [← hwaiting]
  exact ⟨fun hable => (hable 0 true true).1, fun hfree _ _ _ => ⟨hfree, hstopped⟩⟩

theorem liveCount_le (s : Server σ) : s.liveCount ≤ s.contexts :=
  (Finset.card_filter_le _ _).trans_eq (Finset.card_range _)

/-- A failed `uv_accept` has turned nobody away; a connection that finds no memory is turned away. -/
theorem listener_iff_mixed : NoneTurnedAway echo (start [] ()) mixedCallbacks ∧
    ¬ NoneTurnedAway echo (start [] ()) (mixedCallbacks ++ [.connection 0 false true]) := by
  have hfew : ∀ s : Server Unit, s.contexts = 3 → s.liveCount < maxClients :=
    fun s hs => lt_of_le_of_lt (hs ▸ s.liveCount_le) (by decide)
  have hable : Allowed mixed (.connection 0 false true) := by decide +kernel
  obtain ⟨s, hstep, -⟩ := step_runs echo (trace_mixed.inv (inv_start [] ())) hable
  have htrace := trace_mixed.andThen _ hable hstep
  refine ⟨?_, fun hnone => ?_⟩
  · apply (listener_iff echo [] () trace_mixed).mp (fun _ _ _ _ _ => hable)
    · exact hfew mixed mixed_state.1
    · exact hable.2
  · have hstate : (step echo (.connection 0 false true) mixed).map
        (fun s => (s.contexts, s.waiting, s.stopped)) = some (3, true, false) := by decide +kernel
    rw [hstep] at hstate
    have hsome := Option.some.inj hstate
    simp only [Prod.mk.injEq] at hsome
    obtain ⟨hthree, hwaiting, hopen⟩ := hsome
    have hagain := (listener_iff echo [] () htrace).mpr (fun _ _ => hnone) (hfew s hthree) hopen
    exact absurd ((hagain 0 true true).1.symm.trans hwaiting) Bool.noConfusion

/-- No memory for one connection, and no other is reported. -/
theorem listener_wedged : ¬ ∀ (cbs : List Callback) (s : Server Unit),
    Trace echo (start [] ()) cbs s → s.liveCount < maxClients → s.stopped = false → Able s := by
  intro hall
  have h₀ : Trace echo (start [] ()) [] _ := .nil
  have h₁ := h₀.andThen (.connection 0 false true) ⟨rfl, rfl⟩ rfl
  have hable := hall _ _ h₁ (by decide) rfl
  exact absurd (hable 0 true true).1 Bool.noConfusion

end Server

end Segnalacity
