import Segnalacity.Server.Linearization
import Segnalacity.Server.Registry

/-! # Shutting down

`server_shutdown` closes the clients of the list, closes the listener and runs the event loop once
more, before it destroys the pool of contexts.  This last run ends, and ends well
(`shutdown_drains`): every callback of it finishes one write or one close, so their number is known
beforehand, there is always a next one until all are done, and then every context has been released
and every write request freed, but for those whose `uv_write` failed.  Nothing more is read and no
request is served.  The list must be right for this: see `Registry`. -/

namespace Segnalacity

open CStr Http Dll

namespace Server

variable {σ : Type}

/-! ### What is left to finish -/

/-- The callbacks still to come for the handles of one context. -/
def Handles.unfinished (h : Handles) : ℕ := h.writes.length + pendingCount h

def unfinished (s : Server σ) : ℕ := ∑ p ∈ Finset.range s.contexts, (s.handles p).unfinished

/-- The listener is closed, and every context that is left is closing. -/
structure Draining (s : Server σ) : Prop where
  inv : Inv s
  closing : ∀ p c, s.ctx p = some c → c.closing = true
  stopped : s.stopped = true

/-- Every request still allocated is in flight, or its `uv_write` has failed. -/
def Accounted (s : Server σ) : Prop :=
  ∀ id w, s.req id = some w →
    id ∈ (s.handles w.ctx).writes ∨ ∃ p, .writeError p id ∈ s.calls

theorem unfinished_update {n p : ℕ} (f : ℕ → Handles) (h : Handles) (hp : p < n) :
    (∑ q ∈ Finset.range n, (Function.update f p h q).unfinished) + (f p).unfinished =
      (∑ q ∈ Finset.range n, (f q).unfinished) + h.unfinished := by
  have hmem := Finset.mem_range.mpr hp
  have hrest : ∑ q ∈ (Finset.range n).erase p, (Function.update f p h q).unfinished =
      ∑ q ∈ (Finset.range n).erase p, (f q).unfinished := by
    apply Finset.sum_congr rfl
    intro q hq
    rw [Function.update_of_ne (Finset.ne_of_mem_erase hq)]
  rw [← Finset.add_sum_erase _ _ hmem, ← Finset.add_sum_erase _ (fun q => (f q).unfinished) hmem,
    hrest, Function.update_self]
  omega

/-! ### Requests are freed or in flight -/

section accounted
variable {s s' : Server σ} {p n n' : ℕ} {req req' : ℕ → Option Server.WriteReq}
  {c c' : ClientCtx} {h h' : Handles} {new : List Call}

/-- A request that a move leaves allocated was allocated and stays in flight, or is submitted, or
its `uv_write` fails. -/
theorem Move.accounted (hm : Move p req n c h c' h' req' n' new) {id : ℕ} {w : Server.WriteReq}
    (hw : req' id = some w) :
    (req id = some w ∧ (id ∈ h.writes → id ∈ h'.writes)) ∨ (w.ctx = p ∧ id ∈ h'.writes) ∨
      ∃ q, .writeError q id ∈ new := by
  have hfreed : ∀ {id' : ℕ} {rest : List ℕ}, Function.update req id' none id = some w →
      h.writes = id' :: rest → req id = some w ∧ (id ∈ h.writes → id ∈ rest) := by
    intro id' rest hupdate hwrites
    have hne : id ≠ id' := by
      rintro rfl
      simp at hupdate
    rw [Function.update_of_ne hne] at hupdate
    simp [hupdate, hwrites, hne]
  cases hm with
  | data | close => exact .inl ⟨hw, fun hid => hid⟩
  | submit v _ hv =>
      by_cases hid : id = n
      · subst hid
        rw [Function.update_self] at hw
        obtain rfl := Option.some.inj hw
        exact .inr (.inl ⟨hv, by simp⟩)
      · rw [Function.update_of_ne hid] at hw
        exact .inl ⟨hw, fun hid => List.mem_append_left _ hid⟩
  | refuse v _ =>
      by_cases hid : id = n
      · exact .inr (.inr ⟨p, by simp [hid]⟩)
      · rw [Function.update_of_ne hid] at hw
        exact .inl ⟨hw, fun hid => hid⟩
  | complete _ _ _ hwrites | resume _ _ _ hwrites | finish _ hwrites =>
      exact .inl (hfreed hw hwrites)
  | closed t => exact .inl ⟨hw, by cases t <;> exact fun hid => hid⟩

theorem Accounted.effect (ha : Accounted s) (he : Effect s s') : Accounted s' := by
  cases he with
  | background => exact ha
  | discard =>
      intro id w hw
      have hid : id ≠ s.requests := by
        rintro rfl
        simp at hw
      replace hw : Function.update s.req s.requests none id = some w := hw
      rw [Function.update_of_ne hid] at hw
      rcases ha id w hw with hin | ⟨p, hp⟩
      · exact .inl hin
      · exact .inr ⟨p, List.mem_append_left _ hp⟩
  | @move p c c' h' req' n' new hc hm _ _ =>
      intro id w hw
      show id ∈ (Function.update s.handles p h' w.ctx).writes ∨ ∃ q, _ ∈ s.calls ++ new
      rcases hm.accounted hw with ⟨hold, hstay⟩ | ⟨rfl, hin⟩ | ⟨q, hq⟩
      · rcases ha id w hold with hin | ⟨q, hq⟩
        · left
          by_cases hp : w.ctx = p
          · rw [hp, Function.update_self]
            exact hstay (hp ▸ hin)
          · rw [Function.update_of_ne hp]
            exact hin
        · exact .inr ⟨q, List.mem_append_left _ hq⟩
      · left
        rw [Function.update_self]
        exact hin
      · exact .inr ⟨q, List.mem_append_right _ hq⟩
  | @last p c t ctx' _ _ _ _ _ _ =>
      intro id w hw
      rcases ha id w hw with hin | ⟨q, hq⟩
      · left
        show id ∈ (Function.update s.handles p (Handles.close t .done (s.handles p)) w.ctx).writes
        by_cases hp : w.ctx = p
        · rw [hp] at hin
          rw [hp, Function.update_self]
          cases t <;> exact hin
        · rw [Function.update_of_ne hp]
          exact hin
      · exact .inr ⟨q, List.mem_append_left _ hq⟩

theorem Accounted.effects (ha : Accounted s) (he : Effects s s') : Accounted s' := by
  induction he with
  | refl => exact ha
  | tail _ he ih => exact ih.effect he

theorem Accounted.arrival (hs : Inv s) (ha : Accounted s) {a b : Bool} (har : Arrival a b s s') :
    Accounted s' := by
  have hnone : (s.handles s.contexts).writes = [] := by
    rw [(hs.unborn s.contexts le_rfl).2]
    rfl
  have hold : ∀ (h : Handles) (calls : List Call), (∀ x ∈ s.calls, x ∈ calls) →
      ∀ id w, s.req id = some w →
        id ∈ (Function.update s.handles s.contexts h w.ctx).writes ∨
          ∃ p, Call.writeError p id ∈ calls := by
    intro h calls hcalls id w hw
    rcases ha id w hw with hin | ⟨p, hp⟩
    · left
      rw [Function.update_of_ne]
      · exact hin
      · intro hctx
        simp [hctx, hnone] at hin
    · exact .inr ⟨p, hcalls _ hp⟩
  cases har with
  | full | noMemory => exact ha
  | admitted => exact hold _ _ fun _ hx => hx
  | refused => exact hold _ _ fun _ hx => List.mem_append_left _ hx

theorem Accounted.does (hs : Inv s) (ha : Accounted s) {cb : Callback} (hdoes : Does s cb s') :
    Accounted s' := by
  cases hdoes with
  | failed => exact ha
  | arrival _ harrival =>
      have ha' : Accounted { s with waiting := true } := ha
      exact ha'.arrival (hs.listener true s.stopped) harrival
  | client _ heffects => exact ha.effects heffects
  | shutdown heffects =>
      have ha' := ha.effects heffects
      exact ha'

theorem Trace.accounted {svc : Services σ} {s₀ : Server σ} {cbs : List Callback} (h₀ : Inv s₀)
    (ha : Accounted s₀) (h : Trace svc s₀ cbs s) : Accounted s := by
  induction h with
  | nil => exact ha
  | snoc htrace hallowed hstep ih =>
      exact ih.does (htrace.inv h₀) (does_of_step svc (htrace.inv h₀) hallowed hstep)

end accounted

/-! ### One callback while draining -/

/-- A step that concerns the handles of `p` only. -/
structure Finishes (p : ℕ) (h' : Handles) (s s' : Server σ) : Prop where
  contexts : s'.contexts = s.contexts
  handles : s'.handles = Function.update s.handles p h'
  closing : ∀ q c', s'.ctx q = some c' → ∃ c, s.ctx q = some c ∧ c'.closing = c.closing
  stopped : s'.stopped = s.stopped
  shared : (s'.responseBuffer, s'.app) = (s.responseBuffer, s.app)

section draining
variable {s s' : Server σ} {p : ℕ} {c : ClientCtx} {h' : Handles}

theorem Finishes.unfinished (hf : Finishes p h' s s') (hp : p < s.contexts)
    (hless : h'.unfinished + 1 = (s.handles p).unfinished) :
    s'.unfinished + 1 = s.unfinished := by
  have hsum := unfinished_update s.handles h' hp
  unfold Server.unfinished
  rw [hf.contexts, hf.handles]
  omega

theorem Finishes.draining (hf : Finishes p h' s s') (hd : Draining s) (hs' : Inv s') :
    Draining s' := by
  refine ⟨hs', fun q c' hq => ?_, hf.stopped.trans hd.stopped⟩
  obtain ⟨c, hc, hsame⟩ := hf.closing q c' hq
  rw [hsame]
  exact hd.closing q c hc

/-- A context of which the closing mark stays. -/
theorem closing_update {ctx : ℕ → Option ClientCtx} (c₁ : ClientCtx) (hc : ctx p = some c)
    (hsame : c₁.closing = c.closing) {q : ℕ} {c' : ClientCtx}
    (hq : Function.update ctx p (some c₁) q = some c') :
    ∃ d, ctx q = some d ∧ c'.closing = d.closing := by
  by_cases hqp : q = p
  · subst hqp
    rw [Function.update_self] at hq
    obtain rfl := Option.some.inj hq
    exact ⟨c, hc, hsame⟩
  · rw [Function.update_of_ne hqp] at hq
    exact ⟨c', hq, rfl⟩

theorem written_finishes (svc : Services σ) (hd : Draining s) {id : ℕ} {rest : List ℕ} {ok : Bool}
    (hw : (s.handles p).writes = id :: rest) (hstep : step svc (.written p id ok) s = some s') :
    Finishes p { s.handles p with writes := rest } s s' := by
  obtain ⟨c, hc⟩ := hd.inv.waits hw
  have hclosing := hd.closing p c hc
  obtain ⟨w, hreq, hctx⟩ := (hd.inv.owned p).2 id (hw ▸ List.mem_cons_self)
  have hhandles : (written p id s).handles =
      Function.update s.handles p { s.handles p with writes := rest } := by
    show Function.update s.handles p { s.handles p with writes := (s.handles p).writes.tail } = _
    rw [hw, List.tail_cons]
  have hc₁ : (written p id s).ctx p = some c := hc
  rw [step_written svc hreq, hctx] at hstep
  split_ifs at hstep
  · rw [closeClient_closing hc₁ hclosing] at hstep
    obtain rfl := Option.some.inj hstep
    exact ⟨rfl, hhandles, fun q c' hq => ⟨c', hq, rfl⟩, rfl, rfl⟩
  · -- handles that are being closed are not started again
    obtain ⟨htcp, htimer⟩ := (hd.inv.phase_of hc).not_opened hclosing
    simp only [modifyCtx, hc₁, Option.bind_eq_bind, Option.bind_some] at hstep
    obtain rfl := Option.some.inj hstep
    refine ⟨rfl, ?_, fun q c' hq => closing_update { c with totalRead := 0 } hc rfl hq, rfl, rfl⟩
    simp [uvReadStart, uvTimerStart, setHandles, setCtx, hhandles, htcp, htimer]

theorem closed_finishes (svc : Services σ) (hd : Draining s) {t : HandleType}
    (ht : (s.handles p).closeState t = .pending) (htcp : t = .tcp → (s.handles p).writes = [])
    (hstep : step svc (.closed p t) s = some s') :
    Finishes p (Handles.close t .done (s.handles p)) s s' ∧ p < s.contexts := by
  have hp : p < s.contexts := by
    by_contra hno
    rw [(hd.inv.unborn p (not_lt.mp hno)).2] at ht
    cases t <;> cases ht
  obtain ⟨c, hc⟩ : ∃ c, s.ctx p = some c := by
    cases hc : s.ctx p with
    | some c => exact ⟨c, rfl⟩
    | none =>
        have hphase := hd.inv.phase p hp
        rw [hc] at hphase
        obtain ⟨⟨h₁, h₂⟩, -⟩ := hphase.gone_done
        cases t with
        | tcp => exact absurd (h₁.symm.trans ht) (by decide)
        | timer => exact absurd (h₂.symm.trans ht) (by decide)
  refine ⟨?_, hp⟩
  set s₁ := s.setHandles p (Handles.close t .done)
  have hc₁ : s₁.ctx p = some c := hc
  have hstep' : onClose p s₁ = some s' := hstep
  simp only [onClose, hc₁, Option.bind_eq_bind, Option.bind_some] at hstep'
  set c₁ : ClientCtx := { c with pendingCloses := decrement c.pendingCloses }
  split_ifs at hstep'
  · obtain rfl := Option.some.inj hstep'
    exact ⟨rfl, rfl, fun q c' hq => closing_update c₁ hc rfl hq, rfl, rfl⟩
  · have hnodes : (s₁.setCtx p c₁).nodes = s.nodes := nodesOf_update hc rfl rfl
    have hlinks : Threaded (s₁.setCtx p c₁).nodes (s₁.setCtx p c₁).activeClientsHead s.Live := by
      rw [hnodes]
      exact hd.inv.links
    have hc₂ : (s₁.setCtx p c₁).ctx p = some c₁ := Function.update_self _ _ _
    obtain ⟨ctx', hrun, hsame, hctx'⟩ := unlink_release hlinks hc₂
    obtain rfl := Option.some.inj (hrun.symm.trans hstep')
    refine ⟨rfl, rfl, fun q c' hq => ?_, rfl, rfl⟩
    have hleft : ctx' q = some c' := hq
    have hqp : q ≠ p := by
      rintro rfl
      have hgone : nodesOf ctx' q = none := by
        rw [hctx']
        exact if_pos rfl
      rw [nodesOf, hleft] at hgone
      cases hgone
    have hmap := hsame q hqp
    have hother : (s₁.setCtx p c₁).ctx q = s.ctx q := Function.update_of_ne hqp _ _
    rw [hleft, hother] at hmap
    obtain ⟨d, hd', hsame'⟩ := Option.map_eq_some_iff.mp hmap.symm
    exact ⟨d, hd', (Prod.mk.inj hsame').1.symm⟩

theorem pendingCount_done {h : Handles} {t : HandleType} (ht : h.closeState t = .pending) :
    pendingCount (Handles.close t .done h) + 1 = pendingCount h := by
  cases t with
  | tcp =>
      have htcp : h.tcpClose = .pending := ht
      unfold pendingCount Handles.close
      simp only [htcp, if_true, reduceCtorEq, if_false]
      omega
  | timer =>
      have htimer : h.timerClose = .pending := ht
      unfold pendingCount Handles.close
      simp only [htimer, if_true, reduceCtorEq, if_false]

/-- While draining nothing is read and no timer is armed. -/
theorem Draining.quiet (hd : Draining s) (p : ℕ) :
    (s.handles p).reading = false ∧ (s.handles p).timer = false := by
  by_cases hp : p < s.contexts
  · have hphase := hd.inv.phase p hp
    have hclosing := hd.closing p
    generalize s.handles p = h at hphase
    generalize s.ctx p = x at hphase hclosing
    cases hphase with
    | idle hc | writing _ hc | stuck hc =>
        rw [hclosing _ rfl] at hc
        cases hc
    | closing _ hr ht => exact ⟨hr, ht⟩
    | gone hr ht => exact ⟨hr, ht⟩
  · rw [(hd.inv.unborn p (not_lt.mp hp)).2]
    exact ⟨rfl, rfl⟩

/-- Every callback that still comes finishes one write or one close. -/
theorem Draining.step (svc : Services σ) (hd : Draining s) {cb : Callback}
    (hallowed : Allowed s cb) (hstep : step svc cb s = some s') :
    Draining s' ∧ s'.unfinished + 1 = s.unfinished ∧
      (s'.responseBuffer, s'.app) = (s.responseBuffer, s.app) := by
  have hs' := hd.inv.does (does_of_step svc hd.inv hallowed hstep)
  cases cb with
  | connection => exact absurd (hd.stopped.symm.trans hallowed.2) (by decide)
  | shutdown => exact absurd (hd.stopped.symm.trans hallowed) (by decide)
  | readable p => exact absurd ((hd.quiet p).1.symm.trans hallowed.1) (by decide)
  | readError p => exact absurd ((hd.quiet p).1.symm.trans hallowed.1) (by decide)
  | timeout p => exact absurd ((hd.quiet p).2.symm.trans hallowed) (by decide)
  | written p id ok =>
      obtain ⟨rest, hw⟩ := List.head?_eq_some_iff.mp hallowed
      have hf := written_finishes svc hd hw hstep
      obtain ⟨c, hc⟩ := hd.inv.waits hw
      refine ⟨hf.draining hd hs', hf.unfinished (hd.inv.lt hc) ?_, hf.shared⟩
      have hlength := congrArg List.length hw
      simp only [Handles.unfinished, pendingCount, List.length_cons] at hlength ⊢
      omega
  | closed p t =>
      obtain ⟨hf, hp⟩ := closed_finishes svc hd hallowed.1 hallowed.2 hstep
      refine ⟨hf.draining hd hs', hf.unfinished hp ?_, hf.shared⟩
      have hpending := pendingCount_done hallowed.1
      have hwrites : (Handles.close t .done (s.handles p)).writes = (s.handles p).writes := by
        cases t <;> rfl
      simp only [Handles.unfinished, hwrites]
      omega

/-- As long as something is unfinished there is a callback to come. -/
theorem Draining.next (svc : Services σ) (hd : Draining s) (h : s.unfinished ≠ 0) :
    ∃ cb s', Allowed s cb ∧ Server.step svc cb s = some s' := by
  obtain ⟨p, -, hp⟩ := Finset.exists_ne_zero_of_sum_ne_zero h
  have hallowed : ∃ cb, Allowed s cb := by
    cases hw : (s.handles p).writes with
    | cons id rest => exact ⟨.written p id true, by simp [Allowed, hw]⟩
    | nil =>
        by_cases htcp : (s.handles p).tcpClose = .pending
        · exact ⟨.closed p .tcp, htcp, fun _ => hw⟩
        · by_cases htimer : (s.handles p).timerClose = .pending
          · exact ⟨.closed p .timer, htimer, fun ht => by cases ht⟩
          · simp [Handles.unfinished, pendingCount, hw, htcp, htimer] at hp
  obtain ⟨cb, hcb⟩ := hallowed
  obtain ⟨s', hrun, -⟩ := step_runs svc hd.inv hcb
  exact ⟨cb, s', hcb, hrun⟩

/-- When all is finished every context is gone. -/
theorem Draining.finished (hd : Draining s) (h : s.unfinished = 0) (p : ℕ) :
    s.ctx p = none ∧ (s.handles p).writes = [] ∧ (p < s.contexts → (s.handles p).Done) := by
  by_cases hp : p < s.contexts
  · have hzero : (s.handles p).unfinished = 0 :=
      Finset.sum_eq_zero_iff.mp h p (Finset.mem_range.mpr hp)
    have hphase := hd.inv.phase p hp
    cases hc : s.ctx p with
    | none =>
        rw [hc] at hphase
        obtain ⟨hdone, hwrites, -⟩ := hphase.gone_done
        exact ⟨rfl, hwrites, fun _ => hdone⟩
    | some c =>
        have hclosing := hd.closing p c hc
        rw [hc] at hphase
        unfold Handles.unfinished at hzero
        generalize s.handles p = h at hphase hzero
        cases hphase with
        | idle hc' | writing _ hc' | stuck hc' =>
            rw [hclosing] at hc'
            cases hc'
        | closing _ _ _ _ _ _ _ hpos => omega
  · obtain ⟨hnone, hinit⟩ := hd.inv.unborn p (not_lt.mp hp)
    exact ⟨hnone, by rw [hinit]; rfl, fun hlt => absurd hlt hp⟩

/-- A run of the event loop while draining. -/
theorem Draining.trace {svc : Services σ} {more : List Callback} (hd : Draining s)
    (h : Trace svc s more s') :
    Draining s' ∧ s'.unfinished + more.length = s.unfinished ∧
      (s'.responseBuffer, s'.app) = (s.responseBuffer, s.app) := by
  induction h with
  | nil => exact ⟨hd, rfl, rfl⟩
  | snoc _ hallowed hstep ih =>
      obtain ⟨hd₁, hcount, hshared⟩ := ih
      obtain ⟨hd₂, hless, hshared'⟩ := hd₁.step svc hallowed hstep
      refine ⟨hd₂, ?_, hshared'.trans hshared⟩
      simp only [List.length_append, List.length_singleton]
      omega

end draining

/-! ### The shutdown itself -/

section shutdown
variable {s s' : Server σ} {p : ℕ} {c : ClientCtx}

/-- What `close_client` does to the marks: the context is closing afterwards, the others stay. -/
theorem closeClient_marks (hs : Inv s) (hc : s.ctx p = some c) (h : closeClient p s = some s') :
    s'.ctx = Function.update s.ctx p (some { c with
      closing := true, pendingCloses := if c.closing then c.pendingCloses else 2 }) ∧
      s'.contexts = s.contexts ∧ (s'.responseBuffer, s'.app) = (s.responseBuffer, s.app) := by
  cases hclosing : c.closing with
  | true =>
      rw [closeClient_closing hc hclosing] at h
      obtain rfl := Option.some.inj h
      refine ⟨?_, rfl, rfl⟩
      rw [if_pos rfl, show { c with closing := true } = c by rw [← hclosing], ← hc,
        Function.update_eq_self]
  | false =>
      obtain ⟨htcp, htimer, -⟩ := (hs.phase_of hc).opened hclosing
      rw [closeClient_opened hc hclosing htcp htimer] at h
      obtain rfl := Option.some.inj h
      exact ⟨rfl, rfl, rfl⟩

/-- Every client on the way of `client_manager_close_all` is closed. -/
theorem closeAll_closing (n : ℕ) {prev o : Option ℕ} {l : List ℕ} (hs : Inv s)
    (hchain : Chain s.nodes prev o l) (h : closeAllLoop closeClient n o s = some s') :
    (∀ q c', s'.ctx q = some c' → ∃ d, s.ctx q = some d ∧
      (q ∈ l ∨ d.closing = true → c'.closing = true)) ∧
      s'.contexts = s.contexts ∧ (s'.responseBuffer, s'.app) = (s.responseBuffer, s.app) := by
  induction l generalizing n prev o s with
  | nil =>
      obtain rfl : o = none := hchain
      have hsame : s = s' := by cases n <;> exact Option.some.inj h
      subst hsame
      exact ⟨fun q c' hq => ⟨c', hq, by simp⟩, rfl, rfl⟩
  | cons p l ih =>
      obtain ⟨rfl, a, ha, -, hrest⟩ := hchain
      cases n with
      | zero => cases h
      | succ n =>
          obtain ⟨c, hc, hlinks⟩ := Option.map_eq_some_iff.mp ha
          simp only [closeAllLoop, hc, Option.bind_eq_bind, Option.bind_some] at h
          obtain ⟨s₁, h₁, h₂⟩ := Option.bind_eq_some_iff.mp h
          obtain ⟨s₁', hrun, heffects, hnodes⟩ := closeClient_runs hs hc
          obtain rfl := Option.some.inj (h₁.symm.trans hrun)
          obtain ⟨hmarks, hcontexts, hshared⟩ := closeClient_marks hs hc h₁
          rw [← hnodes, ← hlinks] at hrest
          obtain ⟨hclosed, hcontexts', hshared'⟩ := ih n (hs.effects heffects) hrest h₂
          refine ⟨fun q c' hq => ?_, hcontexts'.trans hcontexts, hshared'.trans hshared⟩
          obtain ⟨d, hd, hmark⟩ := hclosed q c' hq
          by_cases hqp : q = p
          · subst hqp
            rw [hmarks, Function.update_self] at hd
            obtain rfl := Option.some.inj hd
            exact ⟨c, hc, fun _ => hmark (.inr rfl)⟩
          · rw [hmarks, Function.update_of_ne hqp] at hd
            refine ⟨d, hd, fun hor => hmark ?_⟩
            simpa [hqp] using hor

/-- A shutdown with a right list leaves no client open. -/
theorem shutdown_draining (svc : Services σ) (hs : Inv s)
    (hlisted : Listed s.nodes s.activeClientsHead s.Live)
    (hopen : s.stopped = false) (h : step svc .shutdown s = some s') :
    Draining s' ∧ (s'.responseBuffer, s'.app) = (s.responseBuffer, s.app) := by
  have hdoes : Does s .shutdown s' := does_of_step svc hs hopen h
  have hs' := hs.does hdoes
  obtain ⟨s₁, h₁, h₂⟩ := Option.bind_eq_some_iff.mp
    (show (clientManagerCloseAll closeClient s >>= fun s => some { s with stopped := true }) =
      some s' from h)
  obtain rfl := Option.some.inj h₂
  obtain ⟨l, hchain, -, hmem⟩ := hlisted.chain fun p hp => hs.live_lt hp
  obtain ⟨hclosed, -, hshared⟩ := closeAll_closing _ hs hchain h₁
  refine ⟨⟨hs', fun p c' hc' => ?_, rfl⟩, hshared⟩
  obtain ⟨d, hd, hmark⟩ := hclosed p c' hc'
  refine hmark ?_
  cases hclosing : d.closing with
  | true => exact .inr rfl
  | false =>
      -- an open context has been accepted, so it is live and on the list
      left
      have hphase := hs.phase_of hd
      refine (hmem p).mpr ⟨?_, hphase.not_done⟩
      generalize s.handles p = h at hphase
      cases hphase with
      | idle | writing | stuck => rfl
      | closing hc =>
          rw [hclosing] at hc
          cases hc

/-- **The last run of the event loop.**  In whatever state the server is shut down, with whatever
requests and closes pending, as long as no context whose `uv_accept` failed has been released. -/
theorem shutdown_drains (svc : Services σ) {responseBuffer : Bytes} {app : σ}
    {cbs more : List Callback} {s s₁ s' : Server σ}
    (h : Trace svc (start responseBuffer app) cbs s)
    (hlist : ∀ p, (s.handles p).accepted = false → ¬ (s.handles p).Done)
    (hopen : s.stopped = false) (hshut : step svc .shutdown s = some s₁)
    (hmore : Trace svc s₁ more s') :
    s'.unfinished + more.length = s₁.unfinished ∧
      (s'.responseBuffer, s'.app) = (s.responseBuffer, s.app) ∧
      (s'.unfinished ≠ 0 → ∃ cb s₂, Allowed s' cb ∧ step svc cb s' = some s₂) ∧
      (s'.unfinished = 0 → (∀ p, s'.ctx p = none) ∧
        (∀ p, p < s'.contexts → .release p ∈ s'.calls) ∧
        ∀ id, s'.req id = none ∨ ∃ p, .writeError p id ∈ s'.calls) := by
  have h₀ := inv_start responseBuffer app
  have hs := h.inv h₀
  have hno : NoStray s := fun p hp => hlist p hp.2 hp.1
  have hlisted := h.intact h₀ (intact_start responseBuffer app) hno
  obtain ⟨hd₁, hshared₁⟩ := shutdown_draining svc hs hlisted hopen hshut
  obtain ⟨hd', hcount, hshared⟩ := hd₁.trace hmore
  refine ⟨hcount, hshared.trans hshared₁, hd'.next svc, fun hzero => ?_⟩
  have hdoes : Does s .shutdown s₁ := does_of_step svc hs hopen hshut
  have hlogged := hmore.logged hd₁.inv
    ((h.logged h₀ (logged_start responseBuffer app)).does hs hdoes).1
  have haccounted := hmore.accounted hd₁.inv
    ((h.accounted h₀ (fun id w hw => by cases hw)).does hs hdoes)
  refine ⟨fun p => (hd'.finished hzero p).1, fun p hp => ?_, fun id => ?_⟩
  · exact hlogged.release p ⟨hp, (hd'.finished hzero p).2.2 hp⟩
  · cases hw : s'.req id with
    | none => exact .inl rfl
    | some w =>
        rcases haccounted id w hw with hin | herror
        · rw [(hd'.finished hzero w.ctx).2.1] at hin
          cases hin
        · exact .inr herror

end shutdown

/-- What libuv reports after the shutdown: the answer to the second client has been cancelled, and
the handles close. -/
def lastCallbacks : List Callback :=
  [.written 1 1 false, .closed 2 .timer, .closed 1 .timer, .closed 1 .tcp]

/-- A client that waits for its answer, and a connection that was not accepted, at the shutdown. -/
theorem shutdown_drains_mixed : ∃ s₁ s' : Server Unit, step echo .shutdown mixed = some s₁ ∧
    (s₁.handles 1).writes = [1] ∧ Trace echo s₁ lastCallbacks s' ∧ (∀ p, s'.ctx p = none) ∧
    (∀ p < 3, .release p ∈ s'.calls) ∧ ∀ id, s'.req id = none := by
  have hopen : mixed.stopped = false := by decide +kernel
  obtain ⟨s₁, hshut, -⟩ :=
    step_runs echo (trace_mixed.inv (inv_start [] ())) (show Allowed mixed .shutdown from hopen)
  have hleft : (step echo .shutdown mixed).map (fun s => ((s.handles 1).writes, s.unfinished)) =
      some ([1], 4) := by decide +kernel
  have hcalls : (step echo .shutdown mixed >>= runLoop echo lastCallbacks).map
      (fun s => (s.contexts, s.calls)) = some (3, [.uvClose 2 .tcp, .uvClose 2 .timer, .free 0,
        .uvClose 0 .tcp, .uvClose 0 .timer, .release 0, .uvClose 1 .tcp, .uvClose 1 .timer, .free 1,
        .release 2, .release 1]) := by decide +kernel
  rw [hshut] at hleft hcalls
  have hwrites : (s₁.handles 1).writes = [1] := congrArg Prod.fst (Option.some.inj hleft)
  have hfour : s₁.unfinished = 4 := congrArg Prod.snd (Option.some.inj hleft)
  obtain ⟨s', hrun, hlast⟩ := Option.map_eq_some_iff.mp hcalls
  obtain ⟨hcontexts, hlast⟩ := Prod.mk.inj hlast
  have hmore : Trace echo s₁ lastCallbacks s' := Trace.nil.runLoop hrun
  obtain ⟨hcount, -, -, hgone⟩ :=
    shutdown_drains echo trace_mixed (fun p => mixed_not_done) hopen hshut hmore
  have hzero : s'.unfinished = 0 := by
    have hlength : lastCallbacks.length = 4 := rfl
    omega
  obtain ⟨hctx, hreleased, hreq⟩ := hgone hzero
  refine ⟨s₁, s', hshut, hwrites, hmore, hctx, fun p hp => hreleased p (hcontexts ▸ hp),
    fun id => ?_⟩
  rcases hreq id with hnone | ⟨p, herror⟩
  · exact hnone
  · rw [hlast] at herror
    simp at herror

end Server

end Segnalacity
