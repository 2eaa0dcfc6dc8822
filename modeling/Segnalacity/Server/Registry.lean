import Mathlib.Algebra.BigOperators.Ring.Finset
import Segnalacity.Server.Memory

/-! # The registry of active clients

`client_manager_unlink` requires a linked context, but `on_close` also calls it for a context
whose `uv_accept` failed.  Such a context has no neighbours and so passes for the only node of the
list: the head is cleared and the count goes down.  Until then the list is right
(`active_list_iff`). -/

namespace Segnalacity

open CStr Http Dll

namespace Server

variable {σ : Type}

/-! ### The count -/

/-- Contexts released without ever having been linked. -/
def Handles.Stray (h : Handles) : Prop := h.Done ∧ h.accepted = false

instance (h : Handles) : Decidable h.Stray := inferInstanceAs (Decidable (_ ∧ _))

def liveCount (s : Server σ) : ℕ := ((Finset.range s.contexts).filter fun p => s.Live p).card

def strayCount (s : Server σ) : ℕ :=
  ((Finset.range s.contexts).filter fun p => (s.handles p).Stray).card

theorem weight_eq (h : Handles) :
    weight h = (if h.Live then 1 else 0) - if h.Stray then 1 else 0 := by
  unfold weight Handles.Live Handles.Stray
  by_cases hdone : h.Done
  · by_cases haccepted : h.accepted = true
    · simp [hdone, haccepted]
    · simp [hdone, Bool.eq_false_of_not_eq_true haccepted]
  · by_cases haccepted : h.accepted = true
    · simp [hdone, haccepted]
    · simp [hdone, Bool.eq_false_of_not_eq_true haccepted]

variable {s s' : Server σ} {p : ℕ} {c : ClientCtx}

theorem Inv.count_eq (hs : Inv s) : s.activeClientsCount = s.liveCount - s.strayCount := by
  have hlive : (s.liveCount : ℤ) = ∑ p ∈ Finset.range s.contexts,
      if (s.handles p).Live then 1 else 0 := by
    rw [liveCount, Finset.card_filter, Nat.cast_sum]
    exact Finset.sum_congr rfl fun p _ => by rw [Nat.cast_ite, Nat.cast_one, Nat.cast_zero]; rfl
  have hstray : (s.strayCount : ℤ) = ∑ p ∈ Finset.range s.contexts,
      if (s.handles p).Stray then 1 else 0 := by
    rw [strayCount, Finset.card_filter, Nat.cast_sum]
    exact Finset.sum_congr rfl fun p _ => by rw [Nat.cast_ite, Nat.cast_one, Nat.cast_zero]
  rw [hs.count, hlive, hstray, ← Finset.sum_sub_distrib]
  exact Finset.sum_congr rfl fun p _ => weight_eq _

/-- The live contexts have been allocated. -/
theorem Inv.live_lt (hs : Inv s) (hp : s.Live p) : p < s.contexts := by
  by_contra hno
  exact hs.not_live (not_lt.mp hno) hp

/-- A list of the live contexts, each once, has their number. -/
theorem Inv.length_eq (hs : Inv s) {l : List ℕ} (hnodup : l.Nodup)
    (hmem : ∀ p, p ∈ l ↔ s.Live p) : l.length = s.liveCount := by
  rw [liveCount, ← List.toFinset_card_of_nodup hnodup]
  congr 1
  ext p
  rw [List.mem_toFinset, hmem, Finset.mem_filter, Finset.mem_range]
  exact ⟨fun hp => ⟨hs.live_lt hp, hp⟩, fun hp => hp.2⟩

/-! ### The list -/

/-- No context whose `uv_accept` failed has gone through both close callbacks. -/
def NoStray (s : Server σ) : Prop := ∀ p, ¬ (s.handles p).Stray

theorem Handles.Stray.update {handles : ℕ → Handles} {h : Handles}
    (hnot : ¬ (handles p).Done) (hno : ∀ q, ¬ (Function.update handles p h q).Stray) (q : ℕ) :
    ¬ (handles q).Stray := by
  intro hq
  by_cases hqp : q = p
  · exact hnot (hqp ▸ hq.1)
  · have := hno q
    rw [Function.update_of_ne hqp] at this
    exact this hq

/-- The state of the list as long as there is no stray context. -/
def Intact (s : Server σ) : Prop := NoStray s → Listed s.nodes s.activeClientsHead s.Live

theorem Intact.effect (hs : Inv s) (hi : Intact s) (he : Effect s s') : Intact s' := by
  intro hno
  cases he with
  | background => exact hi hno
  | discard => exact hi hno
  | move hc hm hnext hprev =>
      have hphase := hs.phase_of hc
      have hlisted := hi (Handles.Stray.update hphase.not_done hno)
      rw [nodes, ← nodesOf_update hc hnext hprev] at hlisted
      unfold Live at hlisted
      rw [← live_update (hm.live hphase)] at hlisted
      exact hlisted
  | @last p c t ctx' hc ht htcp hzero _ hnodes =>
      have hphase := hs.phase_of hc
      have hdone := (hphase.last ht htcp hzero).gone_done.1
      have hlisted := hi (Handles.Stray.update hphase.not_done hno)
      -- the context is linked, since it is no stray one afterwards
      have hlive : s.Live p := by
        refine ⟨?_, hphase.not_done⟩
        have hp : ¬ (Function.update s.handles p (Handles.close t .done (s.handles p)) p).Stray :=
          hno p
        rw [Function.update_self] at hp
        cases haccepted : (s.handles p).accepted with
        | true => rfl
        | false => exact absurd ⟨hdone, by cases t <;> exact haccepted⟩ hp
      have hdetached := hlisted.detach hlive (nodes_of hc)
      rw [← hnodes] at hdetached
      unfold Live at hdetached
      rw [← live_remove s.handles p (fun h => h.2 hdone)] at hdetached
      exact hdetached

theorem Intact.effects (hs : Inv s) (hi : Intact s) (he : Effects s s') : Intact s' := by
  induction he with
  | refl => exact hi
  | tail hes he ih => exact ih.effect (hs.effects hes) he

theorem Intact.arrival {a b : Bool} (hs : Inv s) (hi : Intact s) (ha : Arrival a b s s') :
    Intact s' := by
  obtain ⟨hnone, hinit⟩ := hs.unborn s.contexts le_rfl
  have hnot : ¬ (s.handles s.contexts).Done := by
    rw [hinit]
    exact fun h => by cases h.1
  intro hno
  cases ha with
  | full => exact hi hno
  | noMemory => exact hi hno
  | admitted _ _ _ _ _ hnodes =>
      have hlisted := hi (Handles.Stray.update hnot hno)
      have hprepended := hlisted.prepend (hs.not_live le_rfl) fun q hq => hs.live_lt hq
      rw [← hnodes] at hprepended
      unfold Live at hprepended
      rw [← live_add s.handles s.contexts (h := ⟨true, true, true, [], .opened, .opened⟩)
        ⟨rfl, fun h => by cases h.1⟩] at hprepended
      exact hprepended
  | refused =>
      have hlisted := (hi (Handles.Stray.update hnot hno)).fresh (nodes_none hnone)
      rw [nodes, ← nodesOf_fresh] at hlisted
      unfold Live at hlisted
      have hsame : (⟨false, false, false, [], .pending, .pending⟩ : Handles).Live ↔
          (s.handles s.contexts).Live := by
        rw [hinit]
        exact iff_of_false (fun h => by cases h.1) (fun h => by cases h.1)
      rw [← live_update hsame] at hlisted
      exact hlisted

theorem Intact.does (hs : Inv s) (hi : Intact s) {cb : Callback} (hdoes : Does s cb s') :
    Intact s' := by
  cases hdoes with
  | failed => exact hi
  | arrival _ harrival =>
      have hi' : Intact { s with waiting := true } := hi
      exact hi'.arrival (hs.listener true s.stopped) harrival
  | client _ heffects => exact hi.effects hs heffects
  | shutdown heffects =>
      have hi' := hi.effects hs heffects
      exact hi'

theorem intact_start (responseBuffer : Bytes) (app : σ) : Intact (start responseBuffer app) := by
  intro _
  refine ⟨(inv_start responseBuffer app).links, fun p a hp => ?_⟩
  cases hp.1

theorem Trace.intact {svc : Services σ} {s₀ : Server σ} {cbs : List Callback} (h₀ : Inv s₀)
    (hi : Intact s₀) (h : Trace svc s₀ cbs s) : Intact s := by
  induction h with
  | nil => exact hi
  | snoc htrace hallowed hstep ih =>
      exact ih.does (htrace.inv h₀) (does_of_step svc (htrace.inv h₀) hallowed hstep)

/-! ### The registry -/

/-- The list from the head has exactly the live clients, each once, and the count is its
length. -/
def Registry (s : Server σ) : Prop :=
  ∃ l, Chain s.nodes none s.activeClientsHead l ∧ l.Nodup ∧ (∀ p, p ∈ l ↔ s.Live p) ∧
    s.activeClientsCount = l.length ∧ 0 ≤ s.activeClientsCount ∧
    s.activeClientsCount ≤ maxClients

theorem Inv.strayCount_eq_zero (hs : Inv s) : s.strayCount = 0 ↔ NoStray s := by
  rw [strayCount, Finset.card_eq_zero, Finset.filter_eq_empty_iff]
  refine ⟨fun h p hp => ?_, fun h p _ => h p⟩
  by_cases hlt : p < s.contexts
  · exact h (Finset.mem_range.mpr hlt) hp
  · have hdone := hp.1.1
    rw [(hs.unborn p (not_lt.mp hlt)).2] at hdone
    cases hdone

/-- The registry is right exactly as long as no context whose `uv_accept` failed has gone through
both close callbacks. -/
theorem active_list_iff (svc : Services σ) (responseBuffer : Bytes) (app : σ) {s : Server σ}
    {cbs : List Callback} (h : Trace svc (start responseBuffer app) cbs s) :
    Registry s ↔ ∀ p, (s.handles p).accepted = false → ¬ (s.handles p).Done := by
  have h₀ := inv_start responseBuffer app
  have hs := h.inv h₀
  have hstray : NoStray s ↔ ∀ p, (s.handles p).accepted = false → ¬ (s.handles p).Done :=
    forall_congr' fun p => ⟨fun hno haccepted hdone => hno ⟨hdone, haccepted⟩,
      fun hno hp => hno hp.2 hp.1⟩
  rw [← hstray]
  refine ⟨fun ⟨l, _, hnodup, hmem, hcount, _⟩ => ?_, fun hno => ?_⟩
  · rw [← hs.strayCount_eq_zero]
    have hlength := hs.length_eq hnodup hmem
    have hcounted := hs.count_eq
    omega
  · have hlisted := h.intact h₀ (intact_start responseBuffer app) hno
    obtain ⟨l, hchain, hnodup, hmem⟩ := hlisted.chain fun p hp => hs.live_lt hp
    have hlength := hs.length_eq hnodup hmem
    have hcounted := hs.count_eq
    have hzero := hs.strayCount_eq_zero.mpr hno
    have hcap := hs.cap
    exact ⟨l, hchain, hnodup, hmem, by omega, by omega, hcap⟩

/-- The second close callback on the context whose `uv_accept` failed does the damage. -/
theorem active_list_iff_mixed : Registry mixed ∧ ∃ s : Server Unit,
    Trace echo (start [] ()) (mixedCallbacks ++ [.closed 2 .timer]) s ∧ ¬ Registry s := by
  obtain ⟨s, hstep, -⟩ := step_runs echo (trace_mixed.inv (inv_start [] ())) mixed_allowed
  have htrace := trace_mixed.andThen _ mixed_allowed hstep
  refine ⟨?_, s, htrace, fun hregistry => ?_⟩
  · exact (active_list_iff echo [] () trace_mixed).mpr fun p => mixed_not_done
  · have hhandles : (step echo (.closed 2 .timer) mixed).map (fun s => s.handles 2) =
        some ⟨false, false, false, [], .done, .done⟩ := by decide +kernel
    rw [hstep] at hhandles
    have hsecond := Option.some.inj hhandles
    apply (active_list_iff echo [] () htrace).mp hregistry 2
    · exact congrArg Handles.accepted hsecond
    · exact ⟨congrArg Handles.tcpClose hsecond, congrArg Handles.timerClose hsecond⟩

/-- One client is there; the `uv_accept` of a second connection fails, and its handles close. -/
theorem active_list_lost : ¬ ∀ (cbs : List Callback) (s : Server Unit),
    Trace echo (start [] ()) cbs s → Registry s := by
  intro hall
  have h₂ := trace_oneClient.andThen (.connection 0 true false) ⟨rfl, rfl⟩ rfl
  have h₃ := h₂.andThen (.closed 1 .tcp) ⟨rfl, fun _ => rfl⟩ rfl
  have h₄ := h₃.andThen (.closed 1 .timer) ⟨rfl, HandleType.noConfusion⟩ rfl
  obtain ⟨l, hchain, -, hmem, -⟩ := hall _ _ h₄
  cases l with
  | nil =>
      have hlive : Handles.Live ⟨true, true, true, [], .opened, .opened⟩ := by decide
      exact absurd ((hmem 0).mpr hlive) List.not_mem_nil
  | cons x l => exact Option.some_ne_none x hchain.1.symm

end Server

end Segnalacity
