import Segnalacity.RateLimiter

/-! # What the rate limiter guarantees

* `rate_bound_and_isolation`: two windows in a row stay within the limit, and an address sees
  nothing of the others.
* `no_false_rejections_iff`: the window before counts in full throughout a second, so an address
  is never rejected only when two seconds in a row stay within the limit together.
* `old_traffic_iff`: after a pause of any length the last window with a call still counts. -/

namespace Segnalacity

open CStr StateProg HashTable Window

section runs
variable {ip : Bytes} {s : Limiter} {log : List (RateCall × ℤ)}

/-- The calls allowed in a second and in the last second before it in which the address called
stay within the limit, and the decisions are a function of the times of its own calls. -/
theorem rate_bound_and_isolation {t₀ : HashTable RateEntry} (hip : cstr ip ≠ [])
    (h : CalmRun t₀ log s) :
    (∀ t, admitted (callsOf ip log) t + carried (callsOf ip log) t ≤ rateLimitRps) ∧
      callsOf ip log = replay rateLimitRps ((callsOf ip log).map Prod.fst) := by
  obtain ⟨-, hreplay⟩ := h.history hip
  refine ⟨fun t => ?_, hreplay⟩
  rw [hreplay]
  exact admitted_add_carried_le rateLimitRps (h.sorted ip) t

end runs

/-- Calls of two clients, one of them at the limit. -/
def pairCalls : List RateCall :=
  List.replicate 60 (callFrom peer 1) ++ callFrom neighbour 1 ::
    List.replicate 41 (callFrom peer 1) ++
      [callFrom neighbour 1, callFrom peer 2, callFrom neighbour 2]

theorem pairCalls_calm : CalmRun freshLimiter (freshRun pairCalls).1 (freshRun pairCalls).2 :=
  calmRun_freshRun (by decide +kernel) (by decide +kernel) (by decide +kernel) (by decide +kernel)

/-- The first client is rejected where the limit is reached; the other one is not. -/
theorem rate_bound_and_isolation_pair :
    callsOf peer (freshRun pairCalls).1 =
        List.replicate 100 (1, true) ++ [(1, false), (2, false)] ∧
      callsOf neighbour (freshRun pairCalls).1 = [(1, true), (1, true), (2, true)] ∧
      ∀ ip ∈ [peer, neighbour],
        (∀ t, admitted (callsOf ip (freshRun pairCalls).1) t +
          carried (callsOf ip (freshRun pairCalls).1) t ≤ rateLimitRps) ∧
        callsOf ip (freshRun pairCalls).1 =
          replay rateLimitRps ((callsOf ip (freshRun pairCalls).1).map Prod.fst) := by
  have hips : ∀ ip ∈ [peer, neighbour], cstr ip ≠ [] := by decide
  refine ⟨?_, ?_, fun ip hip => rate_bound_and_isolation (hips ip hip) pairCalls_calm⟩
  · rw [callsOf_freshRun (hips peer (by simp)) pairCalls_calm]
    decide +kernel
  · rw [callsOf_freshRun (hips neighbour (by simp)) pairCalls_calm]
    decide +kernel

/-- Calls in one second, then one more. -/
theorem burst_calm {t t' : ℤ} (h0 : 0 ≤ t) (h : t ≤ t') :
    CalmTimes (List.replicate 100 t ++ [t']) := by
  refine ⟨fun u hu => ?_, ?_, ?_⟩
  · rcases List.mem_append.mp hu with hu | hu
    · rw [List.eq_of_mem_replicate hu]
      exact h0
    · rw [List.mem_singleton.mp hu]
      exact h0.trans h
  · refine List.pairwise_append.mpr ⟨List.pairwise_replicate.mpr (Or.inr (le_refl t)),
      List.pairwise_singleton _ _, fun a ha b hb => ?_⟩
    rw [List.eq_of_mem_replicate ha, List.mem_singleton.mp hb]
    exact h
  · rw [List.length_append, List.length_replicate, List.length_singleton]
    decide

/-- The limit in one second, then one more call. -/
def steadyTimes : List ℤ := List.replicate 100 1 ++ [2]

theorem steadyTimes_calm : CalmTimes steadyTimes := burst_calm (by decide) (by decide)

theorem callsOf_steady :
    callsOf peer (peerRun steadyTimes).1 = List.replicate 100 (1, true) ++ [(2, false)] := by
  rw [steadyTimes_calm.callsOf]
  decide +kernel

/-! ### False rejections -/

section runs
variable {ip : Bytes} {s : Limiter} {log : List (RateCall × ℤ)}

theorem all_callsOf_iff (ip : Bytes) (log : List (RateCall × ℤ)) :
    (∀ x ∈ callsOf ip log, x.2 = true) ↔ ∀ x ∈ log, x.1.IsFrom ip → x.2 = 1 := by
  unfold callsOf
  simp only [List.mem_map, List.mem_filter, decide_eq_true_eq, forall_exists_index, and_imp]
  constructor
  · intro hall x hx hfrom
    exact of_decide_eq_true (hall _ x hx hfrom rfl)
  · rintro hall _ x hx hfrom rfl
    exact decide_eq_true (hall x hx hfrom)

/-- An address is never rejected if and only if each of its calls finds fewer than the limit
among the remembered ones of its second and of the last second before it.  Without loss these
are all its calls. -/
theorem no_false_rejections_iff {seed : UInt64} {a b : Bool} (hip : cstr ip ≠ [])
    (hclock : Clocked log) (hrun : Run rateLimitCheck () (rateLimiterInit seed a b) log s) :
    ((∀ x ∈ log, x.1.IsFrom ip → x.2 = 1) ↔
      ∀ p x q s₁ h, log = p ++ x :: q →
        Run (watched ip) () (rateLimiterInit seed a b, []) p (s₁, h) → x.1.IsFrom ip →
        calls (recalled x.1 s₁ h) x.1.now + callsBefore (recalled x.1 s₁ h) x.1.now <
          rateLimitRps) ∧
    ∀ t₀, CalmRun t₀ log s →
      ((∀ x ∈ log, x.1.IsFrom ip → x.2 = 1) ↔
        ∀ t ∈ (callsOf ip log).map Prod.fst,
          calls (callsOf ip log) t + callsBefore (callsOf ip log) t ≤ rateLimitRps) := by
  refine ⟨?_, fun t₀ hcalm => ?_⟩
  · have hroom : ∀ p c r q s₁ s₂ h, log = p ++ (c, r) :: q → (∀ x ∈ p, x.1.IsFrom ip → x.2 = 1) →
        Run (watched ip) () (rateLimiterInit seed a b, []) p (s₁, h) →
        rateLimitCheck c () s₁ = (r, s₂) → c.IsFrom ip →
        (r = 1 ↔ calls (recalled c s₁ h) c.now + callsBefore (recalled c s₁ h) c.now <
          rateLimitRps) := by
      intro p c r q s₁ s₂ h hlog hp hwatched hstep hfrom
      have hclock' : Clocked (p ++ [(c, r)]) := by
        apply hclock.sublist
        rw [hlog, List.append_cons p (c, r) q]
        exact List.sublist_append_left _ q
      have hall : ∀ x ∈ recalled c s₁ h, x.2 = true := fun x hx =>
        (all_callsOf_iff ip p).mpr hp x ((sublist_callsOf hwatched).subset (mem_recalled hx))
      rw [answer_of_run hip hclock' hwatched hstep hfrom, carried_eq_callsBefore hall,
        admitted_eq_calls hall, Nat.add_comm]
    constructor
    · rintro hones p ⟨c, r⟩ q s₁ h rfl hwatched hfrom
      obtain ⟨s₁', s₂, hp, hstep, -⟩ := hrun.split_at
      obtain rfl := hp.unique (run_of_watched hwatched)
      refine (hroom p c r q s₁' s₂ h rfl (fun x hx => hones x ?_) hwatched hstep hfrom).mp ?_
      · exact List.mem_append_left _ hx
      · exact hones (c, r) (by simp) hfrom
    · intro hfits
      induction hrun with
      | nil => exact fun x hx => absurd hx List.not_mem_nil
      | @snoc log s s' c r hrun hstep ih =>
          have hones : ∀ x ∈ log, x.1.IsFrom ip → x.2 = 1 := by
            refine ih hclock.init ?_ ?_
            · intro p c' r' q s₁ s₂ h hlog
              exact hroom p c' r' (q ++ [(c, r)]) s₁ s₂ h (by rw [hlog, List.append_assoc]; rfl)
            · intro p x q s₁ h hlog
              exact hfits p x (q ++ [(c, r)]) s₁ h (by rw [hlog, List.append_assoc]; rfl)
          intro x hx hfrom
          rcases List.mem_append.mp hx with hx | hx
          · exact hones x hx hfrom
          · obtain rfl := List.mem_singleton.mp hx
            obtain ⟨h, hwatched⟩ := exists_watched ip hrun
            exact (hroom log c r [] s s' h rfl hones hwatched hstep hfrom).mpr
              (hfits log (c, r) [] s h rfl hwatched hfrom)
  · obtain ⟨-, hreplay⟩ := hcalm.history hip
    rw [← all_callsOf_iff, hreplay, map_fst_replay]
    exact all_admitted_iff (hcalm.sorted ip)

end runs

theorem no_false_rejections_iff_steady :
    cstr peer ≠ [] ∧ Clocked (peerRun steadyTimes).1 ∧
    ((∀ x ∈ (peerRun steadyTimes).1, x.1.IsFrom peer → x.2 = 1) ↔
      ∀ t ∈ (callsOf peer (peerRun steadyTimes).1).map Prod.fst,
        calls (callsOf peer (peerRun steadyTimes).1) t +
          callsBefore (callsOf peer (peerRun steadyTimes).1) t ≤ rateLimitRps) :=
  have hpeer : cstr peer ≠ [] := by decide
  have hcalm := steadyTimes_calm.calmRun
  have hrun : Run rateLimitCheck () (rateLimiterInit 0 true true) (peerRun steadyTimes).1
    (peerRun steadyTimes).2 := hcalm.run
  ⟨hpeer, hcalm.clock, (no_false_rejections_iff hpeer hcalm.clock hrun).2 freshLimiter hcalm⟩

/-- At most the limit in every second, and the last call is rejected. -/
theorem steady_client_rejected :
    Run rateLimitCheck () (rateLimiterInit 0 true true) (peerRun steadyTimes).1
      (peerRun steadyTimes).2 ∧
    Clocked (peerRun steadyTimes).1 ∧
    (∀ t, calls (callsOf peer (peerRun steadyTimes).1) t ≤ rateLimitRps) ∧
    ¬ ∀ x ∈ (peerRun steadyTimes).1, x.1.IsFrom peer → x.2 = 1 := by
  have hcalm := steadyTimes_calm.calmRun
  refine ⟨hcalm.run, hcalm.clock, fun t => ?_, fun hones => ?_⟩
  · rw [callsOf_steady]
    unfold calls rateLimitRps
    rw [List.countP_append, List.countP_replicate, List.countP_singleton]
    by_cases h1 : t = 1
    · simp [h1]
    · have h1' : ¬ 1 = t := fun h => h1 h.symm
      simp only [h1', decide_false, Bool.false_eq_true, if_false]
      split_ifs <;> omega
  · have hall := (all_callsOf_iff peer (peerRun steadyTimes).1).mpr hones
    rw [callsOf_steady] at hall
    exact absurd (hall (2, false) (List.mem_append_right _ (List.mem_singleton_self _))) (by decide)

/-! ### Old traffic -/

/-- Two runs that agree on an address in one second and on the number of its calls in the next
decide these alike if and only if there were calls in the first one or the calls allowed in the
last second before with a call leave the same room. -/
theorem old_traffic_iff {ip : Bytes} {t₁ t₂ : HashTable RateEntry} {log₁ log₂ : List (RateCall × ℤ)}
    {s₁ s₂ : Limiter} {t : ℤ} (hip : cstr ip ≠ []) (h₁ : CalmRun t₁ log₁ s₁)
    (h₂ : CalmRun t₂ log₂ s₂)
    (hbefore : decisionsAt (callsOf ip log₁) t = decisionsAt (callsOf ip log₂) t)
    (hcalls : calls (callsOf ip log₁) (t + 1) = calls (callsOf ip log₂) (t + 1)) :
    decisionsAt (callsOf ip log₁) (t + 1) = decisionsAt (callsOf ip log₂) (t + 1) ↔
      calls (callsOf ip log₁) t ≠ 0 ∨
        min (calls (callsOf ip log₁) (t + 1)) (rateLimitRps - carried (callsOf ip log₁) (t + 1)) =
          min (calls (callsOf ip log₁) (t + 1))
            (rateLimitRps - carried (callsOf ip log₂) (t + 1)) := by
  have hcalls' : calls (callsOf ip log₁) t = calls (callsOf ip log₂) t := by
    rw [← decisionsAt_length, hbefore, decisionsAt_length]
  have hadmitted : admitted (callsOf ip log₁) t = admitted (callsOf ip log₂) t := by
    rw [admitted_eq_count, hbefore, admitted_eq_count]
  have hreplay₁ := (h₁.history hip).2
  have hreplay₂ := (h₂.history hip).2
  have hsorted₁ := h₁.sorted ip
  have hsorted₂ := h₂.sorted ip
  generalize (callsOf ip log₁).map Prod.fst = ts₁ at hreplay₁ hsorted₁
  generalize (callsOf ip log₂).map Prod.fst = ts₂ at hreplay₂ hsorted₂
  rw [hreplay₁, hreplay₂] at hcalls hcalls' hadmitted ⊢
  rw [decisionsAt_replay hsorted₁, decisionsAt_replay hsorted₂, ← hcalls, range_decide_eq_iff]
  refine ⟨Or.inr, ?_⟩
  rintro (hbusy | hmin)
  · rw [carried_succ hsorted₁ hbusy, carried_succ hsorted₂ (hcalls' ▸ hbusy), hadmitted]
  · exact hmin

/-- One call after a pause, with the limit in a second long before it and without. -/
def busyTimes : List ℤ := List.replicate 100 1 ++ [5]

def idleTimes : List ℤ := [5]

theorem busyTimes_calm : CalmTimes busyTimes := burst_calm (by decide) (by decide)

theorem idleTimes_calm : CalmTimes idleTimes := ⟨by decide, by decide, by decide⟩

theorem callsOf_busy :
    callsOf peer (peerRun busyTimes).1 = List.replicate 100 (1, true) ++ [(5, false)] := by
  rw [busyTimes_calm.callsOf]
  decide +kernel

theorem callsOf_idle : callsOf peer (peerRun idleTimes).1 = [(5, true)] := by
  rw [idleTimes_calm.callsOf]
  decide

/-- The two runs agree up to the last second and differ in it. -/
theorem busy_idle_facts :
    (decisionsAt (callsOf peer (peerRun busyTimes).1) 4 =
        decisionsAt (callsOf peer (peerRun idleTimes).1) 4 ∧
      calls (callsOf peer (peerRun busyTimes).1) (4 + 1) =
        calls (callsOf peer (peerRun idleTimes).1) (4 + 1)) ∧
    decisionsAt (callsOf peer (peerRun busyTimes).1) (4 + 1) = [false] ∧
    decisionsAt (callsOf peer (peerRun idleTimes).1) (4 + 1) = [true] := by
  rw [callsOf_busy, callsOf_idle]
  decide +kernel

theorem old_traffic_iff_busy :
    decisionsAt (callsOf peer (peerRun busyTimes).1) (4 + 1) =
        decisionsAt (callsOf peer (peerRun idleTimes).1) (4 + 1) ↔
      calls (callsOf peer (peerRun busyTimes).1) 4 ≠ 0 ∨
        min (calls (callsOf peer (peerRun busyTimes).1) (4 + 1))
            (rateLimitRps - carried (callsOf peer (peerRun busyTimes).1) (4 + 1)) =
          min (calls (callsOf peer (peerRun busyTimes).1) (4 + 1))
            (rateLimitRps - carried (callsOf peer (peerRun idleTimes).1) (4 + 1)) :=
  old_traffic_iff (t := 4) (by decide) busyTimes_calm.calmRun
    idleTimes_calm.calmRun busy_idle_facts.1.1 busy_idle_facts.1.2

/-- The two runs agree on the second before and decide the call after it differently. -/
theorem old_traffic_counts :
    CalmRun freshLimiter (peerRun busyTimes).1 (peerRun busyTimes).2 ∧
    CalmRun freshLimiter (peerRun idleTimes).1 (peerRun idleTimes).2 ∧
    decisionsAt (callsOf peer (peerRun busyTimes).1) 4 =
      decisionsAt (callsOf peer (peerRun idleTimes).1) 4 ∧
    calls (callsOf peer (peerRun busyTimes).1) (4 + 1) =
      calls (callsOf peer (peerRun idleTimes).1) (4 + 1) ∧
    decisionsAt (callsOf peer (peerRun busyTimes).1) (4 + 1) = [false] ∧
    decisionsAt (callsOf peer (peerRun idleTimes).1) (4 + 1) = [true] := by
  exact ⟨busyTimes_calm.calmRun,
    idleTimes_calm.calmRun, busy_idle_facts.1.1, busy_idle_facts.1.2,
    busy_idle_facts.2⟩

end Segnalacity
