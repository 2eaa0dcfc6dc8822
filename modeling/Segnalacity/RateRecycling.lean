import Segnalacity.Lib.Decimal
import Segnalacity.RateLimits

/-! # The rate limiter when it recycles

`rate_limit_check` throws its table away once it holds more than `MAX_SAVED_IP` addresses.  Here
runs are unrestricted: the table may be recycled at any call, and any allocation may fail.

* `limiter_bounded`: the table stays small, and it is only thrown away after more than
  `MAX_SAVED_IP` different addresses have called since it was made.
* `limiter_guarantees`: a rejected address has used its limit up in two seconds.  With enough
  memory an address is allowed twice the limit in a second, and the limit once more for every
  `MAX_SAVED_IP + 1` calls of all addresses in that second.

`LimiterStep` says once what a call can do; `Spent` is the invariant behind the second bound.  It
counts the recyclings of one second: each but the first has to be paid for by the calls that
filled the table in that same second. -/

namespace Segnalacity

open CStr StateProg HashTable Window

/-! ### One call -/

/-- What a call does: it passes unseen, it loses the table, or it is looked up in a table. -/
inductive LimiterStep (c : RateCall) : Limiter → ℤ → Limiter → Prop where
  | passed {s : Limiter} (hs : s = none ∨ ∀ ip, c.ip = some ip → cstr ip = []) :
      LimiterStep c s 1 s
  | lost {t : HashTable RateEntry} {ip : Bytes} (hcall : c.ip = some ip) (hne : cstr ip ≠ [])
      (ht : recycle c t = none) : LimiterStep c (some t) 1 none
  | looked {t t' : HashTable RateEntry} {ip : Bytes} (hcall : c.ip = some ip) (hne : cstr ip ≠ [])
      (ht : recycle c t = some t') :
      LimiterStep c (some t) (if allowedIn t' ip c.now then 1 else 0) (some (record t' ip c).2)

theorem rateLimitCheck_limiterStep (c : RateCall) (s : Limiter) :
    LimiterStep c s (rateLimitCheck c () s).1 (rateLimitCheck c () s).2 := by
  unfold rateLimitCheck
  cases hcall : c.ip with
  | none => exact .passed (Or.inr (by simp [hcall]))
  | some ip =>
      cases s with
      | none => exact .passed (Or.inl rfl)
      | some t =>
          dsimp only
          by_cases hne : cstr ip = []
          · rw [if_pos hne]
            apply LimiterStep.passed
            right
            intro ip' hip'
            rw [hcall] at hip'
            rw [← Option.some.inj hip', hne]
          · rw [if_neg hne]
            cases ht : recycle c t with
            | none => exact .lost hcall hne ht
            | some t' => exact .looked hcall hne ht

theorem recycles_iff {c : RateCall} {t : HashTable RateEntry} {ip : Bytes} (hcall : c.ip = some ip)
    (hne : cstr ip ≠ []) : recycles c (some t) = true ↔ maxSavedIp < t.size := by
  simp [recycles, hcall, hne]

theorem lt_size_of_recycles {c : RateCall} {t : HashTable RateEntry}
    (h : recycles c (some t) = true) : maxSavedIp < t.size := by
  unfold recycles at h
  cases hcall : c.ip with
  | none => simp [hcall] at h
  | some ip => simp_all

theorem recycles_of_unseen {c : RateCall} {s : Limiter}
    (hs : s = none ∨ ∀ ip, c.ip = some ip → cstr ip = []) : recycles c s = false := by
  unfold recycles
  cases hcall : c.ip with
  | none => rfl
  | some ip =>
      cases s with
      | none => rfl
      | some t => simp [hs.resolve_left (Option.some_ne_none t) ip hcall]

theorem rateLimiterInit_size {seed : UInt64} {a b : Bool} {t : HashTable RateEntry}
    (h : rateLimiterInit seed a b = some t) : t.WF ∧ t.size = 0 ∧ t.capacity = 1024 ∧
      htGet t = fun _ => none := by
  obtain ⟨hw, hnil⟩ := htCreate_wf h
  refine ⟨hw, by simp [hw.size_eq, hnil], ?_, htGet_of_entries_nil hw hnil⟩
  unfold rateLimiterInit htCreate at h
  rw [if_pos (show 1024 > 0 by omega)] at h
  split_ifs at h
  rw [← Option.some.inj h]

/-! ### The size of the table -/

theorem nextPrime_le {n : ℕ} (hn : 2 ≤ n) : nextPrime n ≤ 2 * n := by
  by_cases h2 : n = 2
  · rw [h2]
    decide
  · have := (nextPrime_spec (n := n) (by omega)).2.2.1
    omega

/-- A table grows when an entry would fill it, to at most four times what it then holds. -/
theorem htSet_capacity_le {V : Type} {t : HashTable V} (hw : t.WF) (key : Bytes) (value : V)
    (m : SetAllocs) : (htSet t key value m).2.capacity ≤ max t.capacity (4 * (t.size + 1)) := by
  have hpos := hw.capacity_pos
  have hgrown : t.size + 1 ≥ t.capacity →
      nextPrime (t.capacity * 2) ≤ max t.capacity (4 * (t.size + 1)) := by
    intro hfull
    have hlt := hw.size_lt
    have := nextPrime_le (n := t.capacity * 2) (by omega)
    omega
  unfold htSet htInsert htResize createEntry
  by_cases hfull : t.size + 1 ≥ t.capacity
  · have := hgrown hfull
    simp only [hfull, if_true]
    split_ifs <;> simp <;> omega
  · simp only [hfull, if_false]
    split_ifs <;> simp

/-- The table is small, and each of its keys is an address that has called since it was made. -/
structure Recent (since : List Bytes) (t : HashTable RateEntry) : Prop where
  wf : t.WF
  size : t.size ≤ maxSavedIp + 1
  capacity : t.capacity ≤ 4 * (maxSavedIp + 1)
  known : ∀ k, (htGet t k).isSome = true → ∃ a ∈ since, k = ipKey a

theorem recent_init {seed : UInt64} {a b : Bool} {t : HashTable RateEntry} (since : List Bytes)
    (h : rateLimiterInit seed a b = some t) : Recent since t := by
  obtain ⟨hw, hsize, hcap, hget⟩ := rateLimiterInit_size h
  refine ⟨hw, by omega, by simp [hcap, maxSavedIp], ?_⟩
  simp [hget]

theorem Recent.mono {since since' : List Bytes} {t : HashTable RateEntry} (h : Recent since t)
    (hsub : since ⊆ since') : Recent since' t := by
  refine ⟨h.wf, h.size, h.capacity, fun k hk => ?_⟩
  obtain ⟨a, ha, hka⟩ := h.known k hk
  exact ⟨a, hsub ha, hka⟩

theorem Recent.record {since : List Bytes} {t : HashTable RateEntry} (h : Recent since t)
    (hsize : t.size ≤ maxSavedIp) (ip : Bytes) (c : RateCall) :
    Recent (since ++ [cstr ip]) (record t ip c).2 := by
  obtain ⟨hfollows, hget⟩ := htSet_spec h.wf (ipKey ip) (checkEntry (storedEntry t ip) c.now).2
    c.allocs
  have hcap := htSet_capacity_le h.wf (ipKey ip) (checkEntry (storedEntry t ip) c.now).2 c.allocs
  have hle := htSet_size_le t (ipKey ip) (checkEntry (storedEntry t ip) c.now).2 c.allocs
  have hold := h.capacity
  refine ⟨hfollows.wf, ?_, ?_, ?_⟩
  · apply hle.trans
    omega
  · apply hcap.trans
    omega
  · intro k hk
    by_cases hkey : k = ipKey ip
    · refine ⟨cstr ip, by simp, ?_⟩
      rw [hkey, ipKey_eq_iff, cstr_cstr]
    · have hsome : (htGet t k).isSome = true := by
        rw [Segnalacity.record, hget] at hk
        split_ifs at hk
        · simpa [Function.update_of_ne hkey] using hk
        · exact hk
      obtain ⟨a, ha, hka⟩ := h.known k hsome
      exact ⟨a, by simp [ha], hka⟩

/-- A table holds at most as many entries as different addresses have called. -/
theorem Recent.size_le {since : List Bytes} {t : HashTable RateEntry} (h : Recent since t) :
    t.size ≤ since.toFinset.card := by
  rw [h.wf.size_eq_ncard]
  have hsub : {k | (htGet t k).isSome = true} ⊆ ((since.toFinset.image ipKey : Finset Bytes) :
      Set Bytes) := by
    intro k hk
    obtain ⟨a, ha, rfl⟩ := h.known k hk
    simp only [Finset.coe_image, Set.mem_image, Finset.mem_coe, List.mem_toFinset]
    exact ⟨a, ha, rfl⟩
  have hcard := Set.ncard_le_ncard hsub (Finset.finite_toSet _)
  rw [Set.ncard_coe_finset] at hcard
  exact hcard.trans Finset.card_image_le

/-- A call, with the addresses that have called since the table was made kept beside it. -/
def aged (c : RateCall) : Prog Unit (Limiter × List Bytes) ℤ := fun e s =>
  ((rateLimitCheck c e s.1).1, (rateLimitCheck c e s.1).2,
    (if recycles c s.1 then [] else s.2) ++ (c.ip.map cstr).toList)

/-- The table that a call looks its address up in has room for it. -/
theorem Recent.recycled {since : List Bytes} {c : RateCall} {t t' : HashTable RateEntry}
    {ip : Bytes} (h : Recent since t) (hcall : c.ip = some ip) (hne : cstr ip ≠ [])
    (ht : recycle c t = some t') :
    Recent (if recycles c (some t) then [] else since) t' ∧ t'.size ≤ maxSavedIp := by
  have hiff := recycles_iff (t := t) hcall hne
  unfold recycle at ht
  split_ifs at ht with hfull
  · rw [hiff.mpr hfull]
    refine ⟨recent_init _ ht, ?_⟩
    have := (rateLimiterInit_size ht).2.1
    omega
  · obtain rfl := Option.some.inj ht
    rw [if_neg (fun hr => hfull (hiff.mp hr))]
    exact ⟨h, not_lt.mp hfull⟩

theorem aged_step {c : RateCall} {s s' : Limiter × List Bytes} {r : ℤ}
    (h : ∀ t, s.1 = some t → Recent s.2 t) (hstep : aged c () s = (r, s')) :
    ∀ t, s'.1 = some t → Recent s'.2 t := by
  obtain ⟨s, since⟩ := s
  obtain ⟨-, rfl⟩ := Prod.mk.inj hstep
  have hcase := rateLimitCheck_limiterStep c s
  dsimp only
  revert hcase
  generalize (rateLimitCheck c () s).1 = r, (rateLimitCheck c () s).2 = s'
  intro hcase t ht
  cases hcase with
  | passed hs =>
      rw [recycles_of_unseen hs]
      exact (h t ht).mono (by simp)
  | lost hcall hne hnone => exact absurd ht.symm (Option.some_ne_none t)
  | @looked t₀ t' ip hcall hne ht' =>
      obtain rfl := Option.some.inj ht
      obtain ⟨hrecent, hsize⟩ := (h t₀ rfl).recycled hcall hne ht'
      simp only [hcall, Option.map_some, Option.toList_some]
      exact hrecent.record hsize ip c

section runs
variable {ip : Bytes} {s : Limiter} {h : History} {log : List (RateCall × ℤ)} {seed : UInt64}
  {a b : Bool}

theorem exists_aged {s₀ : Limiter} (hrun : Run rateLimitCheck () s₀ log s) :
    ∃ since, Run aged () (s₀, []) log (s, since) := by
  induction hrun with
  | nil => exact ⟨[], .nil⟩
  | @snoc log s s' c r _ hstep ih =>
      obtain ⟨since, hrun⟩ := ih
      refine ⟨(if recycles c s then [] else since) ++ (c.ip.map cstr).toList, .snoc hrun ?_⟩
      rw [aged, hstep]

/-- Whatever calls come and whatever allocations fail, the table holds one address more than
`MAX_SAVED_IP` at most, and it is recycled only after that many different addresses have called
since it was made. -/
theorem limiter_bounded (hrun : Run rateLimitCheck () (rateLimiterInit seed a b) log s) :
    (∀ t, s = some t → t.size ≤ maxSavedIp + 1 ∧ t.capacity ≤ 4 * (maxSavedIp + 1)) ∧
    ∃ since, Run aged () (rateLimiterInit seed a b, []) log (s, since) ∧
      ∀ c, recycles c s = true → maxSavedIp + 1 ≤ since.toFinset.card := by
  obtain ⟨since, haged⟩ := exists_aged hrun
  have hrecent : ∀ t, s = some t → Recent since t := by
    refine haged.invariant (I := fun _ s => ∀ t, s.1 = some t → Recent s.2 t) ?_ ?_
    · intro t ht
      exact recent_init [] ht
    · intro log s c r s' h hstep
      exact aged_step h hstep
  refine ⟨fun t ht => ⟨(hrecent t ht).size, (hrecent t ht).capacity⟩, since, haged, ?_⟩
  intro c hc
  cases s with
  | none => simp [recycles_of_unseen (Or.inl rfl)] at hc
  | some t =>
      have hfull : maxSavedIp < t.size := by
        unfold recycles at hc
        cases hcall : c.ip with
        | none => simp [hcall] at hc
        | some ip => simp_all
      exact Nat.lt_iff_add_one_le.mp (hfull.trans_le (hrecent t rfl).size_le)

/-! ### What is remembered -/

/-- What the limiter remembers of an address is the history of a limiter that forgets nothing and
sees fewer calls. -/
theorem history_replay (hip : cstr ip ≠ []) (hclock : Clocked log)
    (hrun : Run (watched ip) () (rateLimiterInit seed a b, []) log (s, h)) :
    h = replay rateLimitRps (h.map Prod.fst) := by
  generalize hw : (s, h) = w at hrun
  induction hrun generalizing s h with
  | nil =>
      obtain ⟨rfl, rfl⟩ := Prod.mk.inj hw
      rfl
  | @snoc log w w' c r hrun hstep ih =>
      have hold := ih (s := w.1) (h := w.2) hclock.init rfl
      obtain ⟨-, hs⟩ := Prod.mk.inj (hstep.trans (by rw [← hw]))
      obtain ⟨rfl, rfl⟩ := Prod.mk.inj hs
      have hk := run_known hip hclock.init hrun
      have hle : ∀ x ∈ w.2, x.1 ≤ c.now := fun x hx =>
        hclock.le_of_mem (sublist_callsOf hrun) hx
      have hcheck : rateLimitCheck c () w.1 =
          ((rateLimitCheck c () w.1).1, (rateLimitCheck c () w.1).2) := rfl
      have hanswer := (rateLimitCheck_step hip hk hclock.last hle hcheck).2
      have hrecalled : recalled c w.1 w.2 =
          replay rateLimitRps ((recalled c w.1 w.2).map Prod.fst) := by
        unfold recalled
        split_ifs
        · rfl
        · exact hold
      unfold rememberCall
      split_ifs with hown
      · rw [List.map_append, List.map_singleton, replay_snoc, ← hrecalled, hanswer hown.1]
        cases admits rateLimitRps (recalled c w.1 w.2) c.now <;> rfl
      · exact hrecalled

theorem admitted_history_le (hip : cstr ip ≠ []) (hclock : Clocked log)
    (hrun : Run (watched ip) () (rateLimiterInit seed a b, []) log (s, h)) (t : ℤ) :
    admitted h t ≤ rateLimitRps := by
  have hsorted : (h.map Prod.fst).Pairwise (· ≤ ·) := by
    apply List.Pairwise.sublist _ hclock.mono
    exact ((sublist_callsOf hrun).map Prod.fst).trans (times_callsOf ip log)
  have hbound := admitted_add_carried_le rateLimitRps hsorted t
  rw [← history_replay hip hclock hrun] at hbound
  omega

theorem carried_le_admitted (hsub : h.Sublist (callsOf ip log)) (t : ℤ) :
    ∃ u, u ≠ t ∧ carried h t ≤ admitted (callsOf ip log) u := by
  unfold carried
  cases hu : lastBefore h t with
  | none => exact ⟨t + 1, by omega, Nat.zero_le _⟩
  | some u => exact ⟨u, (lastBefore_lt hu).ne, hsub.countP_le⟩

/-! ### Recyclings of one second -/

/-- Calls made in a second, from whatever address. -/
def callsIn (t : ℤ) (log : List (RateCall × ℤ)) : ℕ := log.countP fun x => x.1.now = t

theorem callsIn_snoc (t : ℤ) (log : List (RateCall × ℤ)) (c : RateCall) (r : ℤ) :
    callsIn t (log ++ [(c, r)]) = callsIn t log + if c.now = t then 1 else 0 := by
  simp [callsIn, List.countP_append, List.countP_singleton]

/-- The call finds the memory that it asks for. -/
structure RateCall.Supplied (c : RateCall) : Prop where
  table : c.tableOk = true
  pool : c.poolOk = true
  entry : c.allocs = allDelivered

/-- With memory for everything the table stays, and the call is stored. -/
theorem RateCall.Supplied.step {c : RateCall} (hc : c.Supplied) (t : HashTable RateEntry) :
    ∃ t', (rateLimitCheck c () (some t)).2 = some t' ∧
      t'.size ≤ (if recycles c (some t) then 0 else t.size) + 1 ∧
      ∀ ip, cstr ip ≠ [] → c.IsFrom ip → stored c (some t) = true := by
  have hrecycle : ∃ t₁, recycle c t = some t₁ := by
    unfold recycle
    rw [hc.table, hc.pool]
    split_ifs
    · exact ⟨_, rfl⟩
    · exact ⟨t, rfl⟩
  have hcase := rateLimitCheck_limiterStep c (some t)
  generalize hr : (rateLimitCheck c () (some t)).1 = r, hs : (rateLimitCheck c () (some t)).2 = s
    at hcase
  cases hcase with
  | passed hno =>
      refine ⟨t, rfl, ?_, ?_⟩
      · rw [recycles_of_unseen hno]
        exact Nat.le_succ _
      · intro ip hip hfrom
        obtain ⟨ip', hcall, hkey⟩ := Option.map_eq_some_iff.mp hfrom
        have hnil := hno.resolve_left (Option.some_ne_none t) ip' hcall
        exact absurd (hkey.symm.trans hnil) hip
  | lost hcall hne hnone =>
      obtain ⟨t₁, ht₁⟩ := hrecycle
      rw [hnone] at ht₁
      cases ht₁
  | @looked _ t₁ ip hcall hne ht₁ =>
      refine ⟨_, rfl, ?_, ?_⟩
      · refine (htSet_size_le _ _ _ _).trans (Nat.add_le_add_right ?_ 1)
        have hiff := recycles_iff (t := t) hcall hne
        unfold recycle at ht₁
        split_ifs at ht₁ with hfull
        · rw [if_pos (hiff.mpr hfull), (rateLimiterInit_size ht₁).2.1]
        · rw [if_neg (fun h => hfull (hiff.mp h)), ← Option.some.inj ht₁]
      · intro _ _ _
        simp [stored, hcall, hne, ht₁, record, hc.entry, htSet_allDelivered]

/-- What an address has been allowed in second `t`, after `r` recyclings in that second.  Every
recycling but the first is paid for by calls of that second, which have filled the table. -/
structure Spent (ip : Bytes) (t : ℤ) (log : List (RateCall × ℤ)) (table : HashTable RateEntry)
    (h : History) (r : ℕ) : Prop where
  total : admitted (callsOf ip log) t ≤ rateLimitRps * (r + 1)
  paid : (r - 1) * (maxSavedIp + 1) ≤ callsIn t log
  current : (∀ x ∈ log, x.1.now ≤ t) →
    admitted (callsOf ip log) t ≤ rateLimitRps * r + admitted h t
  filled : (∀ x ∈ log, x.1.now ≤ t) → 0 < r →
    (r - 1) * (maxSavedIp + 1) + table.size ≤ callsIn t log

theorem spent_nil (ip : Bytes) (t : ℤ) (table : HashTable RateEntry) :
    Spent ip t [] table [] 0 := by
  refine ⟨?_, ?_, ?_, ?_⟩ <;> simp [callsOf, admitted]

/-- The calls of the second pay for a recycling of the full table. -/
theorem Spent.earned {t : ℤ} {table : HashTable RateEntry} {r : ℕ}
    (hspent : Spent ip t log table h r) (hbefore : ∀ x ∈ log, x.1.now ≤ t)
    (hfull : maxSavedIp < table.size) : r * (maxSavedIp + 1) ≤ callsIn t log := by
  cases r with
  | zero => omega
  | succ r =>
      have hfilled := hspent.filled hbefore (Nat.succ_pos r)
      rw [Nat.add_sub_cancel] at hfilled
      rw [Nat.succ_mul]
      omega

theorem admitted_callsOf_snoc (ip : Bytes) (log : List (RateCall × ℤ)) (c : RateCall) (r : ℤ)
    (t : ℤ) : admitted (callsOf ip (log ++ [(c, r)])) t =
      admitted (callsOf ip log) t + if c.IsFrom ip ∧ c.now = t ∧ r = 1 then 1 else 0 := by
  rw [callsOf_snoc]
  by_cases hfrom : c.IsFrom ip
  · simp [hfrom, admitted_snoc]
  · simp [hfrom]

/-- With memory for everything only a recycling is forgotten. -/
theorem RateCall.Supplied.remembered {c : RateCall} (hc : c.Supplied) {t : HashTable RateEntry}
    (hip : cstr ip ≠ []) (h : History) (u : ℤ) :
    admitted (rememberCall ip c (some t) h) u =
      (if recycles c (some t) then 0 else admitted h u) +
        if c.IsFrom ip ∧ c.now = u ∧ (rateLimitCheck c () (some t)).1 = 1 then 1 else 0 := by
  obtain ⟨-, -, -, hstored⟩ := hc.step t
  have hrecalled : admitted (recalled c (some t) h) u =
      if recycles c (some t) then 0 else admitted h u := by
    unfold recalled
    split_ifs <;> rfl
  unfold rememberCall
  by_cases hfrom : c.IsFrom ip
  · rw [if_pos ⟨hfrom, hstored ip hip hfrom⟩, admitted_snoc, hrecalled]
    simp [hfrom]
  · rw [if_neg (fun h => hfrom h.1), hrecalled]
    simp [hfrom]

/-- A call of second `t`. -/
theorem Spent.same_second {t : ℤ} {table table' : HashTable RateEntry} {r : ℕ} {c : RateCall}
    {ans : ℤ} (hspent : Spent ip t log table h r) (hc : c.Supplied) (hip : cstr ip ≠ [])
    (hbefore : ∀ x ∈ log, x.1.now ≤ t) (hnow : c.now = t)
    (hstep : rateLimitCheck c () (some table) = (ans, some table'))
    (hle : admitted h t ≤ rateLimitRps)
    (hle' : admitted (rememberCall ip c (some table) h) t ≤ rateLimitRps) :
    Spent ip t (log ++ [(c, ans)]) table' (rememberCall ip c (some table) h)
      (if recycles c (some table) then r + 1 else r) := by
  obtain ⟨t₁, ht₁, hsize, -⟩ := hc.step table
  rw [hstep] at ht₁
  obtain rfl := Option.some.inj ht₁
  have hans : (rateLimitCheck c () (some table)).1 = ans := congrArg Prod.fst hstep
  have hmore := admitted_callsOf_snoc ip log c ans t
  have hcalls := callsIn_snoc t log c ans
  have hremembered := hc.remembered (t := table) hip h t
  have hcurrent := hspent.current hbefore
  have hpaid := hspent.paid
  have hfilled := hspent.filled hbefore
  rw [hans] at hremembered
  rw [if_pos hnow] at hcalls
  -- the new call counts alike in what was allowed and in what is remembered
  generalize (if c.IsFrom ip ∧ c.now = t ∧ ans = 1 then 1 else 0) = one at hmore hremembered
  cases hrec : recycles c (some table) with
  | false =>
      rw [hrec] at hremembered hsize
      simp only [Bool.false_eq_true, if_false] at hremembered hsize ⊢
      refine ⟨?_, ?_, ?_, ?_⟩
      · rw [hmore, Nat.mul_add]
        omega
      · omega
      · intro _
        omega
      · intro _ hr
        have := hfilled hr
        omega
  | true =>
      rw [hrec] at hremembered hsize
      simp only [if_true] at hremembered hsize ⊢
      have hearned := hspent.earned hbefore (lt_size_of_recycles hrec)
      refine ⟨?_, ?_, ?_, ?_⟩
      · rw [hmore, Nat.mul_add, Nat.mul_add]
        omega
      · rw [Nat.add_sub_cancel]
        omega
      · intro _
        rw [hmore, Nat.mul_add]
        omega
      · intro _ _
        rw [Nat.add_sub_cancel]
        omega

/-- A call of another second. -/
theorem Spent.other_second {t : ℤ} {table table' : HashTable RateEntry} {r : ℕ} {c : RateCall}
    {ans : ℤ} {h' : History} (hspent : Spent ip t log table h r)
    (hclock : Clocked (log ++ [(c, ans)])) (hnow : c.now ≠ t) :
    ∃ r', Spent ip t (log ++ [(c, ans)]) table' h' r' := by
  have hmore := admitted_callsOf_snoc ip log c ans t
  have hcalls := callsIn_snoc t log c ans
  rw [if_neg (fun h => hnow h.2.1), Nat.add_zero] at hmore
  rw [if_neg hnow, Nat.add_zero] at hcalls
  by_cases hlt : c.now < t
  · -- nothing has happened in second `t` yet
    have hnone : admitted (callsOf ip log) t = 0 := by
      apply admitted_eq_zero
      intro x hx
      have := hclock.le_of_mem (List.Sublist.refl (callsOf ip log)) hx
      omega
    refine ⟨0, ?_, ?_, ?_, ?_⟩
    · omega
    · omega
    · intro _
      omega
    · intro _ h0
      omega
  · have hpast : ¬ ∀ x ∈ log ++ [(c, ans)], x.1.now ≤ t := by
      intro hall
      have := hall (c, ans) (by simp)
      dsimp only at this
      omega
    have htotal := hspent.total
    have hpaid := hspent.paid
    refine ⟨r, ?_, ?_, ?_, ?_⟩
    · omega
    · omega
    · intro hall
      exact absurd hall hpast
    · intro hall
      exact absurd hall hpast

theorem exists_spent (hip : cstr ip ≠ []) (hclock : Clocked log)
    (hsupplied : ∀ x ∈ log, x.1.Supplied)
    (hrun : Run (watched ip) () (rateLimiterInit seed true true, []) log (s, h)) (t : ℤ) :
    ∃ table r, s = some table ∧ Spent ip t log table h r := by
  generalize hw : (s, h) = w at hrun
  induction hrun generalizing s h with
  | nil =>
      obtain ⟨rfl, rfl⟩ := Prod.mk.inj hw
      exact ⟨_, 0, rfl, spent_nil ip t _⟩
  | @snoc log w w' c ans hrun hstep ih =>
      have hc : c.Supplied := hsupplied (c, ans) (by simp)
      obtain ⟨table, r, hs, hspent⟩ := ih (s := w.1) (h := w.2) hclock.init
        (fun x hx => hsupplied x (List.mem_append_left _ hx)) rfl
      subst hw
      have hle' := admitted_history_le hip hclock (hrun.snoc hstep) t
      have hle := admitted_history_le hip hclock.init hrun t
      obtain ⟨hans, hs'⟩ := Prod.mk.inj hstep
      obtain ⟨hs', hh⟩ := Prod.mk.inj hs'
      rw [hs] at hans hs' hh
      obtain ⟨table', htable', -⟩ := hc.step table
      rw [← hs', htable']
      by_cases hnow : c.now = t
      · rw [← hh] at hle' ⊢
        refine ⟨table', _, rfl, hspent.same_second hc hip ?_ hnow ?_ hle hle'⟩
        · intro x hx
          rw [← hnow]
          have hmono := hclock.mono
          rw [List.map_append, List.pairwise_append] at hmono
          exact hmono.2.2 x.1.now (List.mem_map_of_mem hx) c.now (by simp)
        · exact Prod.ext hans htable'
      · obtain ⟨r', hspent'⟩ : ∃ r', Spent ip t (log ++ [(c, ans)]) table' h r' :=
          hspent.other_second hclock hnow
        exact ⟨table', r', rfl, hspent'⟩

/-! ### The guarantees -/

/-- Whatever is recycled and whatever fails, an address is rejected only after it has been allowed
the limit in the second of the call and in one other second.  With enough memory it is allowed twice
the limit in a second at most, and the limit once more for every `MAX_SAVED_IP + 1` calls of all
addresses in that second. -/
theorem limiter_guarantees (hip : cstr ip ≠ []) (hclock : Clocked log)
    (hrun : Run rateLimitCheck () (rateLimiterInit seed a b) log s) :
    (∀ p x q, log = p ++ x :: q → x.1.IsFrom ip → x.2 ≠ 1 → ∃ u, u ≠ x.1.now ∧
      rateLimitRps ≤ admitted (callsOf ip p) x.1.now + admitted (callsOf ip p) u) ∧
    (a = true → b = true → (∀ x ∈ log, x.1.Supplied) → ∀ t,
      admitted (callsOf ip log) t ≤ rateLimitRps * (2 + callsIn t log / (maxSavedIp + 1))) := by
  constructor
  · rintro p ⟨c, r⟩ q rfl hfrom hr
    obtain ⟨s₁, s₂, hp, hstep, -⟩ := hrun.split_at
    obtain ⟨h, hwatched⟩ := exists_watched ip hp
    have hclock' : Clocked (p ++ [(c, r)]) := by
      apply hclock.sublist
      rw [List.append_cons p (c, r) q]
      exact List.sublist_append_left _ q
    have hsub : (recalled c s₁ h).Sublist (callsOf ip p) := by
      unfold recalled
      split_ifs
      · exact List.nil_sublist _
      · exact sublist_callsOf hwatched
    have hfull := (answer_of_run hip hclock' hwatched hstep hfrom).not.mp hr
    obtain ⟨u, hu, hcarried⟩ := carried_le_admitted hsub c.now
    have hadmitted : admitted (recalled c s₁ h) c.now ≤ admitted (callsOf ip p) c.now :=
      hsub.countP_le
    refine ⟨u, hu, ?_⟩
    dsimp only
    omega
  · rintro rfl rfl hsupplied t
    obtain ⟨h, hwatched⟩ := exists_watched ip hrun
    obtain ⟨table, r, -, hspent⟩ := exists_spent hip hclock hsupplied hwatched t
    have hr : r - 1 ≤ callsIn t log / (maxSavedIp + 1) :=
      (Nat.le_div_iff_mul_le (Nat.succ_pos _)).mpr hspent.paid
    apply hspent.total.trans
    apply Nat.mul_le_mul_left
    omega

end runs

/-! ### A run that fills the table -/

section full
variable {cs : List RateCall} {log : List (RateCall × ℤ)} {s : Limiter}

/-- The keys of the addresses that call. -/
def keysOf (cs : List RateCall) : Finset Bytes := ((cs.filterMap RateCall.ip).map ipKey).toFinset

theorem keysOf_append (cs cs' : List RateCall) : keysOf (cs ++ cs') = keysOf cs ∪ keysOf cs' := by
  simp [keysOf]

/-- Calls that find memory, and not more than `MAX_SAVED_IP` addresses before them. -/
structure Roomy (cs : List RateCall) : Prop where
  supplied : ∀ c ∈ cs, c.Supplied
  addressed : ∀ c ∈ cs, ∃ ip, c.ip = some ip ∧ cstr ip ≠ []
  few : ∀ p c q, cs = p ++ c :: q → (keysOf p).card ≤ maxSavedIp

theorem Roomy.left {cs' : List RateCall} (h : Roomy (cs ++ cs')) : Roomy cs := by
  refine ⟨fun d hd => h.supplied d ?_, fun d hd => h.addressed d ?_, fun p d q hcs => ?_⟩
  · exact List.mem_append_left _ hd
  · exact List.mem_append_left _ hd
  · apply h.few p d (q ++ cs')
    rw [hcs, List.append_assoc, List.cons_append]

theorem Roomy.snoc {c : RateCall} {ip : Bytes} (h : Roomy cs) (hc : c.Supplied)
    (hcall : c.ip = some ip) (hne : cstr ip ≠ []) (hcard : (keysOf cs).card ≤ maxSavedIp) :
    Roomy (cs ++ [c]) := by
  refine ⟨fun d hd => ?_, fun d hd => ?_, fun p d q hcs => ?_⟩
  · rcases List.mem_append.mp hd with hd | hd
    · exact h.supplied d hd
    · exact List.mem_singleton.mp hd ▸ hc
  · rcases List.mem_append.mp hd with hd | hd
    · exact h.addressed d hd
    · exact ⟨ip, List.mem_singleton.mp hd ▸ hcall, hne⟩
  · rcases List.eq_nil_or_concat q with rfl | ⟨q', d', rfl⟩
    · rw [← (List.append_inj' hcs rfl).1]
      exact hcard
    · rw [List.concat_eq_append, ← List.cons_append, ← List.append_assoc] at hcs
      exact h.few p d q' (List.append_inj' hcs rfl).1

/-- Then the table has one entry for every address. -/
theorem Roomy.table (hrun : Run rateLimitCheck () (some freshLimiter) log s)
    (h : Roomy (log.map Prod.fst)) : ∃ t, s = some t ∧ t.WF ∧
      (∀ k, (htGet t k).isSome = true ↔ k ∈ keysOf (log.map Prod.fst)) := by
  induction hrun with
  | nil =>
      obtain ⟨hw, -, -, hget⟩ := rateLimiterInit_size
        (show rateLimiterInit 0 true true = some freshLimiter from rfl)
      refine ⟨freshLimiter, rfl, hw, fun k => ?_⟩
      simp [hget, keysOf]
  | @snoc log s s' c r _ hstep ih =>
      rw [List.map_append, List.map_singleton] at h ⊢
      obtain ⟨t, rfl, hw, hkeys⟩ := ih h.left
      obtain ⟨ip, hcall, hne⟩ := h.addressed c (by simp)
      have hroom : t.size ≤ maxSavedIp := by
        have hset : {k | (htGet t k).isSome = true} = ↑(keysOf (log.map Prod.fst)) :=
          Set.ext hkeys
        rw [hw.size_eq_ncard, hset, Set.ncard_coe_finset]
        exact h.few (log.map Prod.fst) c [] rfl
      have hkeep : recycle c t = some t := if_neg (not_lt.mpr hroom)
      have hs' : s' = some (record t ip c).2 := by
        have hsnd := congrArg Prod.snd hstep
        simpa [rateLimitCheck, hcall, hne, hkeep] using hsnd.symm
      obtain ⟨hfollows, hget⟩ := htSet_spec hw (ipKey ip)
        (checkEntry (storedEntry t ip) c.now).2 c.allocs
      rw [(h.supplied c (by simp)).entry, htSet_allDelivered, if_pos rfl] at hget
      refine ⟨_, hs', hfollows.wf, fun k => ?_⟩
      rw [record, (h.supplied c (by simp)).entry, hget, keysOf_append, Finset.mem_union, ← hkeys]
      by_cases hk : k = ipKey ip
      · simp [hk, keysOf, hcall]
      · simp [hk, keysOf, hcall, Function.update_of_ne]

theorem Roomy.size (hrun : Run rateLimitCheck () (some freshLimiter) log s)
    (h : Roomy (log.map Prod.fst)) :
    ∃ t, s = some t ∧ t.size = (keysOf (log.map Prod.fst)).card := by
  obtain ⟨t, rfl, hw, hkeys⟩ := h.table hrun
  refine ⟨t, rfl, ?_⟩
  rw [hw.size_eq_ncard, show {k | (htGet t k).isSome = true} = _ from Set.ext hkeys]
  exact Set.ncard_coe_finset _

/-- Nothing is lost as long as there is room. -/
theorem Roomy.calmRun (h : Roomy cs) (hclock : Clocked (freshRun cs).1) :
    CalmRun freshLimiter (freshRun cs).1 (freshRun cs).2 := by
  have hcalls := map_fst_freshRun cs
  refine ⟨⟨0, true, true, rfl⟩, run_freshRun cs, hclock, ?_⟩
  rintro p ⟨c, r⟩ q s₁ hlog hp
  have hcs : cs = p.map Prod.fst ++ c :: q.map Prod.fst := by
    rw [← hcalls, hlog, List.map_append, List.map_cons]
  have hroomy' : Roomy (p.map Prod.fst) := by
    rw [hcs] at h
    exact h.left
  obtain ⟨t, rfl, hsize⟩ := hroomy'.size hp
  have hroom : t.size ≤ maxSavedIp := hsize ▸ h.few _ c _ hcs
  exact (undisturbed_of_small hroom (h.supplied c (hcs ▸ by simp)).entry).1

end full

/-- The addresses of a large network. -/
def address (i : ℕ) : Bytes := bytes "10.1." ++ (showNat (i / 250) ++ 46 :: showNat (i % 250))

theorem dot_notMem_showNat (n : ℕ) : (46 : UInt8) ∉ showNat n := fun h =>
  absurd ((showNat_digits n).2 46 h) (by decide)

theorem address_injective : Function.Injective address := by
  intro i j hij
  have hrest := List.append_cancel_left hij
  obtain ⟨hhigh, -, hlow⟩ := (List.append_cons_inj_of_notMem (dot_notMem_showNat _)
    (dot_notMem_showNat _)).mp hrest
  have hdiv := congrArg decimal hhigh
  have hmod := congrArg decimal hlow
  rw [decimal_showNat, decimal_showNat] at hdiv hmod
  omega

theorem cstr_address (i : ℕ) : cstr (address i) = address i := by
  have hdigits : ∀ n, (0 : UInt8) ∉ showNat n := fun n h =>
    absurd ((showNat_digits n).2 0 h) (by decide)
  have hnetwork : (0 : UInt8) ∉ bytes "10.1." := by decide
  apply cstr_eq_self
  simp [address, hdigits, hnetwork]

theorem address_ne_peer (i : ℕ) : cstr (address i) ≠ cstr peer := by
  intro h
  have hnetwork : (address i).take 5 = bytes "10.1." := List.take_left' (by decide)
  rw [cstr_address] at h
  rw [h] at hnetwork
  exact absurd hnetwork (by decide)

/-- One call too many of one client, then `n` other clients in the same second. -/
def crowdCalls (n : ℕ) : List RateCall :=
  List.replicate 101 (callFrom peer 1) ++ (List.range n).map fun i => callFrom (address i) 1

theorem crowdCalls_succ (n : ℕ) :
    crowdCalls (n + 1) = crowdCalls n ++ [callFrom (address n) 1] := by
  simp [crowdCalls, List.range_succ]

theorem keysOf_crowd (n : ℕ) : keysOf (crowdCalls n) =
    insert (ipKey peer) ((Finset.range n).image fun i => ipKey (address i)) := by
  induction n with
  | zero => decide +kernel
  | succ n ih =>
      rw [crowdCalls_succ, keysOf_append, ih, Finset.range_add_one, Finset.image_insert]
      ext k
      simp [keysOf, callFrom]

theorem card_crowd (n : ℕ) : (keysOf (crowdCalls n)).card = n + 1 := by
  rw [keysOf_crowd, Finset.card_insert_of_notMem, Finset.card_image_of_injective, Finset.card_range]
  · intro i j hij
    have hcstr := ipKey_eq_iff.mp hij
    rw [cstr_address, cstr_address] at hcstr
    exact address_injective hcstr
  · simp only [Finset.mem_image, not_exists, not_and]
    intro i _ hi
    exact address_ne_peer i (ipKey_eq_iff.mp hi)

theorem supplied_callFrom (ip : Bytes) (t : ℤ) : (callFrom ip t).Supplied := ⟨rfl, rfl, rfl⟩

theorem keysOf_replicate (n : ℕ) (ip : Bytes) (t : ℤ) :
    keysOf (List.replicate n (callFrom ip t)) ⊆ {ipKey ip} := by
  intro k hk
  simp only [keysOf, List.mem_toFinset, List.mem_map, List.mem_filterMap] at hk
  obtain ⟨ip', ⟨c, hc, hip⟩, rfl⟩ := hk
  rw [List.eq_of_mem_replicate hc] at hip
  rw [← Option.some.inj hip]
  exact Finset.mem_singleton_self _

theorem roomy_replicate (n : ℕ) {ip : Bytes} (hne : cstr ip ≠ []) (t : ℤ) :
    Roomy (List.replicate n (callFrom ip t)) := by
  induction n with
  | zero => constructor <;> simp
  | succ n ih =>
      rw [List.replicate_succ']
      apply ih.snoc (supplied_callFrom _ _) rfl hne
      have hone := Finset.card_le_card (keysOf_replicate n ip t)
      rw [Finset.card_singleton] at hone
      exact hone.trans (by decide)

theorem roomy_crowd {n : ℕ} (hn : n ≤ maxSavedIp) : Roomy (crowdCalls n) := by
  induction n with
  | zero =>
      have hpeer : Roomy (List.replicate 101 (callFrom peer 1)) := roomy_replicate 101 (by decide) 1
      simpa [crowdCalls] using hpeer
  | succ n ih =>
      rw [crowdCalls_succ]
      apply (ih (by omega)).snoc (supplied_callFrom _ _) rfl
      · rw [cstr_address]
        exact List.cons_ne_nil _ _
      · rw [card_crowd]
        exact hn

theorem crowd_now {n : ℕ} {c : RateCall} (hc : c ∈ crowdCalls n) : c.now = 1 := by
  rcases List.mem_append.mp hc with hc | hc
  · rw [List.eq_of_mem_replicate hc]
    rfl
  · obtain ⟨i, -, rfl⟩ := List.mem_map.mp hc
    rfl

/-- A log of one second. -/
theorem clocked_of_now {log : List (RateCall × ℤ)} (h : ∀ x ∈ log, x.1.now = 1) : Clocked log := by
  refine ⟨fun x hx => ?_, ?_⟩
  · rw [h x hx]
    decide
  · rw [List.pairwise_map]
    apply List.pairwise_of_forall_mem_list
    intro x hx y hy
    rw [h x hx, h y hy]

theorem clocked_crowd (n : ℕ) : Clocked (freshRun (crowdCalls n)).1 := by
  apply clocked_of_now
  intro x hx
  exact crowd_now (map_fst_freshRun (crowdCalls n) ▸ List.mem_map_of_mem hx)

/-- The crowd fills the table without loss. -/
theorem crowd_calm :
    CalmRun freshLimiter (freshRun (crowdCalls maxSavedIp)).1 (freshRun (crowdCalls maxSavedIp)).2 :=
  (roomy_crowd le_rfl).calmRun (clocked_crowd maxSavedIp)

theorem callsOf_crowd : callsOf peer (freshRun (crowdCalls maxSavedIp)).1 =
    List.replicate 100 (1, true) ++ [(1, false)] := by
  have hothers : ((List.range maxSavedIp).map fun i => callFrom (address i) 1).filter
      (fun c => c.IsFrom peer) = [] := by
    refine List.filter_eq_nil_iff.mpr fun c hc => ?_
    obtain ⟨i, -, rfl⟩ := List.mem_map.mp hc
    simpa [RateCall.IsFrom, callFrom] using address_ne_peer i
  have hpeer : cstr peer ≠ [] := by decide
  rw [callsOf_freshRun hpeer crowd_calm, crowdCalls, List.filter_append, hothers]
  decide +kernel

/-- The table is full, and the next call recycles it. -/
theorem crowd_full : ∃ t, (freshRun (crowdCalls maxSavedIp)).2 = some t ∧
    recycles (callFrom peer 1) (some t) = true := by
  have hroomy := roomy_crowd (le_refl maxSavedIp)
  rw [← map_fst_freshRun (crowdCalls maxSavedIp)] at hroomy
  obtain ⟨t, ht, hsize⟩ := hroomy.size crowd_calm.run
  rw [map_fst_freshRun, card_crowd] at hsize
  have hcall : (callFrom peer 1).ip = some peer := rfl
  refine ⟨t, ht, (recycles_iff hcall (by decide)).mpr ?_⟩
  rw [hsize]
  exact Nat.lt_succ_self _

theorem limiter_bounded_crowd : ∃ t since,
    (freshRun (crowdCalls maxSavedIp)).2 = some t ∧ recycles (callFrom peer 1) (some t) = true ∧
    t.size ≤ maxSavedIp + 1 ∧ t.capacity ≤ 4 * (maxSavedIp + 1) ∧
    Run aged () (rateLimiterInit 0 true true, []) (freshRun (crowdCalls maxSavedIp)).1
      (some t, since) ∧
    maxSavedIp + 1 ≤ since.toFinset.card := by
  obtain ⟨t, ht, hfull⟩ := crowd_full
  obtain ⟨hbound, since, haged, hsince⟩ := limiter_bounded (run_freshRun (crowdCalls maxSavedIp))
  obtain ⟨hsize, hcapacity⟩ := hbound t ht
  rw [ht] at haged hsince
  exact ⟨t, since, ht, hfull, hsize, hcapacity, haged, hsince _ hfull⟩

/-- The same calls, and one more of the first client, which the recycled table knows nothing of. -/
def crowdLog : List (RateCall × ℤ) :=
  (freshRun (crowdCalls maxSavedIp)).1 ++ [(callFrom peer 1, 1)]

theorem crowd_recycled : ∃ s, Run rateLimitCheck () (rateLimiterInit 0 true true) crowdLog s := by
  obtain ⟨t, ht, hfull⟩ := crowd_full
  have hpeer : cstr peer ≠ [] := by decide
  have hcall : (callFrom peer 1).ip = some peer := rfl
  have hsize := (recycles_iff hcall hpeer).mp hfull
  have hfresh : recycle (callFrom peer 1) t = some freshLimiter := if_pos hsize
  have hallowed : allowedIn freshLimiter peer 1 = true := by decide +kernel
  have hstep : (rateLimitCheck (callFrom peer 1) () (some t)).1 = 1 := by
    have hnow : (callFrom peer 1).now = 1 := rfl
    simp [rateLimitCheck, hcall, hpeer, hfresh, hnow, hallowed]
  have hrun := run_freshRun (crowdCalls maxSavedIp)
  rw [ht] at hrun
  exact ⟨_, hrun.snoc (Prog.run_of_fst hstep)⟩

theorem clocked_crowdLog : Clocked crowdLog := by
  have hnow : ∀ x ∈ crowdLog, x.1.now = 1 := by
    intro x hx
    rcases List.mem_append.mp hx with hx | hx
    · exact crowd_now (map_fst_freshRun (crowdCalls maxSavedIp) ▸ List.mem_map_of_mem hx)
    · rw [List.mem_singleton.mp hx]
      rfl
  exact clocked_of_now hnow

theorem supplied_crowdLog : ∀ x ∈ crowdLog, x.1.Supplied := by
  intro x hx
  rcases List.mem_append.mp hx with hx | hx
  · have hmem := List.mem_map_of_mem (f := Prod.fst) hx
    rw [map_fst_freshRun] at hmem
    exact (roomy_crowd le_rfl).supplied x.1 hmem
  · rw [List.mem_singleton.mp hx]
    exact supplied_callFrom _ _

theorem callsOf_crowdLog :
    callsOf peer crowdLog = List.replicate 100 (1, true) ++ [(1, false), (1, true)] := by
  have hfrom : (callFrom peer 1).IsFrom peer := by decide
  rw [crowdLog, callsOf_snoc, if_pos hfrom, callsOf_crowd, List.append_assoc]
  rfl

/-- The client is rejected after it has been allowed the limit, and after the recycling it is
allowed one call more. -/
theorem limiter_guarantees_crowd :
    callsOf peer crowdLog = List.replicate 100 (1, true) ++ [(1, false), (1, true)] ∧
    (∀ p x q, crowdLog = p ++ x :: q → x.1.IsFrom peer → x.2 ≠ 1 → ∃ u, u ≠ x.1.now ∧
      rateLimitRps ≤ admitted (callsOf peer p) x.1.now + admitted (callsOf peer p) u) ∧
    ∀ t, admitted (callsOf peer crowdLog) t ≤
      rateLimitRps * (2 + callsIn t crowdLog / (maxSavedIp + 1)) := by
  have hpeer : cstr peer ≠ [] := by decide
  obtain ⟨s, hrun⟩ := crowd_recycled
  obtain ⟨hjustified, hbound⟩ := limiter_guarantees hpeer clocked_crowdLog hrun
  exact ⟨callsOf_crowdLog, hjustified, hbound rfl rfl supplied_crowdLog⟩

end Segnalacity
