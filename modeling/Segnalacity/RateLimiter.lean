import Segnalacity.HashTable.Map
import Segnalacity.Lib.StateProg
import Segnalacity.Lib.Window
import Segnalacity.Session

/-! # The rate limiter

`rate_limiter.c`: a hash table from address strings to two counters.  A `time_t` is a signed number
of seconds; the runs here have a clock that counts from the Epoch on and never goes back (`Clocked`).
All operands of the estimate are whole numbers far below `2^53`, on which `double` arithmetic is
exact, so it is computed in `ℤ`; the counters stay below the limit and do not wrap.

The history of an address holds its calls as `Window.History`; a call that the table loses is
missing from it.  The stored entry tracks the history (`rateLimitCheck_step`), so it determines
every decision.  In a `CalmRun` nothing is lost, and the limiter replays what the address did
(`CalmRun.history`). -/

namespace Segnalacity

open CStr StateProg HashTable Window

/-! ### Definitions -/

def rateLimitRps : ℕ := 100

def maxSavedIp : ℕ := 10000

structure RateEntry where
  countCurr : ℕ
  countPrev : ℕ
  windowStartTime : ℤ
deriving DecidableEq, Repr

/-- `rateTable`, which is `NULL` after a failed allocation. -/
abbrev Limiter := Option (HashTable RateEntry)

/-- `rate_limiter_init`. -/
def rateLimiterInit (seed : UInt64) (tableOk poolOk : Bool) : Limiter :=
  htCreate 1024 hashKey seed tableOk poolOk

/-- A call of `rate_limit_check` with the reading of the clock and the outcome of every
allocation: those of the table that may have to be recycled, and those of `ht_set`. -/
structure RateCall where
  ip : Option Bytes
  now : ℤ
  seed : UInt64
  tableOk : Bool
  poolOk : Bool
  allocs : SetAllocs

def ipKey (ip : Bytes) : Bytes := cstr ip ++ [0]

/-- Rotate the windows when a full second has elapsed. -/
def rotate (e : RateEntry) (now : ℤ) : RateEntry :=
  if now - e.windowStartTime ≥ 1 then ⟨0, e.countCurr, now⟩ else e

def estimated (e : RateEntry) (now : ℤ) : ℤ :=
  let elapsed := now - e.windowStartTime
  e.countPrev * (1 - elapsed) + e.countCurr

/-- The decision on an entry and the entry to be stored. -/
def checkEntry (e : RateEntry) (now : ℤ) : Bool × RateEntry :=
  let e := rotate e now
  let allowed : Bool := estimated e now < rateLimitRps
  (allowed, if allowed then { e with countCurr := e.countCurr + 1 } else e)

/-- The table is recycled when it has grown too large. -/
def recycle (c : RateCall) (t : HashTable RateEntry) : Limiter :=
  if t.size > maxSavedIp then rateLimiterInit c.seed c.tableOk c.poolOk else some t

def storedEntry (t : HashTable RateEntry) (ip : Bytes) : RateEntry :=
  (htGet t (ipKey ip)).getD ⟨0, 0, 0⟩

def allowedIn (t : HashTable RateEntry) (ip : Bytes) (now : ℤ) : Bool :=
  (checkEntry (storedEntry t ip) now).1

/-- The `ht_set` at the end of a call. -/
def record (t : HashTable RateEntry) (ip : Bytes) (c : RateCall) : Bool × HashTable RateEntry :=
  htSet t (ipKey ip) (checkEntry (storedEntry t ip) c.now).2 c.allocs

def rateLimitCheck (c : RateCall) : Prog Unit Limiter ℤ := fun _ s =>
  match c.ip, s with
  | none, s => (1, s)
  | some _, none => (1, none)
  | some ip, some t =>
      if cstr ip = [] then (1, some t)
      else match recycle c t with
        | none => (1, none)
        | some t => (if allowedIn t ip c.now then 1 else 0, some (record t ip c).2)

/-! ### Histories -/

/-- The call comes from the address. -/
def RateCall.IsFrom (c : RateCall) (ip : Bytes) : Prop := c.ip.map cstr = some (cstr ip)

instance (c : RateCall) (ip : Bytes) : Decidable (c.IsFrom ip) :=
  inferInstanceAs (Decidable (_ = _))

/-- The calls of an address that a log shows, with the decisions. -/
def callsOf (ip : Bytes) (log : List (RateCall × ℤ)) : History :=
  (log.filter fun x => x.1.IsFrom ip).map fun x => (x.1.now, decide (x.2 = 1))

def recycles (c : RateCall) (s : Limiter) : Bool :=
  match c.ip, s with
  | some ip, some t => cstr ip ≠ [] ∧ t.size > maxSavedIp
  | _, _ => false

/-- The `ht_set` of the call succeeds. -/
def stored (c : RateCall) (s : Limiter) : Bool :=
  match c.ip, s with
  | some ip, some t => cstr ip ≠ [] ∧ (recycle c t).any fun t => (record t ip c).1
  | _, _ => false

/-- What is left of a history when the call is looked up. -/
def recalled (c : RateCall) (s : Limiter) (h : History) : History := if recycles c s then [] else h

/-- The history of an address after a call: lost calls are missing. -/
def rememberCall (ip : Bytes) (c : RateCall) (s : Limiter) (h : History) : History :=
  if c.IsFrom ip ∧ stored c s then
    recalled c s h ++ [(c.now, decide ((rateLimitCheck c () s).1 = 1))]
  else recalled c s h

/-- The table is not recycled and takes the call. -/
structure Undisturbed (c : RateCall) (s : Limiter) : Prop where
  keeps : recycles c s = false
  stores : ∀ ip, c.ip = some ip → cstr ip ≠ [] → stored c s = true

/-! ### One call -/

theorem ipKey_eq_iff {a b : Bytes} : ipKey a = ipKey b ↔ cstr a = cstr b :=
  List.append_left_inj _

def RateEntry.counter (e : RateEntry) : Counter := ⟨e.countCurr, e.countPrev, e.windowStartTime⟩

theorem rotate_counter (e : RateEntry) (now : ℤ) :
    (rotate e now).counter = e.counter.roll now := by
  unfold rotate Counter.roll
  by_cases hlt : e.windowStartTime < now
  · have hge : now - e.windowStartTime ≥ 1 := by omega
    have hlt' : e.counter.start < now := hlt
    rw [if_pos hge, if_pos hlt']
    rfl
  · have hge : ¬ now - e.windowStartTime ≥ 1 := by omega
    have hlt' : ¬ e.counter.start < now := hlt
    rw [if_neg hge, if_neg hlt']

/-- The window that is checked has just begun, so the one before it counts in full. -/
theorem estimated_of_start {e : RateEntry} {now : ℤ} (h : e.windowStartTime = now) :
    estimated e now = e.countPrev + e.countCurr := by
  simp [estimated, h]

theorem checkEntry_spec {e : RateEntry} {h : History} {now : ℤ} (he : e.counter.Tracks h)
    (h0 : 0 ≤ now) (hle : ∀ x ∈ h, x.1 ≤ now) :
    (checkEntry e now).1 = admits rateLimitRps h now ∧
      (checkEntry e now).2.counter.Tracks (h ++ [(now, (checkEntry e now).1)]) := by
  have hroll := he now h0 hle
  have hrot := rotate_counter e now
  have hallowed : (checkEntry e now).1 = admits rateLimitRps h now := by
    rw [hroll] at hrot
    obtain ⟨hcurr, hprev, hstart⟩ := Counter.mk.inj hrot
    unfold checkEntry admits
    simp only [estimated_of_start hstart, hcurr, hprev]
    congr 1
    exact propext (by omega)
  refine ⟨hallowed, ?_⟩
  have hcount := he.count h0 hle (checkEntry e now).1
  rw [← hrot] at hcount
  convert hcount using 1
  unfold checkEntry
  dsimp only
  split_ifs with hb
  · rw [hb]
    rfl
  · rw [Bool.not_eq_true] at hb
    rw [hb]
    rfl

theorem storedEntry_record {t : HashTable RateEntry} (hw : t.WF) (ip ip' : Bytes) (c : RateCall) :
    storedEntry (record t ip' c).2 ip =
      if cstr ip' = cstr ip ∧ (record t ip' c).1 then (checkEntry (storedEntry t ip) c.now).2
      else storedEntry t ip := by
  have hget : htGet (record t ip' c).2 =
      if (record t ip' c).1 then
        Function.update (htGet t) (ipKey ip') (some (checkEntry (storedEntry t ip') c.now).2)
      else htGet t := (htSet_spec hw _ _ _).2
  rw [storedEntry, hget]
  by_cases hok : (record t ip' c).1 = true
  · rw [if_pos hok]
    by_cases hkey : cstr ip' = cstr ip
    · have hsame : ipKey ip' = ipKey ip := ipKey_eq_iff.mpr hkey
      rw [if_pos ⟨hkey, hok⟩, hsame, Function.update_self, storedEntry, storedEntry, hsame]
      rfl
    · rw [if_neg (fun h => hkey h.1), Function.update_of_ne]
      · rfl
      · exact fun h => hkey (ipKey_eq_iff.mp h).symm
  · rw [if_neg hok, if_neg (fun h => hok h.2)]
    rfl

/-- The table knows the history of the address; without a table nothing is known. -/
structure Known (ip : Bytes) (s : Limiter) (h : History) : Prop where
  nothing : s = none → h = []
  wf : ∀ t, s = some t → t.WF
  tracks : ∀ t, s = some t → (storedEntry t ip).counter.Tracks h

theorem known_init {seed : UInt64} {a b : Bool} (ip : Bytes) :
    Known ip (rateLimiterInit seed a b) [] := by
  refine ⟨fun _ => rfl, fun t ht => (htCreate_wf ht).1, fun t ht => ?_⟩
  obtain ⟨hw, hnil⟩ := htCreate_wf ht
  rw [storedEntry, htGet_of_entries_nil hw hnil]
  exact Counter.tracks_nil

theorem known_none (ip : Bytes) : Known ip none [] :=
  ⟨fun _ => rfl, fun _ h => (Option.some_ne_none _ h.symm).elim,
    fun _ h => (Option.some_ne_none _ h.symm).elim⟩

/-- One call in a table that knows the history. -/
theorem record_known {t : HashTable RateEntry} {ip ip' : Bytes} {c : RateCall} {h : History}
    (hw : t.WF) (ht : (storedEntry t ip).counter.Tracks h) (h0 : 0 ≤ c.now)
    (hle : ∀ x ∈ h, x.1 ≤ c.now) : Known ip (some (record t ip' c).2)
      (if cstr ip' = cstr ip ∧ (record t ip' c).1 then h ++ [(c.now, allowedIn t ip' c.now)]
        else h) := by
  refine ⟨fun h => (Option.some_ne_none _ h).elim, ?_, ?_⟩
  · rintro _ ⟨⟩
    exact (htSet_spec hw _ _ _).1.wf
  · rintro _ ⟨⟩
    rw [storedEntry_record hw]
    split_ifs with hown
    · have hsame : allowedIn t ip' c.now = (checkEntry (storedEntry t ip) c.now).1 := by
        rw [allowedIn, storedEntry, storedEntry, ipKey_eq_iff.mpr hown.1]
      rw [hsame]
      exact (checkEntry_spec ht h0 hle).2
    · exact ht

/-- The table in which a call is looked up knows what is recalled. -/
theorem recycle_known {ip ip' : Bytes} {c : RateCall} {t t' : HashTable RateEntry} {h : History}
    (hk : Known ip (some t) h) (hcall : c.ip = some ip') (hne : cstr ip' ≠ [])
    (ht : recycle c t = some t') : Known ip (some t') (recalled c (some t) h) := by
  unfold recycle at ht
  unfold recalled recycles
  simp only [hcall, hne, ne_eq, not_false_eq_true, true_and]
  split_ifs at ht with hsize
  · rw [decide_eq_true hsize, if_pos rfl, ← ht]
    exact known_init ip
  · rw [decide_eq_false hsize, if_neg (by decide), ← ht]
    exact hk

theorem recalled_of_recycle_none {ip' : Bytes} {c : RateCall} {t : HashTable RateEntry}
    (hcall : c.ip = some ip') (hne : cstr ip' ≠ []) (ht : recycle c t = none) (h : History) :
    recalled c (some t) h = [] := by
  unfold recycle at ht
  unfold recalled recycles
  split_ifs at ht with hsize
  simp [hcall, hne, hsize]

theorem mem_recalled {c : RateCall} {s : Limiter} {h : History} {x : ℤ × Bool}
    (hx : x ∈ recalled c s h) : x ∈ h := by
  unfold recalled at hx
  split_ifs at hx
  · cases hx
  · exact hx

/-- A call that is looked up in `t'`, the table that is there after a recycling. -/
theorem Known.looked {ip ip' : Bytes} {c : RateCall} {t t' : HashTable RateEntry} {h : History}
    (hk : Known ip (some t) h) (hcall : c.ip = some ip') (hne : cstr ip' ≠ [])
    (ht : recycle c t = some t') (h0 : 0 ≤ c.now) (hle : ∀ x ∈ h, x.1 ≤ c.now) :
    Known ip (some (record t' ip' c).2)
        (if c.IsFrom ip ∧ stored c (some t) = true then
          recalled c (some t) h ++ [(c.now, allowedIn t' ip' c.now)] else recalled c (some t) h) ∧
      (c.IsFrom ip →
        allowedIn t' ip' c.now = admits rateLimitRps (recalled c (some t) h) c.now) := by
  have hk' := recycle_known hk hcall hne ht
  have hle' : ∀ x ∈ recalled c (some t) h, x.1 ≤ c.now := fun x hx => hle x (mem_recalled hx)
  have hfrom : c.IsFrom ip ↔ cstr ip' = cstr ip := by
    rw [RateCall.IsFrom, hcall, Option.map_some, Option.some_inj]
  have hstored : stored c (some t) = (record t' ip' c).1 := by simp [stored, hcall, hne, ht]
  refine ⟨?_, fun hown => ?_⟩
  · convert record_known (hk'.wf t' rfl) (hk'.tracks t' rfl) h0 hle' using 2
    rw [hfrom, hstored]
  · rw [allowedIn, storedEntry, ipKey_eq_iff.mpr (hfrom.mp hown)]
    exact (checkEntry_spec (hk'.tracks t' rfl) h0 hle').1

/-- One call, whatever happens to the table: the decision is the one of the history, and the
history stays known. -/
theorem rateLimitCheck_step {ip : Bytes} {c : RateCall} {s s' : Limiter} {h : History} {r : ℤ}
    (hip : cstr ip ≠ []) (hk : Known ip s h) (h0 : 0 ≤ c.now) (hle : ∀ x ∈ h, x.1 ≤ c.now)
    (hrun : rateLimitCheck c () s = (r, s')) :
    Known ip s' (rememberCall ip c s h) ∧
      (c.IsFrom ip → r = if admits rateLimitRps (recalled c s h) c.now then 1 else 0) := by
  have hanswer : (rateLimitCheck c () s).1 = r := congrArg Prod.fst hrun
  unfold rememberCall
  rw [hanswer]
  cases hcall : c.ip with
  | none =>
      have hother : ¬ c.IsFrom ip := by
        rw [RateCall.IsFrom, hcall, Option.map_none]
        exact (Option.some_ne_none _).symm
      have hsame : recalled c s h = h := by simp [recalled, recycles, hcall]
      simp only [rateLimitCheck, hcall] at hrun
      obtain ⟨-, rfl⟩ := Prod.mk.inj hrun
      rw [if_neg (fun h => hother h.1), hsame]
      exact ⟨hk, fun hfrom => absurd hfrom hother⟩
  | some ip' =>
      cases s with
      | none =>
          have hnil := hk.nothing rfl
          subst hnil
          simp only [rateLimitCheck, hcall] at hrun
          obtain ⟨rfl, rfl⟩ := Prod.mk.inj hrun
          rw [if_neg (fun h => by simp [stored, hcall] at h)]
          simp only [recalled, ite_self]
          exact ⟨hk, fun _ => rfl⟩
      | some t =>
          simp only [rateLimitCheck, hcall] at hrun
          by_cases hne : cstr ip' = []
          · have hother : ¬ c.IsFrom ip := by
              rw [RateCall.IsFrom, hcall, Option.map_some, hne]
              exact fun h => hip (Option.some.inj h).symm
            have hsame : recalled c (some t) h = h := by simp [recalled, recycles, hcall, hne]
            rw [if_pos hne] at hrun
            obtain ⟨-, rfl⟩ := Prod.mk.inj hrun
            rw [if_neg (fun h => hother h.1), hsame]
            exact ⟨hk, fun hfrom => absurd hfrom hother⟩
          · rw [if_neg hne] at hrun
            cases ht : recycle c t with
            | none =>
                simp only [ht] at hrun
                obtain ⟨rfl, rfl⟩ := Prod.mk.inj hrun
                rw [if_neg (fun h => by simp [stored, hcall, ht] at h),
                  recalled_of_recycle_none hcall hne ht]
                exact ⟨known_none ip, fun _ => rfl⟩
            | some t' =>
                simp only [ht] at hrun
                obtain ⟨rfl, rfl⟩ := Prod.mk.inj hrun
                obtain ⟨hknown, hsame⟩ := hk.looked hcall hne ht h0 hle
                refine ⟨?_, fun hown => ?_⟩
                · convert hknown using 4
                  cases allowedIn t' ip' c.now <;> rfl
                · rw [hsame hown]

/-! ### Runs -/

section runs
variable {ip : Bytes} {s₀ s : Limiter} {h : History} {log : List (RateCall × ℤ)}

/-- The clock shows the time since the Epoch and never goes back. -/
structure Clocked (log : List (RateCall × ℤ)) : Prop where
  nonneg : ∀ x ∈ log, 0 ≤ x.1.now
  mono : (log.map fun x => x.1.now).Pairwise (· ≤ ·)

/-- A call, with the history of one address kept beside the table. -/
def watched (ip : Bytes) (c : RateCall) : Prog Unit (Limiter × History) ℤ := fun e s =>
  ((rateLimitCheck c e s.1).1, (rateLimitCheck c e s.1).2, rememberCall ip c s.1 s.2)

theorem callsOf_snoc (ip : Bytes) (log : List (RateCall × ℤ)) (c : RateCall) (r : ℤ) :
    callsOf ip (log ++ [(c, r)]) =
      if c.IsFrom ip then callsOf ip log ++ [(c.now, decide (r = 1))] else callsOf ip log := by
  unfold callsOf
  rw [List.filter_append, List.map_append]
  by_cases hfrom : c.IsFrom ip <;> simp [hfrom]

theorem run_of_watched (hrun : Run (watched ip) () (s₀, []) log (s, h)) :
    Run rateLimitCheck () s₀ log s := by
  generalize hw : (s, h) = w at hrun
  induction hrun generalizing s h with
  | nil =>
      obtain ⟨rfl, rfl⟩ := Prod.mk.inj hw
      exact .nil
  | @snoc log w w' c r _ hstep ih =>
      obtain ⟨hr, hs⟩ := Prod.mk.inj hstep
      refine .snoc (ih (s := w.1) (h := w.2) rfl) (Prod.ext hr ?_)
      exact congrArg Prod.fst (hs.trans hw.symm)

theorem exists_watched (ip : Bytes) (hrun : Run rateLimitCheck () s₀ log s) :
    ∃ h, Run (watched ip) () (s₀, []) log (s, h) := by
  induction hrun with
  | nil => exact ⟨[], .nil⟩
  | @snoc log s s' c r _ hstep ih =>
      obtain ⟨h, hrun⟩ := ih
      refine ⟨rememberCall ip c s h, .snoc hrun ?_⟩
      rw [watched, hstep]

/-- A history holds calls of the log, in order. -/
theorem sublist_callsOf (hrun : Run (watched ip) () (s₀, []) log (s, h)) :
    h.Sublist (callsOf ip log) := by
  refine hrun.invariant (I := fun log w => w.2.Sublist (callsOf ip log)) (List.nil_sublist _) ?_
  intro log w c r w' hsub hstep
  obtain ⟨hr, rfl⟩ := Prod.mk.inj hstep
  have hrecalled : (recalled c w.1 w.2).Sublist (callsOf ip log) := by
    unfold recalled
    split_ifs
    · exact List.nil_sublist _
    · exact hsub
  show (rememberCall ip c w.1 w.2).Sublist _
  rw [callsOf_snoc, rememberCall, hr]
  by_cases hfrom : c.IsFrom ip
  · rw [if_pos hfrom]
    split_ifs
    · exact hrecalled.append (List.Sublist.refl _)
    · exact hrecalled.trans (List.sublist_append_left _ _)
  · rw [if_neg hfrom, if_neg (fun h => hfrom h.1)]
    exact hrecalled

theorem map_fst_callsOf (ip : Bytes) (log : List (RateCall × ℤ)) :
    (callsOf ip log).map Prod.fst =
      ((log.map Prod.fst).filter fun c => c.IsFrom ip).map RateCall.now := by
  rw [callsOf, List.map_map, List.filter_map, List.map_map]
  rfl

theorem times_callsOf (ip : Bytes) (log : List (RateCall × ℤ)) :
    ((callsOf ip log).map Prod.fst).Sublist (log.map fun x => x.1.now) := by
  rw [callsOf, List.map_map]
  exact List.filter_sublist.map _

/-- Whatever is remembered lies before the next call. -/
theorem Clocked.le_of_mem {c : RateCall} {r : ℤ} (hclock : Clocked (log ++ [(c, r)]))
    (hsub : h.Sublist (callsOf ip log)) {x : ℤ × Bool} (hx : x ∈ h) : x.1 ≤ c.now := by
  have hmono := hclock.mono
  rw [List.map_append, List.pairwise_append] at hmono
  refine hmono.2.2 x.1 ?_ c.now (List.mem_singleton_self _)
  exact (times_callsOf ip log).subset (List.mem_map_of_mem (hsub.subset hx))

theorem Clocked.sublist {log' : List (RateCall × ℤ)} (hclock : Clocked log)
    (hsub : log'.Sublist log) : Clocked log' :=
  ⟨fun x hx => hclock.nonneg x (hsub.subset hx), hclock.mono.sublist (hsub.map _)⟩

theorem Clocked.init {x : RateCall × ℤ} (hclock : Clocked (log ++ [x])) : Clocked log :=
  hclock.sublist (List.sublist_append_left log [x])

theorem Clocked.last {x : RateCall × ℤ} (hclock : Clocked (log ++ [x])) : 0 ≤ x.1.now :=
  hclock.nonneg x (by simp)

theorem run_known {seed : UInt64} {a b : Bool} (hip : cstr ip ≠ []) (hclock : Clocked log)
    (hrun : Run (watched ip) () (rateLimiterInit seed a b, []) log (s, h)) : Known ip s h := by
  generalize hw : (s, h) = w at hrun
  induction hrun generalizing s h with
  | nil =>
      obtain ⟨rfl, rfl⟩ := Prod.mk.inj hw
      exact known_init ip
  | @snoc log w w' c r hrun hstep ih =>
      have hk := ih (s := w.1) (h := w.2) hclock.init rfl
      obtain ⟨-, hs⟩ := Prod.mk.inj (hstep.trans (by rw [← hw]))
      obtain ⟨rfl, rfl⟩ := Prod.mk.inj hs
      exact (rateLimitCheck_step hip hk hclock.last
        (fun x hx => hclock.le_of_mem (sublist_callsOf hrun) hx) rfl).1

/-- The decision of a call that is looked up in a known history. -/
theorem answer_of_run {c : RateCall} {r : ℤ} {s' : Limiter} {seed : UInt64} {a b : Bool}
    (hip : cstr ip ≠ []) (hclock : Clocked (log ++ [(c, r)]))
    (hrun : Run (watched ip) () (rateLimiterInit seed a b, []) log (s, h))
    (hstep : rateLimitCheck c () s = (r, s')) (hfrom : c.IsFrom ip) :
    r = 1 ↔ carried (recalled c s h) c.now + admitted (recalled c s h) c.now < rateLimitRps := by
  have hk := run_known hip hclock.init hrun
  have hr := (rateLimitCheck_step hip hk hclock.last
    (fun x hx => hclock.le_of_mem (sublist_callsOf hrun) hx) hstep).2 hfrom
  rw [hr, admits]
  split_ifs with hroom
  · exact iff_of_true rfl (of_decide_eq_true hroom)
  · exact iff_of_false (by decide) (fun h => hroom (decide_eq_true h))

/-! ### Runs without loss -/

/-- A run from the start in which the clock never goes back, the table is not recycled and every
`ht_set` succeeds. -/
structure CalmRun (t₀ : HashTable RateEntry) (log : List (RateCall × ℤ)) (s : Limiter) :
    Prop where
  start : ∃ seed a b, rateLimiterInit seed a b = some t₀
  run : Run rateLimitCheck () (some t₀) log s
  clock : Clocked log
  calm : ∀ p x q s₁, log = p ++ x :: q → Run rateLimitCheck () (some t₀) p s₁ →
    Undisturbed x.1 s₁

theorem Undisturbed.rememberCall {c : RateCall} {r : ℤ} {s' : Limiter} (hip : cstr ip ≠ [])
    (hu : Undisturbed c s) (hstep : rateLimitCheck c () s = (r, s')) :
    rememberCall ip c s h = if c.IsFrom ip then h ++ [(c.now, decide (r = 1))] else h := by
  have hsame : recalled c s h = h := by
    rw [recalled, hu.keeps]
    rfl
  rw [Segnalacity.rememberCall, hsame, hstep]
  by_cases hfrom : c.IsFrom ip
  · obtain ⟨ip', hcall, hkey⟩ := Option.map_eq_some_iff.mp hfrom
    have hstored := hu.stores ip' hcall (by rw [hkey]; exact hip)
    rw [if_pos ⟨hfrom, hstored⟩, if_pos hfrom]
  · rw [if_neg (fun h => hfrom h.1), if_neg hfrom]

/-- Without loss the history is everything the address did, and the limiter replays it. -/
theorem CalmRun.history {t₀ : HashTable RateEntry} (hip : cstr ip ≠ []) (h : CalmRun t₀ log s) :
    Run (watched ip) () (some t₀, []) log (s, callsOf ip log) ∧
      callsOf ip log = replay rateLimitRps ((callsOf ip log).map Prod.fst) := by
  obtain ⟨⟨seed, a, b, hinit⟩, hrun, hclock, hcalm⟩ := h
  induction hrun with
  | nil => exact ⟨.nil, rfl⟩
  | @snoc log s s' c r hrun hstep ih =>
      have hcalm' : ∀ p x q s₁, log = p ++ x :: q → Run rateLimitCheck () (some t₀) p s₁ →
          Undisturbed x.1 s₁ := fun p x q s₁ hlog =>
        hcalm p x (q ++ [(c, r)]) s₁ (by rw [hlog, List.append_assoc, List.cons_append])
      obtain ⟨hwatched, hreplay⟩ := ih hclock.init hcalm'
      have hu : Undisturbed c s := hcalm log (c, r) [] s rfl hrun
      have hremember := hu.rememberCall (h := callsOf ip log) hip hstep
      rw [← callsOf_snoc] at hremember
      refine ⟨?_, ?_⟩
      · rw [← hremember]
        refine .snoc hwatched ?_
        rw [watched, hstep]
      · rw [callsOf_snoc]
        split_ifs with hfrom
        · have hanswer := answer_of_run hip hclock (hinit ▸ hwatched) hstep hfrom
          rw [recalled, hu.keeps, if_neg (by decide)] at hanswer
          rw [List.map_append, List.map_singleton, replay_snoc, ← hreplay, admits]
          simp only [hanswer]
        · exact hreplay

theorem htSet_size_le {V : Type} (t : HashTable V) (key : Bytes) (value : V) (m : SetAllocs) :
    (htSet t key value m).2.size ≤ t.size + 1 := by
  unfold htSet htInsert htResize
  dsimp only
  split
  · split
    · exact Nat.le_succ _
    · exact Nat.le_succ _
  · split
    · exact Nat.le_succ _
    · rename_i t' ht'
      have hsize : t'.size = t.size := by
        split_ifs at ht'
        · obtain rfl := Option.some.inj ht'
          rfl
        · obtain rfl := Option.some.inj ht'
          rfl
      split
      · exact hsize.le.trans (Nat.le_succ _)
      · exact (congrArg (· + 1) hsize).le

/-- No call is lost while the table is small and memory suffices. -/
theorem undisturbed_of_small {c : RateCall} {t : HashTable RateEntry} (hsize : t.size ≤ maxSavedIp)
    (hallocs : c.allocs = allDelivered) : Undisturbed c (some t) ∧
      ∃ t', (rateLimitCheck c () (some t)).2 = some t' ∧ t'.size ≤ t.size + 1 := by
  have hkeep : recycle c t = some t := if_neg (not_lt.mpr hsize)
  refine ⟨⟨?_, ?_⟩, ?_⟩
  · unfold recycles
    cases c.ip with
    | none => rfl
    | some ip => simp [not_lt.mpr hsize]
  · intro ip hcall hne
    simp [stored, hcall, hne, hkeep, record, hallocs, htSet_allDelivered]
  · unfold rateLimitCheck
    cases c.ip with
    | none => exact ⟨t, rfl, Nat.le_succ _⟩
    | some ip =>
        by_cases hne : cstr ip = []
        · exact ⟨t, by simp [hne], Nat.le_succ _⟩
        · exact ⟨(record t ip c).2, by simp [hne, hkeep], htSet_size_le _ _ _ _⟩

theorem calmRun_of_short {t₀ : HashTable RateEntry} {seed : UInt64} {a b : Bool}
    (h₀ : rateLimiterInit seed a b = some t₀) (hrun : Run rateLimitCheck () (some t₀) log s)
    (hclock : Clocked log) (hallocs : ∀ x ∈ log, x.1.allocs = allDelivered)
    (hlength : log.length ≤ maxSavedIp) : CalmRun t₀ log s := by
  refine ⟨⟨seed, a, b, h₀⟩, hrun, hclock, ?_⟩
  have hsmall : ∀ p s₁, Run rateLimitCheck () (some t₀) p s₁ → p.length ≤ maxSavedIp →
      (∀ x ∈ p, x.1.allocs = allDelivered) → ∃ t, s₁ = some t ∧ t.size ≤ p.length := by
    intro p s₁ hp
    induction hp with
    | nil =>
        intro _ _
        refine ⟨t₀, rfl, ?_⟩
        obtain ⟨hw, hnil⟩ := htCreate_wf h₀
        rw [hw.size_eq, hnil]
        exact Nat.zero_le _
    | @snoc p s₁ s₂ c r hp hstep ih =>
        intro hlen hall
        rw [List.length_append, List.length_singleton] at hlen
        obtain ⟨t, rfl, hsize⟩ := ih (by omega) fun x hx => hall x (List.mem_append_left _ hx)
        obtain ⟨-, t', ht', hsize'⟩ :=
          undisturbed_of_small (hsize.trans (by omega)) (hall (c, r) (by simp))
        rw [hstep] at ht'
        refine ⟨t', ht', ?_⟩
        rw [List.length_append, List.length_singleton]
        omega
  rintro p ⟨c, r⟩ q s₁ rfl hp
  rw [List.length_append, List.length_cons] at hlength
  obtain ⟨t, rfl, hsize⟩ := hsmall p s₁ hp (by omega) fun x hx =>
    hallocs x (List.mem_append_left _ hx)
  exact (undisturbed_of_small (hsize.trans (by omega)) (hallocs (c, r) (by simp))).1

theorem CalmRun.sorted {t₀ : HashTable RateEntry} (h : CalmRun t₀ log s) (ip : Bytes) :
    ((callsOf ip log).map Prod.fst).Pairwise (· ≤ ·) :=
  h.clock.mono.sublist (times_callsOf ip log)

end runs

/-! ### Clients of a fresh table -/

def freshLimiter : HashTable RateEntry := ⟨List.replicate 1024 [], 0, 1024, 0, hashKey⟩

def freshRun (cs : List RateCall) : List (RateCall × ℤ) × Limiter :=
  Run.exec rateLimitCheck () (some freshLimiter) cs

theorem run_freshRun (cs : List RateCall) :
    Run rateLimitCheck () (rateLimiterInit 0 true true) (freshRun cs).1 (freshRun cs).2 :=
  Run.of_exec _ _ _ _

theorem map_fst_freshRun (cs : List RateCall) : (freshRun cs).1.map Prod.fst = cs :=
  Run.map_fst_exec _ _ _ _

theorem clocked_freshRun {cs : List RateCall} (hnonneg : ∀ c ∈ cs, 0 ≤ c.now)
    (hsorted : (cs.map RateCall.now).Pairwise (· ≤ ·)) : Clocked (freshRun cs).1 := by
  have hcalls := map_fst_freshRun cs
  refine ⟨fun x hx => hnonneg x.1 ?_, ?_⟩
  · rw [← hcalls]
    exact List.mem_map_of_mem hx
  · rw [← hcalls, List.map_map] at hsorted
    exact hsorted

theorem calmRun_freshRun {cs : List RateCall} (hnonneg : ∀ c ∈ cs, 0 ≤ c.now)
    (hsorted : (cs.map RateCall.now).Pairwise (· ≤ ·))
    (hallocs : ∀ c ∈ cs, c.allocs = allDelivered) (hlength : cs.length ≤ maxSavedIp) :
    CalmRun freshLimiter (freshRun cs).1 (freshRun cs).2 := by
  have hcalls := map_fst_freshRun cs
  have hinit : rateLimiterInit 0 true true = some freshLimiter := rfl
  apply calmRun_of_short hinit (run_freshRun cs) (clocked_freshRun hnonneg hsorted)
  · intro x hx
    apply hallocs
    rw [← hcalls]
    exact List.mem_map_of_mem hx
  · rw [← List.length_map Prod.fst, hcalls]
    exact hlength

/-- Without loss the calls of an address are decided as if it were alone. -/
theorem callsOf_freshRun {ip : Bytes} {cs : List RateCall} (hip : cstr ip ≠ [])
    (hcalm : CalmRun freshLimiter (freshRun cs).1 (freshRun cs).2) :
    callsOf ip (freshRun cs).1 =
      replay rateLimitRps ((cs.filter fun c => c.IsFrom ip).map RateCall.now) := by
  obtain ⟨-, hreplay⟩ := hcalm.history hip
  rw [hreplay, map_fst_callsOf, map_fst_freshRun]

/-! ### A client at the limit -/

def peer : Bytes := bytes "10.0.0.1"

def neighbour : Bytes := bytes "10.0.0.2"

def callFrom (ip : Bytes) (now : ℤ) : RateCall := ⟨some ip, now, 0, true, true, allDelivered⟩

def peerRun (times : List ℤ) : List (RateCall × ℤ) × Limiter :=
  freshRun (times.map (callFrom peer))

/-- Times at which nothing is lost. -/
structure CalmTimes (times : List ℤ) : Prop where
  nonneg : ∀ t ∈ times, 0 ≤ t
  sorted : times.Pairwise (· ≤ ·)
  few : times.length ≤ maxSavedIp

theorem CalmTimes.calmRun {times : List ℤ} (h : CalmTimes times) :
    CalmRun freshLimiter (peerRun times).1 (peerRun times).2 := by
  have htimes : (times.map (callFrom peer)).map RateCall.now = times := by
    rw [List.map_map]
    exact List.map_id _
  apply calmRun_freshRun
  · intro c hc
    obtain ⟨t, ht, rfl⟩ := List.mem_map.mp hc
    exact h.nonneg t ht
  · rw [htimes]
    exact h.sorted
  · intro c hc
    obtain ⟨t, -, rfl⟩ := List.mem_map.mp hc
    rfl
  · rw [List.length_map]
    exact h.few

theorem CalmTimes.callsOf {times : List ℤ} (h : CalmTimes times) :
    callsOf peer (peerRun times).1 = replay rateLimitRps times := by
  have hall : (times.map (callFrom peer)).filter (fun c => c.IsFrom peer) =
      times.map (callFrom peer) := by
    refine List.filter_eq_self.mpr fun c hc => ?_
    obtain ⟨t, -, rfl⟩ := List.mem_map.mp hc
    exact decide_eq_true rfl
  have hpeer : cstr peer ≠ [] := by decide
  have hcalls := callsOf_freshRun hpeer h.calmRun
  rw [hall, List.map_map] at hcalls
  rw [peerRun, hcalls]
  congr 1
  exact List.map_id _

end Segnalacity
