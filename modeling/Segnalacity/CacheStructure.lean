import Segnalacity.ReportCache

/-! # Runs of the report cache

Lookups with the stores that follow them, and invalidations, in any order and with a clock that does
not go back.  In every cache that they lead to a stored text is found again while it is fresh, and a
store takes the place of one of the oldest texts when there is no free slot
(`report_cache_sound`).  A slot that is stored at clock reading 0 is free
(`store_at_zero_is_lost`). -/

namespace Segnalacity

open CStr StateProg

namespace CacheSlot

/-! ### Runs -/

/-- The caches of runs, with a time that no later reading of the clock is before.  What
`cursor_to_json_array` returns is the length of the string in the buffer. -/
inductive CacheReaches : ℤ → List CacheSlot → Prop
  | start (t : ℤ) : CacheReaches t gCache
  | list {t found stored : ℤ} {cs : List CacheSlot} {k : CacheKey} {buf : Bytes}
      {printed : ℕ × Bytes} : CacheReaches t cs → t ≤ found → found ≤ stored → Short k.city →
      printed.2[printed.1]? = some 0 →
      CacheReaches stored (reportGetJson found stored k buf printed cs).2
  | invalidate {t : ℤ} {cs : List CacheSlot} {city : Bytes} {authorId : UInt64} :
      CacheReaches t cs → CacheReaches t (reportCacheInvalidateCity city authorId cs)

theorem CacheReaches.holds {t : ℤ} {cs : List CacheSlot} (h : CacheReaches t cs) : CacheHolds cs := by
  induction h with
  | start t => exact gCache_holds
  | list _ _ _ hk hprinted ih => exact ih.list hk hprinted
  | invalidate _ ih => exact ih.freed (invalidate_freed _ _ _)

/-- A list call in a run looks for its key in vain and stores what it has printed. -/
structure Stores (t : ℤ) (cs : List CacheSlot) (found stored : ℤ) (k : CacheKey)
    (printed : ℕ × Bytes) : Prop where
  clock : t ≤ found ∧ found ≤ stored
  city : Short k.city
  printed : 0 < printed.1 ∧ printed.1 < cacheJsonMax ∧ printed.2[printed.1]? = some 0
  miss : (cacheFind found k 0 cs).1 = none

/-- The next list call with the key, in time and with any lookups before it, returns the text. -/
def FoundAgain (stored : ℤ) (k : CacheKey) (printed : ℕ × Bytes) (cs : List CacheSlot) : Prop :=
  ∀ (lookups : List (ℤ × CacheKey)) (now later : ℤ) (buf : Bytes) (printed' : ℕ × Bytes),
    (∀ l ∈ lookups, l.1 ≤ now) → stored ≤ now → now ≤ stored + cacheTtlSeconds →
    (reportGetJson now later k buf printed'
      (lookups.foldl (fun cs l => (cacheFind l.1 l.2 0 cs).2) cs)).1 =
      (printed.1, overlay (printed.2.take (printed.1 + 1)) buf)

/-- From the first cache to the second, a slot in use is overwritten only when all are in use, and
none is older. -/
def EvictsOldest (cs cs' : List CacheSlot) : Prop :=
  ∀ (i : ℕ) (e : CacheSlot), cs[i]? = some e → cs'[i]? ≠ some e → e.Live →
    ∀ s ∈ cs, s.Live ∧ e.cachedAt ≤ s.cachedAt

section runs
variable {t found stored now : ℤ} {k : CacheKey} {cs cs' : List CacheSlot} {printed : ℕ × Bytes}
  {e : CacheSlot} {i : ℕ}

theorem cacheStore_evictsOldest (hc : cs ≠ []) (json : Bytes) (n : ℕ) :
    EvictsOldest cs (cacheStore now k json n cs) := by
  intro i e he hchanged hlive s hs
  unfold cacheStore at hchanged
  by_cases hlong : n ≥ cacheJsonMax
  · rw [if_pos hlong] at hchanged
    exact absurd he hchanged
  rw [if_neg hlong, List.getElem?_modify, he] at hchanged
  have hslot : cacheSlot (cs.map entry) = i := by
    by_contra hne
    exact hchanged (congrArg some (if_neg hne))
  obtain ⟨x, hx, hall⟩ := cacheSlot_spec fun hnil => hc (List.map_eq_nil_iff.mp hnil)
  rw [hslot, List.getElem?_map, he] at hx
  obtain rfl := Option.some.inj hx
  exact hall hlive s.entry (List.mem_map.mpr ⟨s, hs, rfl⟩)

/-- A slot that is found is the one with the key. -/
theorem CacheHolds.find (h : CacheHolds cs) (he : cs[i]? = some e) (hlive : e.Live)
    (ht : now ≤ e.cachedAt + cacheTtlSeconds) :
    (cacheFind now e.key 0 cs).1 = some i ∧ (cacheFind now e.key 0 cs).2[i]? = some e := by
  have hkept : (cacheFind now e.key 0 cs).2[i]? = some e := cacheFind_keeps he ht
  have hfound := h.freed (cacheFind_freed now e.key 0 cs)
  have hcity := h.city e (List.mem_of_getElem? he)
  refine ⟨?_, hkept⟩
  cases hfind : (cacheFind now e.key 0 cs).1 with
  | none => exact absurd rfl (h.miss hcity hfind e (List.mem_of_getElem? hkept) hlive)
  | some j =>
      obtain ⟨s, -, hs, hslive, hmatch⟩ := cacheFind_hit hfind
      have hkey := (keyMatches_iff (hfound.city s (List.mem_of_getElem? hs)) hcity).mp hmatch
      rw [Nat.sub_zero] at hs
      rw [hfound.unique j i s e hs hkept hslive hlive hkey]

theorem CacheHolds.lookups (h : CacheHolds cs) (he : cs[i]? = some e)
    {lookups : List (ℤ × CacheKey)} (ht : ∀ l ∈ lookups, l.1 ≤ e.cachedAt + cacheTtlSeconds) :
    CacheHolds (lookups.foldl (fun cs l => (cacheFind l.1 l.2 0 cs).2) cs) ∧
      (lookups.foldl (fun cs l => (cacheFind l.1 l.2 0 cs).2) cs)[i]? = some e := by
  induction lookups generalizing cs with
  | nil => exact ⟨h, he⟩
  | cons l lookups ih =>
      rw [List.foldl_cons]
      exact ih (h.freed (cacheFind_freed l.1 l.2 0 cs))
        (cacheFind_keeps he (ht l List.mem_cons_self)) fun l' hl' => ht l' (List.mem_cons_of_mem l hl')

/-- Where a store puts the text. -/
theorem cacheStore_slot (hc : cs ≠ []) (hn : printed.1 < cacheJsonMax) :
    ∃ (i : ℕ) (s : CacheSlot), (cacheStore stored k printed.2 printed.1 cs)[i]? =
      some (fill stored k printed.2 printed.1 s) := by
  obtain ⟨x, hx, -⟩ := cacheSlot_spec fun hnil => hc (List.map_eq_nil_iff.mp hnil)
  rw [List.getElem?_map] at hx
  obtain ⟨s, hs, -⟩ := Option.map_eq_some_iff.mp hx
  refine ⟨cacheSlot (cs.map entry), s, ?_⟩
  unfold cacheStore
  rw [if_neg (Nat.not_le_of_lt hn), List.getElem?_modify, hs]
  exact congrArg some (if_pos rfl)

theorem Stores.foundAgain (hs : Stores t cs found stored k printed) (h : CacheHolds cs)
    (hzero : stored ≠ 0) :
    FoundAgain stored k printed
      (cacheStore stored k printed.2 printed.1 (cacheFind found k 0 cs).2) := by
  obtain ⟨hpos, hshort, hnul⟩ := hs.printed
  have hfound := h.freed (cacheFind_freed found k 0 cs)
  have hstored : CacheHolds (cacheStore stored k printed.2 printed.1 (cacheFind found k 0 cs).2) :=
    hfound.store hs.city (h.miss hs.city hs.miss) hnul
  have hne : (cacheFind found k 0 cs).2 ≠ [] := by
    intro hnil
    have hslots := hfound.slots
    rw [hnil] at hslots
    exact absurd hslots (by decide)
  obtain ⟨i, s, hslot⟩ := @cacheStore_slot stored k _ printed hne hshort
  intro lookups now later buf printed' hbefore _ hnow
  obtain ⟨hholds, hkept⟩ := hstored.lookups hslot fun l hl => (hbefore l hl).trans hnow
  generalize lookups.foldl (fun cs l => (cacheFind l.1 l.2 0 cs).2)
    (cacheStore stored k printed.2 printed.1 (cacheFind found k 0 cs).2) = cs' at hholds hkept ⊢
  obtain ⟨hhit, hslot'⟩ := hholds.find hkept hzero hnow
  rw [fill_key hs.city] at hhit hslot'
  unfold reportGetJson
  generalize cacheFind now k 0 cs' = result at hhit hslot' ⊢
  obtain ⟨slot, cache⟩ := result
  obtain rfl : slot = some i := hhit
  have hget : cache.getD i zeroSlot = fill stored k printed.2 printed.1 s := by
    rw [List.getD_eq_getElem?_getD, hslot']
    rfl
  have hlength : (printed.2.take (printed.1 + 1)).length = printed.1 + 1 := by
    rw [List.length_take]
    have hlt := (List.getElem?_eq_some_iff.mp hnul).1
    omega
  show ((cache.getD i zeroSlot).jsonLen, overlay ((cache.getD i zeroSlot).json.take
    ((cache.getD i zeroSlot).jsonLen + 1)) buf) = _
  rw [hget]
  show (printed.1, overlay ((overlay (printed.2.take (printed.1 + 1)) s.json).take
    (printed.1 + 1)) buf) = _
  rw [take_overlay (by omega), List.take_of_length_le (by omega)]

/-- **The structure of the report cache** in every run, for stores at readings of the clock other
than 0. -/
theorem report_cache_sound (h : CacheReaches t cs) :
    Unique cs ∧ (∀ s ∈ cs, s.Terminated) ∧
      ∀ found stored k printed, Stores t cs found stored k printed →
        EvictsOldest (cacheFind found k 0 cs).2
          (cacheStore stored k printed.2 printed.1 (cacheFind found k 0 cs).2) ∧
        (stored ≠ 0 → FoundAgain stored k printed
          (cacheStore stored k printed.2 printed.1 (cacheFind found k 0 cs).2)) := by
  have hholds := h.holds
  refine ⟨hholds.unique, hholds.text, fun found stored k printed hs => ⟨?_, ?_⟩⟩
  · refine cacheStore_evictsOldest ?_ _ _
    intro hnil
    have hslots := (hholds.freed (cacheFind_freed found k 0 cs)).slots
    rw [hnil] at hslots
    exact absurd hslots (by decide)
  · exact fun hzero => hs.foundAgain hholds hzero

end runs

def sampleKey : CacheKey := ⟨[82, 111, 109, 97], 1, false, false⟩

def otherKey : CacheKey := ⟨[82, 111, 109, 97], 2, true, false⟩

/-- The empty array, as it is printed. -/
def samplePrinted : ℕ × Bytes := (2, [91, 93, 0])

/-- The cache after a first store, at time 5. -/
def sampleCache : List CacheSlot := (reportGetJson 5 5 sampleKey [] samplePrinted gCache).2

theorem short_roma : Short [82, 111, 109, 97] := ⟨by decide, by decide⟩

theorem report_cache_sound_second :
    FoundAgain 6 otherKey samplePrinted
      (cacheStore 6 otherKey [91, 93, 0] 2 (cacheFind 6 otherKey 0 sampleCache).2) := by
  have hrun : CacheReaches 5 sampleCache :=
    .list (.start 5) (le_refl 5) (le_refl 5) short_roma rfl
  have hmiss : (cacheFind 6 otherKey 0 sampleCache).1 = none := by decide +kernel
  have hstores : Stores 5 sampleCache 6 6 otherKey samplePrinted :=
    ⟨⟨by decide, le_refl 6⟩, short_roma, ⟨by decide, by decide, rfl⟩, hmiss⟩
  exact ((report_cache_sound hrun).2.2 6 6 otherKey samplePrinted hstores).2 (by decide)

/-- At the Epoch the time of the store is the mark of a free slot. -/
theorem store_at_zero_is_lost :
    CacheReaches 0 gCache ∧ Stores 0 gCache 0 0 sampleKey samplePrinted ∧
      ¬ FoundAgain 0 sampleKey samplePrinted
        (cacheStore 0 sampleKey [91, 93, 0] 2 (cacheFind 0 sampleKey 0 gCache).2) := by
  have hmiss : (cacheFind 0 sampleKey 0 gCache).1 = none := by decide +kernel
  refine ⟨.start 0, ⟨⟨le_refl 0, le_refl 0⟩, short_roma, ⟨by decide, by decide, rfl⟩, hmiss⟩, ?_⟩
  intro hagain
  have hlength := congrArg Prod.fst
    (hagain [] 0 0 [] (0, []) (List.forall_mem_nil _) (le_refl 0) (by decide))
  have hmissed : (reportGetJson 0 0 sampleKey [] (0, [])
      (cacheStore 0 sampleKey [91, 93, 0] 2 (cacheFind 0 sampleKey 0 gCache).2)).1.1 = 0 := by
    decide +kernel
  exact absurd (hmissed.symm.trans hlength) (by decide)

end CacheSlot

end Segnalacity
