import Segnalacity.Lib.Store
import Segnalacity.PartialLists

/-! # The slots of the report cache

`g_cache` as `report.c` has it: 32 slots, each with an array of bytes and the length of the text in
it.  Forgetting what stands behind the texts gives the cache of `Report` (`CacheSlot.entry`), and the
functions here do to the slots what those do to their entries.

In every run no two slots in use have the same key (`CacheHolds`).  The store does not look for the
key; that it is not there follows from the lookup that has just failed. -/

namespace Segnalacity

open CStr StateProg

/-- A slot of `g_cache`. -/
structure CacheSlot where
  city : Bytes
  userId : UInt64
  isOperator : Bool
  isArchived : Bool
  cachedAt : ℤ
  jsonLen : ℕ
  json : Bytes

structure CacheKey where
  city : Bytes
  userId : UInt64
  isOperator : Bool
  isArchived : Bool
deriving DecidableEq

def CacheSlot.key (s : CacheSlot) : CacheKey := ⟨s.city, s.userId, s.isOperator, s.isArchived⟩

/-- The slot is in use. -/
def CacheSlot.Live (s : CacheSlot) : Prop := s.cachedAt ≠ 0

def CacheSlot.free (s : CacheSlot) : CacheSlot := { s with cachedAt := 0 }

/-- The text of the slot, with the rest of it. -/
def CacheSlot.entry (s : CacheSlot) : CacheEntry :=
  ⟨s.city, s.userId, s.isOperator, s.isArchived, s.cachedAt, s.json.take s.jsonLen⟩

def zeroSlot : CacheSlot := ⟨[], 0, false, false, 0, 0, List.replicate cacheJsonMax 0⟩

def gCache : List CacheSlot := List.replicate cacheMaxEntries zeroSlot

namespace CacheSlot

/-! ### The functions of the cache -/

/-- The loop of `cache_find` from slot `i`: the slot found, NULL as `none`, and the slots. -/
def cacheFind (now : ℤ) (k : CacheKey) (i : ℕ) : List CacheSlot → Option ℕ × List CacheSlot
  | [] => (none, [])
  | e :: es =>
      let rest := cacheFind now k (i + 1) es
      if e.cachedAt = 0 then (rest.1, e :: rest.2)
      else if now - e.cachedAt > cacheTtlSeconds then (rest.1, e.free :: rest.2)
      else if cacheKeyMatches k.city k.userId k.isOperator k.isArchived e.entry then
        (some i, e :: es)
      else (rest.1, e :: rest.2)

/-- What `cache_store` writes into its slot. -/
def fill (now : ℤ) (k : CacheKey) (json : Bytes) (jsonLen : ℕ) (e : CacheSlot) : CacheSlot where
  city := strncpy k.city (cityLen - 1)
  userId := k.userId
  isOperator := k.isOperator
  isArchived := k.isArchived
  cachedAt := now
  jsonLen := jsonLen
  json := overlay (json.take (jsonLen + 1)) e.json

/-- `cache_store`; the loop that looks for the slot is `cacheSlot`. -/
def cacheStore (now : ℤ) (k : CacheKey) (json : Bytes) (jsonLen : ℕ) (cache : List CacheSlot) :
    List CacheSlot :=
  if jsonLen ≥ cacheJsonMax then cache
  else cache.modify (cacheSlot (cache.map entry)) (fill now k json jsonLen)

def reportCacheInvalidateCity (city : Bytes) (authorId : UInt64) (cache : List CacheSlot) :
    List CacheSlot :=
  cache.map fun e =>
    if e.cachedAt = 0 then e
    else if !strncmpEq e.city city cityLen then e
    else if e.isOperator || e.userId = authorId then e.free
    else e

/-- `report_get_active_json` and `report_get_archived_json`, with what `cursor_to_json_array` returns
and leaves in the buffer.  The clock is read by the lookup, and by the store if there is one. -/
def reportGetJson (found stored : ℤ) (k : CacheKey) (buf : Bytes) (printed : ℕ × Bytes)
    (cache : List CacheSlot) : (ℕ × Bytes) × List CacheSlot :=
  match cacheFind found k 0 cache with
  | (some i, cache) =>
      let e := cache.getD i zeroSlot
      ((e.jsonLen, overlay (e.json.take (e.jsonLen + 1)) buf), cache)
  | (none, cache) =>
      (printed, if printed.1 > 0 then cacheStore stored k printed.2 printed.1 cache else cache)

/-! ### What lookups and invalidations do to the slots -/

section slots
variable {now : ℤ} {k : CacheKey} {i j : ℕ} {cs cs' : List CacheSlot} {s : CacheSlot}

/-- Some of the slots have been freed. -/
def Freed (cs cs' : List CacheSlot) : Prop := List.Forall₂ (fun s s' => s' = s ∨ s' = s.free) cs cs'

theorem Freed.refl (cs : List CacheSlot) : Freed cs cs :=
  List.forall₂_same.mpr fun _ _ => Or.inl rfl

theorem Freed.getElem? (h : Freed cs cs') (hs : cs'[i]? = some s) :
    ∃ s₀, cs[i]? = some s₀ ∧ (s = s₀ ∨ s = s₀.free) := by
  induction h generalizing i with
  | nil => exact absurd hs nofun
  | @cons a b cs cs' hab _ ih =>
      cases i with
      | zero =>
          obtain rfl := Option.some.inj hs
          exact ⟨a, rfl, hab⟩
      | succ i => exact ih hs

theorem cacheFind_freed (now : ℤ) (k : CacheKey) (i : ℕ) (cs : List CacheSlot) :
    Freed cs (cacheFind now k i cs).2 := by
  induction cs generalizing i with
  | nil => exact .nil
  | cons e es ih =>
      unfold cacheFind
      dsimp only
      split_ifs
      · exact .cons (Or.inl rfl) (ih (i + 1))
      · exact .cons (Or.inr rfl) (ih (i + 1))
      · exact Freed.refl _
      · exact .cons (Or.inl rfl) (ih (i + 1))

theorem invalidate_freed (city : Bytes) (authorId : UInt64) (cs : List CacheSlot) :
    Freed cs (reportCacheInvalidateCity city authorId cs) := by
  refine List.forall₂_map_right_iff.mpr (List.forall₂_same.mpr fun e _ => ?_)
  split_ifs
  · exact Or.inl rfl
  · exact Or.inl rfl
  · exact Or.inr rfl
  · exact Or.inl rfl

/-- A slot that has not expired is left alone. -/
theorem cacheFind_keeps (hs : cs[j]? = some s) (ht : now ≤ s.cachedAt + cacheTtlSeconds) :
    (cacheFind now k i cs).2[j]? = some s := by
  induction cs generalizing i j with
  | nil => exact absurd hs nofun
  | cons e es ih =>
      have hrest : ∀ x : CacheSlot, (j = 0 → x = e) →
          (x :: (cacheFind now k (i + 1) es).2)[j]? = some s := by
        intro x hx
        cases j with
        | zero =>
            rw [hx rfl]
            exact hs
        | succ j => exact ih hs
      unfold cacheFind
      dsimp only
      split_ifs with hfree hold hkey
      · exact hrest e fun _ => rfl
      · refine hrest e.free ?_
        rintro rfl
        obtain rfl := Option.some.inj hs
        omega
      · exact hs
      · exact hrest e fun _ => rfl

/-- A hit is a slot in use with the key looked for. -/
theorem cacheFind_hit (h : (cacheFind now k i cs).1 = some j) :
    ∃ s, i ≤ j ∧ (cacheFind now k i cs).2[j - i]? = some s ∧ s.Live ∧
      cacheKeyMatches k.city k.userId k.isOperator k.isArchived s.entry = true := by
  induction cs generalizing i with
  | nil => exact absurd h nofun
  | cons e es ih =>
      have hrest : ∀ x : CacheSlot, (cacheFind now k (i + 1) es).1 = some j →
          ∃ s, i ≤ j ∧ (x :: (cacheFind now k (i + 1) es).2)[j - i]? = some s ∧ s.Live ∧
            cacheKeyMatches k.city k.userId k.isOperator k.isArchived s.entry = true := by
        intro x hx
        obtain ⟨s, hle, hs, hlive⟩ := ih hx
        obtain ⟨d, rfl⟩ := Nat.exists_eq_add_of_le hle
        refine ⟨s, by omega, ?_, hlive⟩
        rw [Nat.add_sub_cancel_left] at hs
        rw [show i + 1 + d - i = d + 1 by omega, List.getElem?_cons_succ]
        exact hs
      unfold cacheFind at h ⊢
      dsimp only at h ⊢
      split_ifs at h ⊢ with hfree hold hkey
      · exact hrest e h
      · exact hrest e.free h
      · obtain rfl := Option.some.inj h
        rw [Nat.sub_self]
        exact ⟨e, Nat.le_refl i, rfl, hfree, hkey⟩
      · exact hrest e h

/-- After a miss no slot in use has the key. -/
theorem cacheFind_miss (h : (cacheFind now k i cs).1 = none)
    (hs : s ∈ (cacheFind now k i cs).2) (hlive : s.Live) :
    cacheKeyMatches k.city k.userId k.isOperator k.isArchived s.entry = false := by
  induction cs generalizing i with
  | nil => exact absurd hs List.not_mem_nil
  | cons e es ih =>
      unfold cacheFind at h hs
      dsimp only at h hs
      split_ifs at h hs with hfree hold hkey
      · rcases List.mem_cons.mp hs with rfl | hs
        · exact absurd hfree hlive
        · exact ih h hs
      · rcases List.mem_cons.mp hs with rfl | hs
        · exact absurd rfl hlive
        · exact ih h hs
      · rcases List.mem_cons.mp hs with rfl | hs
        · exact Bool.eq_false_iff.mpr hkey
        · exact ih h hs

theorem keyMatches_iff (hs : Short s.city) (hk : Short k.city) :
    cacheKeyMatches k.city k.userId k.isOperator k.isArchived s.entry = true ↔ s.key = k := by
  have hlen := hs.2
  have hlen' := hk.2
  have hcity : strncmpEq s.city k.city cityLen = true ↔ s.city = k.city :=
    strncmpEq_iff hs.1 hk.1 (show s.city.length ≤ 32 by omega) (show k.city.length ≤ 32 by omega)
  obtain ⟨city, userId, isOperator, isArchived⟩ := k
  unfold cacheKeyMatches entry key
  rw [Bool.and_eq_true, Bool.and_eq_true, Bool.and_eq_true, hcity, decide_eq_true_iff,
    decide_eq_true_iff, decide_eq_true_iff, CacheKey.mk.injEq]
  tauto

end slots

/-! ### The slot that is written -/

/-- The loop over the slots behind `pre`: the first free one, or one of the oldest. -/
theorem cacheSlotFrom_spec {pre es : List CacheEntry} {o : ℕ} {e₀ : CacheEntry}
    (ho : (pre ++ es)[o]? = some e₀)
    (hpre : ∀ s ∈ pre, s.cachedAt ≠ 0 ∧ e₀.cachedAt ≤ s.cachedAt) :
    ∃ e, (pre ++ es)[cacheSlotFrom pre.length o e₀.cachedAt es]? = some e ∧
      (e.cachedAt ≠ 0 → ∀ s ∈ pre ++ es, s.cachedAt ≠ 0 ∧ e.cachedAt ≤ s.cachedAt) := by
  induction es generalizing pre o e₀ with
  | nil =>
      refine ⟨e₀, ho, fun _ s hs => hpre s ?_⟩
      rwa [List.append_nil] at hs
  | cons x es ih =>
      have hsplit : pre ++ x :: es = (pre ++ [x]) ++ es := by
        rw [List.append_assoc]
        rfl
      have hlength : (pre ++ [x]).length = pre.length + 1 := by
        rw [List.length_append]
        rfl
      have hplace : (pre ++ x :: es)[pre.length]? = some x := by
        rw [List.getElem?_append_right (Nat.le_refl _), Nat.sub_self]
        rfl
      unfold cacheSlotFrom
      split_ifs with hfree hless
      · exact ⟨x, hplace, fun hne => absurd hfree hne⟩
      · rw [hsplit] at hplace ⊢
        rw [← hlength]
        refine ih hplace fun s hs => ?_
        rcases List.mem_append.mp hs with hs | hs
        · have hs' := hpre s hs
          exact ⟨hs'.1, by omega⟩
        · rw [List.mem_singleton.mp hs]
          exact ⟨hfree, le_refl _⟩
      · rw [hsplit] at ho ⊢
        rw [← hlength]
        refine ih ho fun s hs => ?_
        rcases List.mem_append.mp hs with hs | hs
        · exact hpre s hs
        · rw [List.mem_singleton.mp hs]
          exact ⟨hfree, by omega⟩

theorem cacheSlot_spec {es : List CacheEntry} (h : es ≠ []) :
    ∃ e, es[cacheSlot es]? = some e ∧
      (e.cachedAt ≠ 0 → ∀ s ∈ es, s.cachedAt ≠ 0 ∧ e.cachedAt ≤ s.cachedAt) := by
  cases es with
  | nil => exact absurd rfl h
  | cons x es =>
      have hfrom := @cacheSlotFrom_spec [] (x :: es) 0 x rfl fun s hs => absurd hs List.not_mem_nil
      exact hfrom

/-! ### What holds of the slots -/

/-- No two slots in use have the same key. -/
def Unique (cs : List CacheSlot) : Prop :=
  ∀ (i j : ℕ) (a b : CacheSlot), cs[i]? = some a → cs[j]? = some b → a.Live → b.Live →
    a.key = b.key → i = j

/-- The text of the slot is shorter than its array, and ends with a NUL. -/
def Terminated (s : CacheSlot) : Prop :=
  s.jsonLen < cacheJsonMax ∧ s.json[s.jsonLen]? = some 0

structure CacheHolds (cs : List CacheSlot) : Prop where
  slots : cs.length = cacheMaxEntries
  city : ∀ s ∈ cs, Short s.city
  array : ∀ s ∈ cs, s.json.length = cacheJsonMax
  text : ∀ s ∈ cs, s.Terminated
  unique : Unique cs

section holds
variable {now : ℤ} {k : CacheKey} {i n : ℕ} {cs cs' : List CacheSlot} {s : CacheSlot} {json : Bytes}

theorem gCache_holds : CacheHolds gCache := by
  have hmem : ∀ s ∈ gCache, s = zeroSlot := fun s hs => List.eq_of_mem_replicate hs
  refine ⟨List.length_replicate, ?_, ?_, ?_, ?_⟩
  · intro s hs
    rw [hmem s hs]
    exact ⟨List.not_mem_nil, Nat.zero_le _⟩
  · intro s hs
    rw [hmem s hs]
    exact List.length_replicate
  · intro s hs
    rw [hmem s hs]
    exact ⟨by decide, List.getElem?_replicate_of_lt (by decide)⟩
  · intro i j a b ha _ hlive
    rw [hmem a (List.mem_of_getElem? ha)] at hlive
    exact absurd rfl hlive

theorem CacheHolds.freed (h : CacheHolds cs) (hf : Freed cs cs') : CacheHolds cs' := by
  have hmem : ∀ s ∈ cs', ∃ s₀ ∈ cs, s = s₀ ∨ s = s₀.free := by
    intro s hs
    obtain ⟨i, hi⟩ := List.getElem?_of_mem hs
    obtain ⟨s₀, hs₀, hor⟩ := hf.getElem? hi
    exact ⟨s₀, List.mem_of_getElem? hs₀, hor⟩
  have hlive : ∀ (i : ℕ) (a : CacheSlot), cs'[i]? = some a → a.Live → cs[i]? = some a := by
    intro i a ha hat
    obtain ⟨a₀, ha₀, rfl | rfl⟩ := hf.getElem? ha
    · exact ha₀
    · exact absurd rfl hat
  refine ⟨hf.length_eq.symm.trans h.slots, ?_, ?_, ?_, ?_⟩
  · intro s hs
    obtain ⟨s₀, hs₀, rfl | rfl⟩ := hmem s hs
    · exact h.city s hs₀
    · exact h.city s₀ hs₀
  · intro s hs
    obtain ⟨s₀, hs₀, rfl | rfl⟩ := hmem s hs
    · exact h.array s hs₀
    · exact h.array s₀ hs₀
  · intro s hs
    obtain ⟨s₀, hs₀, rfl | rfl⟩ := hmem s hs
    · exact h.text s hs₀
    · exact h.text s₀ hs₀
  · intro i j a b ha hb hat hbt hkey
    exact h.unique i j a b (hlive i a ha hat) (hlive j b hb hbt) hat hbt hkey

theorem fill_key (hk : Short k.city) : (fill now k json n s).key = k := by
  have hself : strncpy k.city (cityLen - 1) = k.city := strncpy_eq_self hk.1 hk.2
  unfold fill key
  rw [hself]

/-- A store of a text whose key is not in use. -/
theorem CacheHolds.store (h : CacheHolds cs) (hk : Short k.city) (hnew : ∀ s ∈ cs, s.Live → s.key ≠ k)
    (hjson : json[n]? = some 0) : CacheHolds (cacheStore now k json n cs) := by
  unfold cacheStore
  by_cases hlong : n ≥ cacheJsonMax
  · rw [if_pos hlong]
    exact h
  rw [if_neg hlong]
  generalize cacheSlot (cs.map entry) = slot
  have hlength : (json.take (n + 1)).length = n + 1 := by
    rw [List.length_take]
    have hlt := (List.getElem?_eq_some_iff.mp hjson).1
    omega
  have hmem : ∀ s ∈ cs.modify slot (fill now k json n),
      s ∈ cs ∨ ∃ s₀ ∈ cs, s = fill now k json n s₀ := by
    intro s hs
    obtain ⟨i, hi⟩ := List.getElem?_of_mem hs
    rw [List.getElem?_modify] at hi
    obtain ⟨s₀, hs₀, rfl⟩ := Option.map_eq_some_iff.mp hi
    split_ifs
    · exact Or.inr ⟨s₀, List.mem_of_getElem? hs₀, rfl⟩
    · exact Or.inl (List.mem_of_getElem? hs₀)
  refine ⟨?_, ?_, ?_, ?_, ?_⟩
  · rw [List.length_modify]
    exact h.slots
  · intro s hs
    rcases hmem s hs with hs | ⟨s₀, -, rfl⟩
    · exact h.city s hs
    · show Short (strncpy k.city (cityLen - 1))
      have hself : strncpy k.city (cityLen - 1) = k.city := strncpy_eq_self hk.1 hk.2
      rw [hself]
      exact hk
  · intro s hs
    rcases hmem s hs with hs | ⟨s₀, hs₀, rfl⟩
    · exact h.array s hs
    · have harray := h.array s₀ hs₀
      show (overlay (json.take (n + 1)) s₀.json).length = _
      rw [overlay_length (by omega), harray]
  · intro s hs
    rcases hmem s hs with hs | ⟨s₀, -, rfl⟩
    · exact h.text s hs
    · refine ⟨Nat.lt_of_not_le hlong, ?_⟩
      show (overlay (json.take (n + 1)) s₀.json)[n]? = some 0
      unfold overlay
      rw [List.getElem?_append_left (by omega), List.getElem?_take_of_lt (Nat.lt_succ_self n), hjson]
  · have hold : ∀ (i : ℕ) (a : CacheSlot), (cs.modify slot (fill now k json n))[i]? = some a → i ≠ slot →
        cs[i]? = some a := by
      intro i a ha hne
      rw [List.getElem?_modify] at ha
      obtain ⟨a₀, ha₀, rfl⟩ := Option.map_eq_some_iff.mp ha
      rw [if_neg (Ne.symm hne)]
      exact ha₀
    have hslot : ∀ a : CacheSlot, (cs.modify slot (fill now k json n))[slot]? = some a → a.key = k := by
      intro a ha
      rw [List.getElem?_modify] at ha
      obtain ⟨a₀, ha₀, rfl⟩ := Option.map_eq_some_iff.mp ha
      rw [if_pos rfl]
      exact fill_key hk
    intro i j a b ha hb hat hbt hkey
    by_cases hi : i = slot
    · subst hi
      by_cases hj : j = i
      · exact hj.symm
      · have hb' := hold j b hb hj
        exact absurd (hkey.symm.trans (hslot a ha)) (hnew b (List.mem_of_getElem? hb') hbt)
    · have ha' := hold i a ha hi
      by_cases hj : j = slot
      · subst hj
        exact absurd (hkey.trans (hslot b hb)) (hnew a (List.mem_of_getElem? ha') hat)
      · exact h.unique i j a b ha' (hold j b hb hj) hat hbt hkey

/-- After a miss the key is not in use. -/
theorem CacheHolds.miss (h : CacheHolds cs) (hk : Short k.city)
    (hmiss : (cacheFind now k i cs).1 = none) :
    ∀ s ∈ (cacheFind now k i cs).2, s.Live → s.key ≠ k := by
  intro s hs hlive hkey
  have hno := cacheFind_miss hmiss hs hlive
  have hcity := (h.freed (cacheFind_freed now k i cs)).city s hs
  rw [(keyMatches_iff hcity hk).mpr hkey] at hno
  exact absurd hno (by decide)

theorem CacheHolds.list (h : CacheHolds cs) (hk : Short k.city) {found stored : ℤ} {buf : Bytes}
    {printed : ℕ × Bytes} (hprinted : printed.2[printed.1]? = some 0) :
    CacheHolds (reportGetJson found stored k buf printed cs).2 := by
  have hfound := h.freed (cacheFind_freed found k 0 cs)
  have hmiss := @CacheHolds.miss found k 0 cs h hk
  unfold reportGetJson
  generalize cacheFind found k 0 cs = result at hfound hmiss ⊢
  obtain ⟨slot, cache⟩ := result
  cases slot with
  | some i => exact hfound
  | none =>
      dsimp only
      split_ifs
      · exact hfound.store hk (hmiss rfl) hprinted
      · exact hfound

end holds

/-! ### The same cache without the rest of the arrays -/

section entries
variable {now : ℤ} {k : CacheKey} {i n : ℕ} {cs : List CacheSlot} {s : CacheSlot} {json : Bytes}

theorem map_entry_cacheFind (now : ℤ) (k : CacheKey) (i : ℕ) (cs : List CacheSlot) :
    Segnalacity.cacheFind now k.city k.userId k.isOperator k.isArchived (cs.map entry) =
      ((cacheFind now k i cs).1.bind fun j => (cacheFind now k i cs).2[j - i]?.map entry,
        (cacheFind now k i cs).2.map entry) := by
  induction cs generalizing i with
  | nil => rfl
  | cons e es ih =>
      have hrest : ∀ x : CacheSlot,
          ((cacheFind now k (i + 1) es).1.bind fun j =>
            (cacheFind now k (i + 1) es).2[j - (i + 1)]?.map entry) =
          (cacheFind now k (i + 1) es).1.bind fun j =>
            (x :: (cacheFind now k (i + 1) es).2)[j - i]?.map entry := by
        intro x
        cases hfind : (cacheFind now k (i + 1) es).1 with
        | none => rfl
        | some j =>
            obtain ⟨-, hle, -⟩ := cacheFind_hit hfind
            obtain ⟨d, rfl⟩ := Nat.exists_eq_add_of_le hle
            show _ = ((x :: (cacheFind now k (i + 1) es).2)[i + 1 + d - i]?).map entry
            rw [show i + 1 + d - i = d + 1 by omega, List.getElem?_cons_succ]
            show ((cacheFind now k (i + 1) es).2[i + 1 + d - (i + 1)]?).map entry = _
            rw [Nat.add_sub_cancel_left]
      rw [List.map_cons]
      unfold Segnalacity.cacheFind cacheFind
      rw [ih (i + 1)]
      dsimp only
      have hat : e.entry.cachedAt = e.cachedAt := rfl
      rw [hat]
      split_ifs with hfree hold hkey
      · rw [hrest e]
        rfl
      · rw [hrest e.free]
        rfl
      · rw [Option.bind_some, Nat.sub_self]
        rfl
      · rw [hrest e]
        rfl

theorem map_entry_cacheStore (hn : n < cacheJsonMax) (hjson : n ≤ json.length) :
    (cacheStore now k json n cs).map entry =
      (cs.map entry).set (cacheSlot (cs.map entry))
        ⟨strncpy k.city (cityLen - 1), k.userId, k.isOperator, k.isArchived, now, json.take n⟩ := by
  have htake : ∀ old : Bytes, (overlay (json.take (n + 1)) old).take n = json.take n := by
    intro old
    rw [take_overlay (by rw [List.length_take]; omega), List.take_take, Nat.min_eq_left (by omega)]
  unfold cacheStore
  rw [if_neg (Nat.not_le_of_lt hn)]
  generalize cacheSlot (cs.map entry) = slot
  refine List.ext_getElem? fun i => ?_
  rw [List.getElem?_map, List.getElem?_modify, List.getElem?_set, List.length_map]
  cases hi : cs[i]? with
  | none =>
      have hle := List.getElem?_eq_none_iff.mp hi
      rw [List.getElem?_map, hi]
      split_ifs <;> first | rfl | omega
  | some s =>
      have hlt := (List.getElem?_eq_some_iff.mp hi).1
      rw [List.getElem?_map, hi]
      by_cases hslot : slot = i
      · rw [if_pos hslot, if_pos (hslot ▸ hlt)]
        show some (entry (if slot = i then fill now k json n s else s)) = _
        rw [if_pos hslot]
        unfold entry fill
        dsimp only
        rw [htake]
      · rw [if_neg hslot]
        show some (entry (if slot = i then fill now k json n s else s)) = _
        rw [if_neg hslot]
        rfl

theorem map_entry_invalidate (city : Bytes) (authorId : UInt64) (cs : List CacheSlot) :
    (reportCacheInvalidateCity city authorId cs).map entry =
      (cs.map entry).map (invalidateEntry city authorId) := by
  unfold reportCacheInvalidateCity
  rw [List.map_map, List.map_map]
  refine List.map_congr_left fun e _ => ?_
  show entry (if e.cachedAt = 0 then e else _) = invalidateEntry city authorId e.entry
  unfold invalidateEntry
  have hat : e.entry.cachedAt = e.cachedAt := rfl
  have hcity : e.entry.city = e.city := rfl
  have hop : e.entry.isOperator = e.isOperator := rfl
  have huser : e.entry.userId = e.userId := rfl
  rw [hat, hcity, hop, huser]
  split_ifs <;> rfl

/-- A list call of the server does to its cache what `reportGetJson` does to the slots. -/
theorem run_slots [Platform] {call : ListCall} {e : Env} {w w' : World} {r : ℕ × Bytes}
    (h : call.run e w = (r, w')) (hc : cs.map entry = w.cache) :
    ∃ printed : ℕ × Bytes, printed.2[printed.1]? = some 0 ∧
      (reportGetJson (e.clock w.ctr.ticks) (e.clock (w.ctr.ticks + 1))
        ⟨call.city, call.userId, call.isOperator, call.isArchived⟩ call.buf printed cs).2.map entry =
        w'.cache := by
  have hfind := map_entry_cacheFind (e.clock w.ctr.ticks)
    ⟨call.city, call.userId, call.isOperator, call.isArchived⟩ 0 cs
  rw [hc] at hfind
  change call.found e w = _ at hfind
  unfold reportGetJson
  generalize hresult : cacheFind (e.clock w.ctr.ticks)
    ⟨call.city, call.userId, call.isOperator, call.isArchived⟩ 0 cs = result at hfind ⊢
  obtain ⟨slot, cache⟩ := result
  have hslots : (call.found e w).2 = cache.map entry := congrArg Prod.snd hfind
  have hmiss : (call.found e w).1 = none → slot = none := by
    intro hnone
    cases slot with
    | none => rfl
    | some j =>
        obtain ⟨s, -, hs, -⟩ := cacheFind_hit (congrArg Prod.fst hresult)
        rw [hresult] at hs
        rw [hfind] at hnone
        dsimp only at hnone hs
        rw [Option.bind_some, hs] at hnone
        exact absurd hnone nofun
  cases (ListCall.run_outcome h).2 with
  | hit s hhit _ hkept =>
      cases slot with
      | none =>
          rw [hfind] at hhit
          exact absurd hhit nofun
      | some j => exact ⟨(0, [0]), rfl, hslots.symm.trans hkept.symm⟩
  | noArray hnone _ hkept =>
      obtain rfl := hmiss hnone
      exact ⟨(0, [0]), rfl, hslots.symm.trans hkept.symm⟩
  | unstored hnone _ _ hkept =>
      obtain rfl := hmiss hnone
      exact ⟨(0, [0]), rfl, hslots.symm.trans hkept.symm⟩
  | stored text hnone _ _ hfits hset =>
      obtain rfl := hmiss hnone
      have hself : strncpy call.city (cityLen - 1) = call.city :=
        strncpy_eq_self call.short.1 call.short.2
      refine ⟨(text.length, text ++ [0]), ?_, ?_⟩
      · rw [List.getElem?_append_right (Nat.le_refl _), Nat.sub_self]
        rfl
      · show (if text.length > 0 then _ else cache).map entry = _
        rw [if_pos hfits.1, map_entry_cacheStore hfits.2 (by rw [List.length_append]; omega),
          List.take_left, hset, hslots]
        dsimp only
        rw [hself]
        rfl

end entries

end CacheSlot

end Segnalacity
