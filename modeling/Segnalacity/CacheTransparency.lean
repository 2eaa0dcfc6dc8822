import Segnalacity.AllOrNothing
import Segnalacity.Lists

/-! # The report cache is transparent

A cached list is found again by city, user, role and archive flag, and dropped by city and author.
`CacheFresh` says that every occupied slot holds the text that its query would print now.  A write
keeps this because the cities of a report, of its author and of its operator agree
(`Consistent`), so that every slot whose query selects the written row is dropped.  Hence a list
is the same with the cache as without it: `cache_transparency`. -/

namespace Segnalacity

open CStr StateProg Sql Http HashTable

section platform

variable [Platform]

/-! ### Slots -/

section slots
variable {t : ℤ} {city : Bytes} {userId : UInt64} {isOperator isArchived : Bool}
  {cache : List CacheEntry} {s : CacheEntry}

omit [Platform] in
/-- A hit is an occupied slot with the key looked for. -/
theorem cacheFind_hit (h : (cacheFind t city userId isOperator isArchived cache).1 = some s) :
    s ∈ cache ∧ s.cachedAt ≠ 0 ∧ cacheKeyMatches city userId isOperator isArchived s = true := by
  induction cache with
  | nil => cases h
  | cons c cache ih =>
      unfold cacheFind at h
      dsimp only at h
      split_ifs at h with hfree hold hkey
      · obtain ⟨hmem, hrest⟩ := ih h
        exact ⟨List.mem_cons_of_mem _ hmem, hrest⟩
      · obtain ⟨hmem, hrest⟩ := ih h
        exact ⟨List.mem_cons_of_mem _ hmem, hrest⟩
      · obtain rfl := Option.some.inj h
        exact ⟨List.mem_cons_self, hfree, hkey⟩
      · obtain ⟨hmem, hrest⟩ := ih h
        exact ⟨List.mem_cons_of_mem _ hmem, hrest⟩

omit [Platform] in
/-- A lookup only frees slots. -/
theorem mem_cacheFind (h : s ∈ (cacheFind t city userId isOperator isArchived cache).2)
    (hs : s.cachedAt ≠ 0) : s ∈ cache := by
  induction cache with
  | nil => cases h
  | cons c cache ih =>
      unfold cacheFind at h
      dsimp only at h
      split_ifs at h with hfree hold hkey
      · rcases List.mem_cons.mp h with rfl | h
        · exact List.mem_cons_self
        · exact List.mem_cons_of_mem _ (ih h)
      · rcases List.mem_cons.mp h with rfl | h
        · exact absurd rfl hs
        · exact List.mem_cons_of_mem _ (ih h)
      · exact h
      · rcases List.mem_cons.mp h with rfl | h
        · exact List.mem_cons_self
        · exact List.mem_cons_of_mem _ (ih h)

omit [Platform] in
/-- A slot that survives an invalidation was not meant by it. -/
theorem mem_invalidated {authorId : UInt64}
    (h : s ∈ cache.map (invalidateEntry city authorId)) (hs : s.cachedAt ≠ 0) :
    s ∈ cache ∧ (strncmpEq s.city city cityLen = true →
      s.isOperator = false ∧ s.userId ≠ authorId) := by
  obtain ⟨c, hc, rfl⟩ := List.mem_map.mp h
  unfold invalidateEntry at hs ⊢
  split_ifs at hs ⊢ with hfree hcity hmeant
  · exact absurd hfree hs
  · refine ⟨hc, fun heq => ?_⟩
    rw [heq] at hcity
    cases hcity
  · exact absurd rfl hs
  · refine ⟨hc, fun _ => ?_⟩
    simpa using hmeant

end slots

/-! ### What a list depends on -/

/-- The rows that a list of the user may show. -/
def Concerns (userId : UInt64) (isOperator : Bool) (x : ReportRow) : Prop :=
  if isOperator then x.assignedTo = some (i64 userId) else x.authorId = i64 userId

/-- Two tables with the same rows that concern the user have the same lists. -/
theorem listQuery_congr {userId : UInt64} {isOperator : Bool} {db db' : Database}
    (h : ∀ q : ReportRow → Tri, (∀ x, holds (q x) = true → Concerns userId isOperator x) →
      select q db'.reports = select q db.reports) (isArchived : Bool) :
    listQuery isArchived userId isOperator db' = listQuery isArchived userId isOperator db := by
  have hkey : ∀ x : ReportRow, ∀ b : Tri,
      holds (and3 (eq3 x.assignedTo (some (i64 userId))) b) = true →
        x.assignedTo = some (i64 userId) := by
    intro x b hx
    obtain ⟨v, hv, hv'⟩ := (holds_eq3 _ _).mp ((holds_and3 _ _).mp hx).1
    rw [hv, hv']
  have hauthor : ∀ x : ReportRow, ∀ b : Tri,
      holds (and3 (eq3 (some x.authorId) (some (i64 userId))) b) = true →
        x.authorId = i64 userId := by
    intro x b hx
    exact (holds_key _ _).mp ((holds_and3 _ _).mp hx).1
  cases isArchived with
  | false =>
      show selectActive userId isOperator db' = selectActive userId isOperator db
      unfold selectActive
      cases isOperator with
      | true =>
          simp only [if_true]
          rw [h _ fun x hx => hkey x _ hx]
      | false =>
          simp only [Bool.false_eq_true, if_false]
          rw [h _ fun x hx => hauthor x _ hx]
  | true =>
      show selectArchived userId isOperator db' = selectArchived userId isOperator db
      unfold selectArchived
      cases isOperator with
      | true =>
          simp only [if_true]
          rw [h _ fun x hx => hkey x _ hx]
      | false =>
          simp only [Bool.false_eq_true, if_false]
          rw [h _ fun x hx => hauthor x _ hx]

/-- The objects of a list. -/
def listItems (isArchived : Bool) (userId : UInt64) (isOperator : Bool) (db : Database) :
    List (JsonObject Double) :=
  (listQuery isArchived userId isOperator db).map reportObject

/-! ### Fresh slots -/

/-- The slot belongs to a registered user and holds the text that its list has now. -/
structure FreshSlot (db : Database) (s : CacheEntry) : Prop where
  owner : ∃ row ∈ db.users, row.id = i64 s.userId ∧ row.city = s.city
  text : Platform.printPreallocated (listItems s.isArchived s.userId s.isOperator db)
    responseBufferSize = some s.json

def CacheFresh (db : Database) (cache : List CacheEntry) : Prop :=
  ∀ s ∈ cache, s.cachedAt ≠ 0 → FreshSlot db s

section lists
variable {e : Env} {w w' : World} {isArchived : Bool} {buf : Bytes} {max : ℕ} {userId : UInt64}
  {city : Bytes} {isOperator : Bool} {r : ℕ × Bytes}

/-- A list call copies the slot found, or reads, prints and stores. -/
theorem cachedList_find {query : UInt64 → Bool → Database → List ReportRow}
    (h : cachedList query isArchived buf max userId city isOperator e w = (r, w')) :
    (∃ s, (cacheFind (e.clock w.ctr.ticks) city userId isOperator isArchived w.cache).1 = some s ∧
      r = (s.json.length, overlay (s.json ++ [0]) buf) ∧
      w' = { w.tick with
        cache := (cacheFind (e.clock w.ctr.ticks) city userId isOperator isArchived w.cache).2 }) ∨
    ((cacheFind (e.clock w.ctr.ticks) city userId isOperator isArchived w.cache).1 = none ∧
      ∃ c w₁ r' w₂, dbCursorOpen (query userId isOperator) e { w.tick with
        cache := (cacheFind (e.clock w.ctr.ticks) city userId isOperator isArchived w.cache).2 } =
          (c, w₁) ∧
        cursorToJsonArray c buf max e w₁ = (r', w₂) ∧
        (if r'.1 > 0 then do
          cacheStore city userId isOperator isArchived (r'.2.take r'.1)
          pure r'
        else pure r') e w₂ = (r, w')) := by
  obtain ⟨t, w₁, h₁, h₂⟩ := Prog.bind_run_iff.mp h
  obtain ⟨rfl, rfl⟩ := now_run h₁
  obtain ⟨hit, w₂, h₃, h₄⟩ := Prog.bind_run_iff.mp h₂
  obtain ⟨rfl, rfl⟩ := Prog.view_run_iff.mp h₃
  obtain ⟨_, w₃, h₅, h₆⟩ := Prog.bind_run_iff.mp h₄
  obtain rfl := Prog.update_run_iff.mp h₅
  have htick : w.tick.cache = w.cache := rfl
  rw [htick] at h₆
  generalize cacheFind (e.clock w.ctr.ticks) city userId isOperator isArchived w.cache = found
    at h₆ ⊢
  cases hhit : found.1 with
  | some s =>
      rw [hhit] at h₆
      obtain ⟨rfl, rfl⟩ := Prog.pure_run_iff.mp h₆
      exact Or.inl ⟨s, rfl, rfl, rfl⟩
  | none =>
      rw [hhit] at h₆
      obtain ⟨c, w₄, h₇, h₈⟩ := Prog.bind_run_iff.mp h₆
      obtain ⟨r', w₅, h₉, h₁₀⟩ := Prog.bind_run_iff.mp h₈
      exact Or.inr ⟨rfl, c, w₄, r', w₅, h₇, h₉, h₁₀⟩

theorem cacheStore_run {json : Bytes} {u : Unit} (h : cacheStore city userId isOperator isArchived json e w = (u, w')) :
    w'.db = w.db ∧ w'.cache = if json.length ≥ cacheJsonMax then w.cache
      else w.cache.set (cacheSlot w.cache) ⟨strncpy city (cityLen - 1), userId, isOperator,
        isArchived, e.clock w.ctr.ticks, json⟩ := by
  rcases Prog.ite_run_iff.mp h with ⟨hlong, h₁⟩ | ⟨hshort, h₁⟩
  · obtain ⟨-, rfl⟩ := Prog.pure_run_iff.mp h₁
    exact ⟨rfl, (if_pos hlong).symm⟩
  · obtain ⟨t, w₁, h₂, h₃⟩ := Prog.bind_run_iff.mp h₁
    obtain ⟨rfl, rfl⟩ := now_run h₂
    obtain rfl := Prog.update_run_iff.mp h₃
    exact ⟨rfl, (if_neg hshort).symm⟩

/-- A list call: the slot found, or the rows read and printed, and perhaps a slot written. -/
theorem cachedList_run (he : Unfailing e)
    (h : cachedList (listQuery isArchived) isArchived buf max userId city isOperator e w = (r, w')) :
    ∃ found, found = cacheFind (e.clock w.ctr.ticks) city userId isOperator isArchived w.cache ∧
      ((∃ s, found.1 = some s ∧ r = (s.json.length, overlay (s.json ++ [0]) buf) ∧
          w'.cache = found.2) ∨
        (found.1 = none ∧ r = printArray (listItems isArchived userId isOperator w.db) buf max ∧
          (w'.cache = found.2 ∨ (0 < r.1 ∧ ∃ t, w'.cache = found.2.set (cacheSlot found.2)
            ⟨strncpy city (cityLen - 1), userId, isOperator, isArchived, t, r.2.take r.1⟩)))) := by
  refine ⟨_, rfl, ?_⟩
  have hfind := cachedList_find h
  generalize cacheFind (e.clock w.ctr.ticks) city userId isOperator isArchived w.cache = found
    at hfind ⊢
  rcases hfind with ⟨s, hhit, rfl, rfl⟩ | ⟨hhit, c, w₁, r', w₂, h₁, h₂, h₃⟩
  · exact Or.inl ⟨s, hhit, rfl, rfl⟩
  · have hcache₁ := congrArg (fun s => s.2.2) ((keeps_dbCursorOpen _).out h₁)
    obtain rfl := he.dbCursorOpen_run h₁
    have hcache₂ := congrArg (fun s => s.2.2) ((keeps_cursorToJsonArray _ _ _).out h₂)
    have hr := he.cursorToJsonArray_run h₂
    have hcache : w₂.cache = found.2 := hcache₂.trans hcache₁
    refine Or.inr ⟨hhit, ?_⟩
    rcases Prog.ite_run_iff.mp h₃ with ⟨hpos, h₄⟩ | ⟨-, h₄⟩
    · obtain ⟨_, w₃, h₅, h₆⟩ := Prog.bind_run_iff.mp h₄
      obtain ⟨rfl, rfl⟩ := Prog.pure_run_iff.mp h₆
      have hstored := (cacheStore_run h₅).2
      rw [hcache] at hstored
      split_ifs at hstored
      · exact ⟨hr, Or.inl hstored⟩
      · exact ⟨hr, Or.inr ⟨hpos, _, hstored⟩⟩
    · obtain ⟨rfl, rfl⟩ := Prog.pure_run_iff.mp h₄
      exact ⟨hr, Or.inl hcache⟩

/-- With fresh slots a list call returns what reading and printing would. -/
theorem CacheFresh.list (hfresh : CacheFresh w.db w.cache) (he : Unfailing e)
    (h : cachedList (listQuery isArchived) isArchived buf responseBufferSize userId city isOperator
      e w = (r, w')) :
    r = printArray (listItems isArchived userId isOperator w.db) buf responseBufferSize := by
  obtain ⟨found, rfl, ⟨s, hs, hr, -⟩ | ⟨-, hr, -⟩⟩ := cachedList_run he h
  · obtain ⟨hmem, hat, hkey⟩ := cacheFind_hit hs
    have htext := (hfresh s hmem hat).text
    simp only [cacheKeyMatches, Bool.and_eq_true, decide_eq_true_eq] at hkey
    obtain ⟨⟨⟨hop, harch⟩, -⟩, huser⟩ := hkey
    rw [hop, harch, huser] at htext
    unfold printArray
    rw [htext, hr]
  · exact hr

/-- A list call leaves the slots fresh. -/
theorem CacheFresh.listed (hfresh : CacheFresh w.db w.cache) (he : Unfailing e)
    (h : cachedList (listQuery isArchived) isArchived buf responseBufferSize userId city isOperator
      e w = (r, w')) (huser : ∃ row ∈ w.db.users, row.id = i64 userId ∧ row.city = city)
    (hcity : Short city) : CacheFresh w.db w'.cache := by
  have hr := hfresh.list he h
  obtain ⟨found, rfl, hcases⟩ := cachedList_run he h
  have hfound : CacheFresh w.db (cacheFind (e.clock w.ctr.ticks) city userId isOperator isArchived
      w.cache).2 := fun s hs hat => hfresh s (mem_cacheFind hs hat) hat
  rcases hcases with ⟨s, -, -, hcache⟩ | ⟨-, -, hcache | ⟨hpos, t, hcache⟩⟩
  · rw [hcache]
    exact hfound
  · rw [hcache]
    exact hfound
  · rw [hcache]
    intro s hs hat
    rcases List.mem_or_eq_of_mem_set hs with hs | rfl
    · exact hfound s hs hat
    · obtain ⟨row, hrow, hid, hrc⟩ := huser
      have hkept : strncpy city (cityLen - 1) = city := strncpy_eq_self hcity.1 hcity.2
      refine ⟨⟨row, hrow, hid, hrc.trans hkept.symm⟩, ?_⟩
      rw [hr] at hpos ⊢
      exact printArray_take hpos

end lists

/-! ### Writes -/

section writes
variable {e : Env} {w w' : World} {s : CacheEntry} {x z : ReportRow}

theorem FreshSlot.of_select {db db' : Database} (h : FreshSlot db s)
    (husers : ∀ row ∈ db.users, row ∈ db'.users)
    (hsel : ∀ q : ReportRow → Tri, (∀ x, holds (q x) = true → Concerns s.userId s.isOperator x) →
      select q db'.reports = select q db.reports) : FreshSlot db' s := by
  obtain ⟨row, hrow, hid, hcity⟩ := h.owner
  refine ⟨⟨row, husers row hrow, hid, hcity⟩, ?_⟩
  rw [listItems, listQuery_congr hsel]
  exact h.text

/-- A row that a fresh slot shows is of the city of the slot. -/
theorem FreshSlot.same_city (hw : Consistent w) (h : FreshSlot w.db s) (hx : Owned w.db x)
    (hc : Concerns s.userId s.isOperator x) : s.city = x.city := by
  obtain ⟨row, hrow, hid, hcity⟩ := h.owner
  have hsame : ∀ {role}, HasUser w.db (i64 s.userId) role x.city → s.city = x.city := by
    rintro role ⟨row', hrow', hid', -, hcity'⟩
    obtain rfl := hw.userKeys.eq_of_mem hrow hrow' (hid.trans hid'.symm)
    exact hcity.symm.trans hcity'
  unfold Concerns at hc
  split_ifs at hc
  · exact hsame (hx.assigned _ hc)
  · exact hsame (hc ▸ hx.author)

/-- A slot kept by an invalidation does not show the row that it was for. -/
theorem FreshSlot.not_concerned (hw : Consistent w) (h : FreshSlot w.db s) (hz : Owned w.db z)
    {city : Bytes} {authorId : UInt64} (hcity : strncmpEq z.city city cityLen = true)
    (hauthor : u64 z.authorId = authorId)
    (hkept : strncmpEq s.city city cityLen = true → s.isOperator = false ∧ s.userId ≠ authorId) :
    ¬ Concerns s.userId s.isOperator z := by
  intro hc
  obtain ⟨hop, hne⟩ := hkept (by rw [h.same_city hw hz hc]; exact hcity)
  rw [hop] at hc
  have hid : z.authorId = i64 s.userId := hc
  rw [hid, u64_i64] at hauthor
  exact hne hauthor

/-- A write that drops the slots of its row leaves the others fresh. -/
theorem CacheFresh.written (hw : Consistent w) (hw' : Consistent w')
    (husers : w'.db.users = w.db.users) (hfresh : CacheFresh w.db w.cache)
    {g : ReportRow → Tri} {f : ReportRow → ReportRow}
    (hrows : w'.db.reports = update g f w.db.reports) (hx : x ∈ w.db.reports)
    (hg : ∀ y, holds (g y) = true → y.id = x.id ∧ ∃ k : ReportCall, k.Changed y (f y))
    (hcache : w'.cache = w.cache.map
      (invalidateEntry (cursorToReport x).city (cursorToReport x).authorId)) :
    CacheFresh w'.db w'.cache := by
  have hsub : ∀ row ∈ w.db.users, row ∈ w'.db.users := fun row hrow => husers ▸ hrow
  intro s hs hat
  rw [hcache] at hs
  obtain ⟨hmem, hkept⟩ := mem_invalidated hs hat
  have hslot := hfresh s hmem hat
  have hshort := hw.city_short hx
  have hname : (cursorToReport x).city = x.city := strncpy_eq_self hshort.1 hshort.2
  have hself : strncmpEq x.city (cursorToReport x).city cityLen = true := by
    rw [hname]
    exact decide_eq_true rfl
  refine hslot.of_select hsub fun q hq => ?_
  rw [hrows]
  refine select_update fun y hy hgy => ?_
  obtain ⟨hid, k, hk⟩ := hg y hgy
  obtain rfl := hw.reportKeys.eq_of_mem hy hx hid
  obtain ⟨-, hauthor, hcity⟩ := hk.submission
  have howned' : Owned w.db (f y) := by
    have hmem' : f y ∈ w'.db.reports := by
      rw [hrows]
      exact mem_update.mpr ⟨y, hy, by rw [if_pos hgy]⟩
    exact (hw'.owned (f y) hmem').mono fun row hrow => husers ▸ hrow
  constructor
  · by_contra hqy
    exact hslot.not_concerned hw (hw.owned y hy) hself rfl hkept (hq y (by simpa using hqy))
  · by_contra hqy
    refine hslot.not_concerned hw howned' (by rw [hcity]; exact hself) ?_ hkept
      (hq (f y) (by simpa using hqy))
    rw [hauthor]
    rfl

/-- A new report is in no slot that its invalidation keeps. -/
theorem CacheFresh.submitted (hw : Consistent w) (hw' : Consistent w')
    (husers : w'.db.users = w.db.users) (hfresh : CacheFresh w.db w.cache)
    (hrows : w'.db.reports = w.db.reports ++ [x]) {city : Bytes} {authorId : UInt64}
    (hcity : x.city = city) (hauthor : x.authorId = i64 authorId)
    (hcache : w'.cache = w.cache.map (invalidateEntry city authorId)) :
    CacheFresh w'.db w'.cache := by
  have hsub : ∀ row ∈ w.db.users, row ∈ w'.db.users := fun row hrow => husers ▸ hrow
  intro s hs hat
  rw [hcache] at hs
  obtain ⟨hmem, hkept⟩ := mem_invalidated hs hat
  have hslot := hfresh s hmem hat
  have howned : Owned w.db x := by
    have hmem' : x ∈ w'.db.reports := by
      rw [hrows]
      exact List.mem_append_right _ List.mem_cons_self
    exact (hw'.owned x hmem').mono fun row hrow => husers ▸ hrow
  have hnot : ¬ Concerns s.userId s.isOperator x := by
    refine hslot.not_concerned hw howned ?_ ?_ hkept
    · rw [hcity]
      exact decide_eq_true rfl
    · rw [hauthor, u64_i64]
  refine hslot.of_select hsub fun q hq => ?_
  have hqx : holds (q x) = false := by
    by_contra hqx
    exact hnot (hq x (by simpa using hqx))
  rw [hrows, select, select, List.filter_append, List.filter_cons, hqx]
  simp

/-- Slots that were all there before, and rows that are the same. -/
theorem CacheFresh.kept (hfresh : CacheFresh w.db w.cache)
    (husers : ∀ row ∈ w.db.users, row ∈ w'.db.users) (hrows : w'.db.reports = w.db.reports)
    (hcache : ∀ s ∈ w'.cache, s.cachedAt ≠ 0 → s ∈ w.cache) : CacheFresh w'.db w'.cache := by
  intro s hs hat
  exact (hfresh s (hcache s hs hat) hat).of_select husers fun q _ => by rw [hrows]

end writes

/-! ### What an endpoint drops -/

/-- Either nothing was written, or the slots of the named report were dropped. -/
inductive Dropped (r : UInt64) (w w' : World) (rc : ℤ) : Prop
  | nothing : rc ≠ 1 → w'.db.reports = w.db.reports → w'.cache = w.cache → Dropped r w w' rc
  | dropped (x : ReportRow) : rc = 1 → x ∈ w.db.reports → x.id = i64 r →
      w'.cache = w.cache.map (invalidateEntry (cursorToReport x).city (cursorToReport x).authorId) →
      Dropped r w w' rc

section dropped
variable {e : Env} {w w₀ w' : World} {rc : ℤ} {r : UInt64} {seq : ℤ}

/-- The row read back after an update has the keys of the row updated. -/
theorem Updated.dropped (he : Unfailing e) {g : ReportRow → Tri} {f : ReportRow → ReportRow}
    {k : ReportCall} {t : ℤ} (h : Updated g f r e w w' rc) {ev : ReportEvent}
    (hu : k.write t = some ⟨r, g, f, ev⟩) (hkeys : Keyed (w.db.reports.map ReportRow.id) seq) :
    Dropped r w w' rc := by
  cases h with
  | error hf =>
      rw [he.calls] at hf
      cases hf
  | missed _ _ hrows hcache _ => exact .nothing (by decide) hrows hcache
  | done r' w₁ w₂ _ hn _ hrows₁ _ hget hcache =>
      obtain ⟨x, hx, hg⟩ := affected_ne_zero.mp hn
      have hid : x.id = i64 r := Write.guard_id hu hg
      have hset : ∀ y, (f y).id = y.id ∧ (f y).authorId = y.authorId ∧ (f y).city = y.city ∧
          (f y).createdAt = y.createdAt := Write.set_submission hu
      have hmem : f x ∈ w₁.db.reports := by
        rw [hrows₁]
        exact mem_update.mpr ⟨x, hx, by rw [if_pos hg]⟩
      have hkeys₁ : Keyed (w₁.db.reports.map ReportRow.id) seq := by
        rw [hrows₁, update_column fun y _ => (hset y).1]
        exact hkeys
      obtain ⟨rfl, -⟩ := reportGetById_found hget (he.calls _) (he.calls _) hkeys₁ hmem
        ((hset x).1.trans hid)
      refine .dropped x rfl hx hid ?_
      rw [hcache]
      unfold cursorToReport
      simp only [(hset x).2.1, (hset x).2.2.1]

theorem Dropped.of_same (h : Dropped r w₀ w' rc) (hdb : w₀.db = w.db)
    (hcache : w₀.cache = w.cache) : Dropped r w w' rc := by
  cases h with
  | nothing hrc hrows hcache' => exact .nothing hrc (by rw [hrows, hdb]) (hcache'.trans hcache)
  | dropped x hrc hx hid hcache' => exact .dropped x hrc (hdb ▸ hx) hid (by rw [hcache', hcache])

/-- The call that an endpoint makes drops the slots of its report when it writes. -/
theorem Endpoint.asked_dropped (he : Unfailing e) (ep : Endpoint) (req : HttpRequest) (u : User)
    (hkeys : Keyed (w.db.reports.map ReportRow.id) seq)
    (h : (ep.asked req u).run e w = (rc, w')) : Dropped (namedReport req) w w' rc := by
  cases ep with
  | status =>
      obtain ⟨t, w₁, h₁, h₂⟩ := Prog.bind_run_iff.mp h
      obtain ⟨rfl, rfl⟩ := now_run h₁
      obtain ⟨-, -, -, hup⟩ := guardedUpdate_run h₂
      exact (hup.dropped he (k := .resolve (namedReport req) u.userId) (t := e.clock w.ctr.ticks)
        rfl hkeys).of_same rfl rfl
  | respond =>
      unfold asked at h
      dsimp only at h
      split_ifs at h
      · have hrun : reportAccept (namedReport req) u.userId e w = (rc, w') := h
        obtain ⟨-, -, -, hup⟩ := guardedUpdate_run hrun
        have hdrop := hup.dropped he (k := .accept (namedReport req) u.userId) (t := 0) rfl hkeys
        exact hdrop
      · have hrun : reportReject (namedReport req) u.userId e w = (rc, w') := h
        obtain ⟨-, -, -, hup⟩ := guardedUpdate_run hrun
        have hdrop := hup.dropped he (k := .reject (namedReport req) u.userId) (t := 0) rfl hkeys
        exact hdrop
  | feedback =>
      unfold asked at h
      dsimp only at h
      generalize atoi (getField req.bodyPtr (bytes "stars=") 4) = stars at h
      simp only [ReportCall.run, reportSetFeedback] at h
      rcases Prog.ite_run_iff.mp h with ⟨-, h₁⟩ | ⟨hstars, h₁⟩
      · obtain ⟨rfl, rfl⟩ := Prog.pure_run_iff.mp h₁
        exact .nothing (by decide) rfl rfl
      · obtain ⟨-, -, -, hup⟩ := guardedUpdate_run h₁
        exact hup.dropped he (k := .setFeedback (namedReport req) u.userId stars) (t := 0)
          (if_neg hstars) hkeys
  | assign =>
      exact ((assign_updated h).2.dropped he (k := .assign (namedReport req) (namedOperator req))
        (t := e.clock w.ctr.ticks) rfl hkeys).of_same rfl rfl

theorem Endpoint.Acted.dropped (he : Unfailing e) {ep : Endpoint} {req : HttpRequest} {u : User}
    (hkeys : Keyed (w.db.reports.map ReportRow.id) w.db.reportSeq) (hst : StatusInRange w)
    (h : ep.Acted e req u w w' rc) : Dropped (namedReport req) w w' rc := by
  cases h with
  | called hrun => exact asked_dropped he ep req u hkeys hrun
  | refused hrun hread hrc =>
      cases asked_dropped he ep req u hkeys hrun with
      | nothing _ hrows hcache =>
          exact .nothing (by omega) (by rw [hread.db, hrows]) (by rw [hread.cache, hcache])
      | dropped _ h01 => cases h01
  | reassigned hep hre =>
      subst hep
      obtain ⟨-, hcases⟩ := hre.cases hst
      obtain ⟨w₁, w₂, w₃, rr, rc₁, hassign, hget, -, hreset, hlast⟩ := hre.run
      have hread := (reportGetById_run hget).1
      obtain ⟨-, -, -, -, hcache₃, ⟨-, hf, -⟩ | ⟨-, -, hrows₃⟩⟩ := resetReport_run hreset
      · rw [he.calls] at hf
        cases hf
      cases asked_dropped he assign req u hkeys hassign with
      | dropped _ h01 => cases h01
      | nothing _ hrows₁ hcache₁ =>
          rw [hread.db, hrows₁] at hrows₃
          have hcache : w₃.cache = w.cache := by rw [hcache₃, hread.cache, hcache₁]
          have hkeys₃ : Keyed (w₃.db.reports.map ReportRow.id) w.db.reportSeq := by
            rw [hrows₃, update_column (f := unassign) (g := ReportRow.id) fun _ _ => rfl]
            exact hkeys
          cases asked_dropped he assign req u hkeys₃ hlast with
          | nothing hrc _ hcache' =>
              cases hcases with
              | nothing _ hrows => exact .nothing hrc hrows (hcache'.trans hcache)
              | assigned _ h1 => exact absurd h1 hrc
              | torn _ _ _ _ hf =>
                  rw [he.calls] at hf
                  cases hf
          | dropped y hrc hy hid hcache' =>
              rw [hrows₃] at hy
              obtain ⟨x, hx, rfl⟩ := mem_update.mp hy
              rw [hcache] at hcache'
              split_ifs at hid hcache'
              · exact .dropped x hrc hx hid hcache'
              · exact .dropped x hrc hx hid hcache'

end dropped

/-! ### Every run -/

theorem CacheFresh.step {e : Env} {w w' : World} {req : HttpRequest} {resp resp' : HttpResponse}
    (he : Unfailing e) (hw : Consistent w) (hfresh : CacheFresh w.db w.cache)
    (h : handleRequest req resp e w = (resp', w')) : CacheFresh w'.db w'.cache := by
  have hw' := hw.step h
  cases (handleRequest_effect hw.wf h).2 with
  | same hdb hcache =>
      rw [hdb, hcache]
      exact hfresh
  | listed u isArchived buf r w₁ hlog hdb₁ hcache₁ hdb hrun =>
      obtain ⟨row, hrow, rfl⟩ := hw.loggedIn hlog
      obtain ⟨row', hrow', hid, -, hcity⟩ := hw.snapshot hrow
      have henr := hw.enrolled row hrow
      have hshort : Short (cursorToUser row).city := by
        rw [henr.snapshot_city]
        exact henr.city
      rw [hdb, ← hdb₁]
      rw [← hdb₁, ← hcache₁] at hfresh
      refine hfresh.listed he hrun ⟨row', ?_, hid, hcity⟩ hshort
      rw [hdb₁]
      exact hrow'
  | registered username hash city salt role _ _ _ hins hcache =>
      obtain ⟨-, id, -, hdb⟩ := insertUser_eq_some hins
      refine hfresh.kept ?_ (by rw [hdb]) fun s hs _ => hcache ▸ hs
      intro row hrow
      rw [hdb]
      exact List.mem_append_left _ hrow
  | submitted u lat lon category desc t hlog hop hadmin hins hcache =>
      obtain ⟨-, -, hcity⟩ := hw.citizen hlog hop hadmin
      obtain ⟨-, hdb⟩ := insertReport_eq_some hins
      have hseq := hw.reportKeys.bounds
      have hpos : 0 < w'.db.reportSeq := by
        rw [hdb]
        show 0 < w.db.reportSeq + 1
        omega
      exact hfresh.submitted hw hw' (by rw [hdb]) (by rw [hdb]) (cstr_eq_self hcity.1) rfl
        (hcache hpos)
  | wrote ep u w₁ rc hlog hc hdb₁ hcache₁ hacted =>
      have hst : StatusInRange w₁ := by
        rw [StatusInRange, hdb₁]
        exact hw.status
      have husers : w'.db.users = w.db.users := by rw [hacted.accounts.users, hdb₁]
      have hsub : ∀ row ∈ w.db.users, row ∈ w'.db.users := fun row hrow => husers ▸ hrow
      have hdrop := (hacted.dropped he (by rw [hdb₁]; exact hw.reportKeys) hst).of_same hdb₁ hcache₁
      cases (hacted.rows hst).2 with
      | same hrc hrows =>
          rw [hdb₁] at hrows
          cases hdrop with
          | nothing _ _ hcache => exact hfresh.kept hsub hrows fun s hs _ => hcache ▸ hs
          | dropped x h1 => omega
      | done g f hrc _ hrows hf =>
          rw [hdb₁] at hrows
          cases hdrop with
          | nothing hne => exact absurd hrc hne
          | dropped x _ hx hid hcache =>
              refine hfresh.written hw hw' husers hrows hx (fun y hy => ?_) hcache
              obtain ⟨hyid, hch⟩ := hf y hy
              exact ⟨hyid.trans hid.symm, _, hch⟩
      | torn _ _ _ _ _ hfail =>
          rw [he.calls] at hfail
          cases hfail

/-- Every state reached is consistent and its slots are fresh. -/
theorem consistent_fresh {e : Env} (he : Unfailing e) {seed : UInt64} {tableOk poolOk : Bool}
    {sessions : HashTable Session} (h₀ : sessionInit seed tableOk poolOk = some sessions)
    {log : List ((HttpRequest × HttpResponse) × HttpResponse)} {w : World}
    (hrun : Run answer e (emptyWorld sessions) log w) :
    Consistent w ∧ CacheFresh w.db w.cache := by
  refine hrun.invariant (I := fun _ w => Consistent w ∧ CacheFresh w.db w.cache) ?_ ?_
  · refine ⟨sessionInit_consistent h₀, fun s hs hat => ?_⟩
    rw [List.eq_of_mem_replicate hs] at hat
    exact absurd rfl hat
  · rintro log w x resp' w' ⟨hw, hfresh⟩ h
    exact ⟨hw.step h, hfresh.step he hw h⟩

/-- **Cache transparency.**  After any requests, the lists that the handlers ask for are the same
as with every slot of the cache free. -/
theorem cache_transparency {e : Env} (he : Unfailing e) {seed : UInt64} {tableOk poolOk : Bool}
    {sessions : HashTable Session} (h₀ : sessionInit seed tableOk poolOk = some sessions)
    {log : List ((HttpRequest × HttpResponse) × HttpResponse)} {w w₁ : World}
    (hrun : Run answer e (emptyWorld sessions) log w) {req : HttpRequest} {u : User}
    (hu : getSessionUser req e w = (some u, w₁)) {free : List CacheEntry}
    (hfree : ∀ s ∈ free, s.cachedAt = 0) (buf : Bytes) :
    (reportGetActiveJson buf responseBufferSize u.userId u.city (userIsOperator u) e w₁).1 =
      (reportGetActiveJson buf responseBufferSize u.userId u.city (userIsOperator u) e
        { w₁ with cache := free }).1 ∧
    (reportGetArchivedJson buf responseBufferSize u.userId u.city (userIsOperator u) e w₁).1 =
      (reportGetArchivedJson buf responseBufferSize u.userId u.city (userIsOperator u) e
        { w₁ with cache := free }).1 := by
  obtain ⟨hw, hfresh⟩ := consistent_fresh he h₀ hrun
  have hev := (getSessionUser_loggedIn hw.wf hu).1
  have hfresh₁ : CacheFresh w₁.db w₁.cache := by
    rw [hev.data.db, hev.data.cache]
    exact hfresh
  have hempty : CacheFresh w₁.db free := fun s hs hat => absurd (hfree s hs) hat
  have hlist : ∀ isArchived, (cachedList (listQuery isArchived) isArchived buf responseBufferSize
      u.userId u.city (userIsOperator u) e w₁).1 = (cachedList (listQuery isArchived) isArchived buf
        responseBufferSize u.userId u.city (userIsOperator u) e { w₁ with cache := free }).1 := by
    intro isArchived
    rw [hfresh₁.list he (Prog.run_of_fst rfl),
      CacheFresh.list (w := { w₁ with cache := free }) hempty he (Prog.run_of_fst rfl)]
  exact ⟨hlist false, hlist true⟩

end platform

/-! ### A list asked for twice -/

def listRequest : HttpRequest :=
  (httpRequestParse (bytes "GET /api/reports/active HTTP/1.1\x0d\nCookie: sid=" ++
    bytes "aaaaaaaaaaaaaaaaaaaaaaaaaaaaaaa0\x0d\n\x0d\n")).getD
      ⟨[], ⟨0, []⟩, ⟨0, []⟩, [], 0, none, 0⟩

/-- A citizen registers, logs in, submits a report and looks at the list. -/
def listedRun : List ((HttpRequest × HttpResponse) × HttpResponse) × @World samplePlatform :=
  letI := samplePlatform
  Run.exec answer townEnv (emptyWorld noSessions) [
    formRequest "/register" "" "username=ada&password=secret1&city=Torino&role=0",
    formRequest "/login" "" "username=ada&password=secret1",
    formRequest "/submit" "aaaaaaaaaaaaaaaaaaaaaaaaaaaaaaa0" "description=via%20Po&lat=45.1&lon=7.6",
    (listRequest, blankResponse)]

theorem run_listedRun :
    Run (@answer samplePlatform) townEnv (@emptyWorld samplePlatform noSessions)
      listedRun.1 listedRun.2 := Run.of_exec _ _ _ _

theorem cache_transparency_listedRun :
    letI := samplePlatform
    (listedRun.2.cache.filter fun s => s.cachedAt ≠ 0).length = 1 ∧
    ∃ u w₁, getSessionUser listRequest townEnv listedRun.2 = (some u, w₁) ∧
      (reportGetActiveJson [] responseBufferSize u.userId u.city (userIsOperator u) townEnv w₁).1 =
        (reportGetActiveJson [] responseBufferSize u.userId u.city (userIsOperator u) townEnv
          { w₁ with cache := [] }).1 :=
  letI := samplePlatform
  have hsome : (getSessionUser listRequest townEnv listedRun.2).1.isSome = true := by
    decide +kernel
  have hu := Prog.run_of_fst (Option.some_get hsome).symm
  ⟨by decide +kernel, _, _, hu, (cache_transparency ⟨fun _ => rfl, fun _ => rfl⟩
    sessionInit_noSessions run_listedRun hu (fun s hs => absurd hs List.not_mem_nil) []).1⟩

end Segnalacity
