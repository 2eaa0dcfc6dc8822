import Segnalacity.CacheTransparency

/-! # Lists read while something fails

`db_cursor_next` answers false behind the last row, after a failed step and for a NULL cursor
alike, a row without memory for its object is left out of the array, and a field without memory
out of its object.  `readObjects` is what such a reading finds.  The list calls store whatever text
they print, so a slot may hold a list that a failure has cut: `failures_cached_iff` says when. -/

namespace Segnalacity

open CStr StateProg Sql Http

/-! ### Readings with failures -/

section reading
variable {α : Type} {fails allocFails : ℕ → Bool} {m n : ℕ}

/-- The fields that could be added, from the allocation `n` on. -/
def addedFields (allocFails : ℕ → Bool) : ℕ → List α → List α
  | _, [] => []
  | n, f :: fields =>
      if allocFails n then addedFields allocFails (n + 1) fields
      else f :: addedFields allocFails (n + 1) fields

/-- The objects that are read, from the step `m` and the allocation `n` on. -/
def readObjects (fails allocFails : ℕ → Bool) : ℕ → ℕ → List (List α) → List (List α)
  | _, _, [] => []
  | m, n, o :: objects =>
      if fails m then []
      else if allocFails n then readObjects fails allocFails (m + 1) (n + 1) objects
      else addedFields allocFails (n + 1) o ::
        readObjects fails allocFails (m + 1) (n + 1 + o.length) objects

/-- How many allocations the objects take. -/
def allocations : List (List α) → ℕ
  | [] => 0
  | o :: objects => 1 + o.length + allocations objects

theorem addedFields_length_le (fields : List α) :
    (addedFields allocFails n fields).length ≤ fields.length := by
  induction fields generalizing n with
  | nil => exact le_rfl
  | cons f fields ih =>
      unfold addedFields
      split_ifs
      · exact (ih (n := n + 1)).trans (Nat.le_succ _)
      · exact Nat.succ_le_succ (ih (n := n + 1))

theorem forall_lt_succ_iff {p : ℕ → Bool} {n k : ℕ} :
    (∀ i < k + 1, p (n + i) = false) ↔ p n = false ∧ ∀ i < k, p (n + 1 + i) = false := by
  rw [Nat.forall_lt_succ_left]
  simp only [Nat.add_zero, Nat.add_assoc, Nat.add_comm 1]

theorem forall_lt_add_iff {p : ℕ → Bool} {n j k : ℕ} :
    (∀ i < j + k, p (n + i) = false) ↔
      (∀ i < j, p (n + i) = false) ∧ ∀ i < k, p (n + j + i) = false := by
  induction j generalizing n with
  | zero => simp
  | succ j ih =>
      rw [Nat.add_right_comm, forall_lt_succ_iff, forall_lt_succ_iff, ih, and_assoc]
      simp only [Nat.add_assoc, Nat.add_comm 1 j]

theorem addedFields_eq_iff (fields : List α) :
    addedFields allocFails n fields = fields ↔
      ∀ i < fields.length, allocFails (n + i) = false := by
  induction fields generalizing n with
  | nil => simp [addedFields]
  | cons f fields ih =>
      rw [List.length_cons, forall_lt_succ_iff, ← ih, addedFields]
      cases allocFails n with
      | true =>
          have hlen : (addedFields allocFails (n + 1) fields).length ≤ fields.length :=
            addedFields_length_le fields
          refine iff_of_false (fun h => ?_) (by simp)
          have := congrArg List.length h
          simp only [if_true, List.length_cons] at this
          omega
      | false => simp

theorem readObjects_length_le (objects : List (List α)) :
    (readObjects fails allocFails m n objects).length ≤ objects.length := by
  induction objects generalizing m n with
  | nil => exact le_rfl
  | cons o objects ih =>
      unfold readObjects
      split_ifs
      · exact Nat.zero_le _
      · exact ih.trans (Nat.le_succ _)
      · exact Nat.succ_le_succ ih

/-- When no step fails, the objects are all there if and only if no allocation has failed. -/
theorem readObjects_eq_iff {objects : List (List α)}
    (hsteps : ∀ i < objects.length, fails (m + i) = false) :
    readObjects fails allocFails m n objects = objects ↔
      ∀ i < allocations objects, allocFails (n + i) = false := by
  induction objects generalizing m n with
  | nil => simp [readObjects, allocations]
  | cons o objects ih =>
      obtain ⟨hm, hsteps⟩ := forall_lt_succ_iff.mp hsteps
      rw [allocations, Nat.add_assoc, Nat.add_comm 1, forall_lt_succ_iff, forall_lt_add_iff,
        ← addedFields_eq_iff, ← ih hsteps, readObjects, hm]
      cases allocFails n with
      | true =>
          have hlen : (readObjects fails allocFails (m + 1) (n + 1) objects).length ≤
            objects.length := readObjects_length_le objects
          refine iff_of_false (fun h => ?_) (by simp)
          have := congrArg List.length h
          simp only [if_true, Bool.false_eq_true, if_false, List.length_cons] at this
          omega
      | false => simp

end reading

section platform

variable [Platform]

section runs
variable {e : Env} {w w' : World}

/-- A reading that made `m` calls and `n` allocations. -/
structure Reads (m n : ℕ) (w w' : World) : Prop extends ReadsOnly w w' where
  calls : w'.ctr.calls = w.ctr.calls + m
  allocs : w'.ctr.allocs = w.ctr.allocs + n

theorem Reads.trans {m n m' n' : ℕ} {w₁ w₂ w₃ : World} (h : Reads m n w₁ w₂)
    (h' : Reads m' n' w₂ w₃) : Reads (m + m') (n + n') w₁ w₃ where
  toReadsOnly := h.toReadsOnly.trans h'.toReadsOnly
  calls := by rw [h'.calls, h.calls, Nat.add_assoc]
  allocs := by rw [h'.allocs, h.allocs, Nat.add_assoc]

theorem reads_alloc (w : World) : Reads 0 1 w w.alloc := ⟨⟨rfl, rfl, rfl, rfl⟩, rfl, rfl⟩

theorem jsonAddFields_reads {fields : List (Bytes × JsonValue Double)} {obj : JsonObject Double}
    (h : jsonAddFields fields e w = (obj, w')) :
    obj = addedFields e.allocFails w.ctr.allocs fields ∧ Reads 0 fields.length w w' := by
  induction fields generalizing w w' obj with
  | nil =>
      obtain ⟨rfl, rfl⟩ := Prog.pure_run_iff.mp h
      exact ⟨rfl, ReadsOnly.refl _, rfl, rfl⟩
  | cons f fields ih =>
      obtain ⟨ok, w₁, h₁, h₂⟩ := Prog.bind_run_iff.mp h
      obtain ⟨rfl, rfl⟩ := attemptAlloc_run h₁
      obtain ⟨rest, w₂, h₃, h₄⟩ := Prog.bind_run_iff.mp h₂
      obtain ⟨rfl, rfl⟩ := Prog.pure_run_iff.mp h₄
      obtain ⟨rfl, hreads⟩ := ih h₃
      have hall := (reads_alloc w).trans hreads
      rw [Nat.add_comm 1] at hall
      refine ⟨?_, hall⟩
      rw [addedFields]
      cases e.allocFails w.ctr.allocs <;> rfl

theorem reportToCjson_reads {r : Report} {obj : Option (JsonObject Double)}
    (h : reportToCjson r e w = (obj, w')) :
    (e.allocFails w.ctr.allocs = true ∧ obj = none ∧ Reads 0 1 w w') ∨
      (e.allocFails w.ctr.allocs = false ∧
        obj = some (addedFields e.allocFails (w.ctr.allocs + 1) (reportFields r)) ∧
        Reads 0 (1 + (reportFields r).length) w w') := by
  obtain ⟨ok, w₁, h₁, h₂⟩ := Prog.bind_run_iff.mp h
  obtain ⟨rfl, rfl⟩ := attemptAlloc_run h₁
  rcases Prog.ite_run_iff.mp h₂ with ⟨hok, h₃⟩ | ⟨hno, h₃⟩
  · obtain ⟨fields, w₂, h₄, h₅⟩ := Prog.bind_run_iff.mp h₃
    obtain ⟨rfl, rfl⟩ := Prog.pure_run_iff.mp h₅
    obtain ⟨rfl, hreads⟩ := jsonAddFields_reads h₄
    exact Or.inr ⟨by simpa using hok, rfl, (reads_alloc w).trans hreads⟩
  · obtain ⟨rfl, rfl⟩ := Prog.pure_run_iff.mp h₃
    exact Or.inl ⟨by simpa using hno, rfl, reads_alloc w⟩

/-- What the loop of `cursor_to_json_array` does with one row. -/
def reportItem (row : ReportRow) : App (List (JsonObject Double)) := do
  let obj ← reportToCjson (cursorToReport row)
  pure obj.toList

theorem drainRows_reads {rows : List ReportRow} {items : List (JsonObject Double)}
    (h : drainRows reportItem rows e w = (items, w')) :
    items = readObjects e.fails e.allocFails w.ctr.calls w.ctr.allocs (rows.map reportObject) ∧
      ReadsOnly w w' := by
  induction rows generalizing w w' items with
  | nil =>
      obtain ⟨ok, w₁, h₁, h₂⟩ := Prog.bind_run_iff.mp h
      obtain ⟨-, rfl⟩ := attempt_run h₁
      obtain ⟨rfl, rfl⟩ := Prog.pure_run_iff.mp h₂
      exact ⟨rfl, readsOnly_call w⟩
  | cons row rows ih =>
      obtain ⟨ok, w₁, h₁, h₂⟩ := Prog.bind_run_iff.mp h
      obtain ⟨rfl, rfl⟩ := attempt_run h₁
      rw [List.map_cons, readObjects]
      rcases Prog.ite_run_iff.mp h₂ with ⟨hok, h₃⟩ | ⟨hno, h₃⟩
      · obtain ⟨x, w₂, h₄, h₅⟩ := Prog.bind_run_iff.mp h₃
        obtain ⟨xs, w₃, h₆, h₇⟩ := Prog.bind_run_iff.mp h₅
        obtain ⟨rfl, rfl⟩ := Prog.pure_run_iff.mp h₇
        obtain ⟨obj, w₄, h₈, h₉⟩ := Prog.bind_run_iff.mp h₄
        obtain ⟨rfl, rfl⟩ := Prog.pure_run_iff.mp h₉
        obtain ⟨hrest, hread⟩ := ih h₆
        rw [if_neg (by simpa using hok)]
        have hcalls : w.call.ctr.allocs = w.ctr.allocs := rfl
        rcases reportToCjson_reads h₈ with ⟨hfail, rfl, hone⟩ | ⟨hfail, rfl, hone⟩
        · rw [hcalls] at hfail
          rw [if_pos hfail, hrest, hone.calls, hone.allocs]
          exact ⟨rfl, ((readsOnly_call w).trans hone.toReadsOnly).trans hread⟩
        · rw [hcalls] at hfail
          rw [if_neg (by simp [hfail]), hrest, hone.calls, hone.allocs, ← Nat.add_assoc]
          exact ⟨rfl, ((readsOnly_call w).trans hone.toReadsOnly).trans hread⟩
      · obtain ⟨rfl, rfl⟩ := Prog.pure_run_iff.mp h₃
        rw [if_pos (by simpa using hno)]
        exact ⟨rfl, readsOnly_call w⟩

/-- The array of a list: without its root the buffer is empty, else its objects are printed. -/
theorem cursorToJsonArray_reads {c : Option (List ReportRow)} {buf : Bytes} {max : ℕ}
    {r : ℕ × Bytes} (h : cursorToJsonArray c buf max e w = (r, w')) :
    ReadsOnly w w' ∧
      ((e.allocFails w.ctr.allocs = true ∧ r = (0, overlay [0] buf)) ∨
        (e.allocFails w.ctr.allocs = false ∧ r = printArray (c.elim [] fun rows =>
          readObjects e.fails e.allocFails w.ctr.calls (w.ctr.allocs + 1) (rows.map reportObject))
            buf max)) := by
  obtain ⟨ok, w₁, h₁, h₂⟩ := Prog.bind_run_iff.mp h
  obtain ⟨rfl, rfl⟩ := attemptAlloc_run h₁
  rcases Prog.ite_run_iff.mp h₂ with ⟨hno, h₃⟩ | ⟨hok, h₃⟩
  · obtain ⟨rfl, rfl⟩ := Prog.pure_run_iff.mp h₃
    exact ⟨(reads_alloc w).toReadsOnly, Or.inl ⟨by simpa using hno, rfl⟩⟩
  · obtain ⟨items, w₂, h₄, h₅⟩ := Prog.bind_run_iff.mp h₃
    obtain ⟨rfl, rfl⟩ := Prog.pure_run_iff.mp h₅
    have hok : e.allocFails w.ctr.allocs = false := by simpa using hok
    cases c with
    | none =>
        obtain ⟨rfl, rfl⟩ := Prog.pure_run_iff.mp h₄
        exact ⟨(reads_alloc w).toReadsOnly, Or.inr ⟨hok, rfl⟩⟩
    | some rows =>
        obtain ⟨rfl, hread⟩ := drainRows_reads h₄
        exact ⟨(reads_alloc w).toReadsOnly.trans hread, Or.inr ⟨hok, rfl⟩⟩

end runs

/-! ### List calls -/

/-- A call of `report_get_active_json` or `report_get_archived_json`; the city is that of a
user, in a field of `CITY_LEN` bytes. -/
structure ListCall where
  isArchived : Bool
  buf : Bytes
  max : ℕ
  userId : UInt64
  city : Bytes
  isOperator : Bool
  short : Short city

namespace ListCall

def run (c : ListCall) : App (ℕ × Bytes) :=
  if c.isArchived then reportGetArchivedJson c.buf c.max c.userId c.city c.isOperator
  else reportGetActiveJson c.buf c.max c.userId c.city c.isOperator

/-- What `cache_find` returns, and the slots it leaves. -/
def found (c : ListCall) (e : Env) (w : World) : Option CacheEntry × List CacheEntry :=
  cacheFind (e.clock w.ctr.ticks) c.city c.userId c.isOperator c.isArchived w.cache

/-- The objects of all the rows that the query selects. -/
def whole (c : ListCall) (w : World) : List (JsonObject Double) :=
  listItems c.isArchived c.userId c.isOperator w.db

/-- The objects in the array that is printed on a miss. -/
def array (c : ListCall) (e : Env) (w : World) : List (JsonObject Double) :=
  if e.fails w.ctr.calls then []
  else readObjects e.fails e.allocFails (w.ctr.calls + 1) (w.ctr.allocs + 1) (c.whole w)

/-- The slot that a call writes. -/
def slot (c : ListCall) (e : Env) (w : World) (text : Bytes) : CacheEntry :=
  ⟨c.city, c.userId, c.isOperator, c.isArchived, e.clock (w.ctr.ticks + 1), text⟩

/-- The text can be stored. -/
def Storable (text : Bytes) : Prop := 0 < text.length ∧ text.length < cacheJsonMax

variable {c : ListCall} {e : Env} {w w' : World} {r : ℕ × Bytes}

/-- The runs of a call: a hit, a miss without memory for the array, a miss whose text is not
stored, and a miss whose text is. -/
inductive Outcome (c : ListCall) (e : Env) (w w' : World) (r : ℕ × Bytes) : Prop
  | hit (s : CacheEntry) : (c.found e w).1 = some s →
      r = (s.json.length, overlay (s.json ++ [0]) c.buf) → w'.cache = (c.found e w).2 →
      Outcome c e w w' r
  | noArray : (c.found e w).1 = none → e.allocFails w.ctr.allocs = true →
      w'.cache = (c.found e w).2 → Outcome c e w w' r
  | unstored : (c.found e w).1 = none → e.allocFails w.ctr.allocs = false →
      (∀ text, Platform.printPreallocated (c.array e w) c.max = some text → ¬ Storable text) →
      w'.cache = (c.found e w).2 → Outcome c e w w' r
  | stored (text : Bytes) : (c.found e w).1 = none → e.allocFails w.ctr.allocs = false →
      Platform.printPreallocated (c.array e w) c.max = some text → Storable text →
      w'.cache = (c.found e w).2.set (cacheSlot (c.found e w).2) (c.slot e w text) →
      Outcome c e w w' r

theorem run_eq (c : ListCall) : c.run = cachedList (listQuery c.isArchived) c.isArchived c.buf c.max
    c.userId c.city c.isOperator := by
  unfold run listQuery
  cases c.isArchived <;> rfl

/-- What follows the printing: the text is stored or not. -/
theorem storePrinted_run {items : List (JsonObject Double)} {buf city : Bytes} {max : ℕ}
    {userId : UInt64} {isOperator isArchived : Bool} {r' : ℕ × Bytes}
    (hr : r = printArray items buf max)
    (h : (if r.1 > 0 then do
        cacheStore city userId isOperator isArchived (r.2.take r.1)
        pure r
      else pure r) e w = (r', w')) :
    w'.db = w.db ∧
      (((∀ text, Platform.printPreallocated items max = some text → ¬ Storable text) ∧
          w'.cache = w.cache) ∨
        ∃ text, Platform.printPreallocated items max = some text ∧ Storable text ∧
          w'.cache = w.cache.set (cacheSlot w.cache) ⟨strncpy city (cityLen - 1), userId,
            isOperator, isArchived, e.clock w.ctr.ticks, text⟩) := by
  unfold printArray at hr
  cases hp : Platform.printPreallocated items max with
  | none =>
      rw [hp] at hr
      subst hr
      rcases Prog.ite_run_iff.mp h with ⟨hpos, -⟩ | ⟨-, h₁⟩
      · exact absurd hpos (lt_irrefl 0)
      · obtain ⟨rfl, rfl⟩ := Prog.pure_run_iff.mp h₁
        exact ⟨rfl, Or.inl ⟨fun text ht => absurd ht (by simp), rfl⟩⟩
  | some text =>
      rw [hp] at hr
      subst hr
      have huns : ¬ Storable text → ∀ t, some text = some t → ¬ Storable t := by
        rintro hno t ht
        exact Option.some.inj ht ▸ hno
      rcases Prog.ite_run_iff.mp h with ⟨hpos, h₁⟩ | ⟨hpos, h₁⟩
      · obtain ⟨_, w₁, h₂, h₃⟩ := Prog.bind_run_iff.mp h₁
        obtain ⟨rfl, rfl⟩ := Prog.pure_run_iff.mp h₃
        obtain ⟨hdb, hcache⟩ := cacheStore_run h₂
        dsimp only at hcache
        rw [take_overlay_text] at hcache
        refine ⟨hdb, ?_⟩
        by_cases hlong : text.length ≥ cacheJsonMax
        · rw [if_pos hlong] at hcache
          exact Or.inl ⟨huns fun hs => absurd hlong (not_le.mpr hs.2), hcache⟩
        · rw [if_neg hlong] at hcache
          exact Or.inr ⟨text, rfl, ⟨hpos, not_le.mp hlong⟩, hcache⟩
      · obtain ⟨rfl, rfl⟩ := Prog.pure_run_iff.mp h₁
        exact ⟨rfl, Or.inl ⟨huns fun hs => hpos hs.1, rfl⟩⟩

theorem run_outcome (h : c.run e w = (r, w')) : w'.db = w.db ∧ c.Outcome e w w' r := by
  rw [run_eq] at h
  rcases cachedList_find h with ⟨s, hhit, rfl, rfl⟩ | ⟨hhit, cursor, w₄, r', w₅, h₇, h₉, h₁₀⟩
  · exact ⟨rfl, .hit s hhit rfl rfl⟩
  · obtain ⟨rfl, rfl⟩ := dbCursorOpen_run h₇
    obtain ⟨hread, hcases⟩ := cursorToJsonArray_reads h₉
    have hdb : w₅.db = w.db := hread.db
    have hcache : w₅.cache = (c.found e w).2 := hread.cache
    have hticks : w₅.ctr.ticks = w.ctr.ticks + 1 := hread.ticks
    rcases hcases with ⟨hfail, rfl⟩ | ⟨hok, hr⟩
    · rcases Prog.ite_run_iff.mp h₁₀ with ⟨hpos, -⟩ | ⟨-, h₁₁⟩
      · exact absurd hpos (lt_irrefl 0)
      · obtain ⟨rfl, rfl⟩ := Prog.pure_run_iff.mp h₁₁
        exact ⟨hdb, .noArray hhit hfail hcache⟩
    · have hitems : r' = printArray (c.array e w) c.buf c.max := by
        rw [hr, array]
        have hcalls : w.tick.ctr.calls = w.ctr.calls := rfl
        cases hf : e.fails w.ctr.calls with
        | true => simp [hcalls, hf]
        | false =>
            simp only [hcalls, hf]
            rfl
      have hself : strncpy c.city (cityLen - 1) = c.city :=
        strncpy_eq_self c.short.1 c.short.2
      obtain ⟨hdb', ⟨huns, hkept⟩ | ⟨text, hp, hfits, hset⟩⟩ := storePrinted_run hitems h₁₀
      · exact ⟨hdb'.trans hdb, .unstored hhit hok huns (hkept.trans hcache)⟩
      · rw [hcache, hticks, hself] at hset
        exact ⟨hdb'.trans hdb, .stored text hhit hok hp hfits hset⟩

/-! ### Complete readings -/

/-- The query was prepared, it ran to its end without error, and every row is in the array with
all its fields. -/
structure Complete (c : ListCall) (e : Env) (w : World) : Prop where
  prepared : e.fails w.ctr.calls = false
  ended : ∀ i ≤ (c.whole w).length, e.fails (w.ctr.calls + 1 + i) = false
  rows : c.array e w = c.whole w

/-- A slot that the call fills holds the text of a complete reading. -/
def StoresOnlyComplete (c : ListCall) (e : Env) (w : World) : Prop :=
  ∀ s ∈ (c.run e w).2.cache, s.cachedAt ≠ 0 → s ∉ (c.found e w).2 →
    c.Complete e w ∧ ∃ text, Platform.printPreallocated (c.whole w) c.max = some text ∧
      s = c.slot e w text

/-- No call into the database fails, and no allocation. -/
structure Undisturbed (c : ListCall) (e : Env) (w : World) : Prop where
  calls : ∀ i < (c.whole w).length + 2, e.fails (w.ctr.calls + i) = false
  allocs : ∀ i < allocations (c.whole w), e.allocFails (w.ctr.allocs + 1 + i) = false

/-- The call is a hit, or there is no memory for the array, or the clock stands at 0, the mark of a
free slot, or the rows that are read do not fit the buffer or a slot, or nothing fails. -/
inductive Sound (c : ListCall) (e : Env) (w : World) : Prop
  | hit : (c.found e w).1.isSome → Sound c e w
  | noArray : e.allocFails w.ctr.allocs = true → Sound c e w
  | epoch : e.clock (w.ctr.ticks + 1) = 0 → Sound c e w
  | unfit : (∀ text, Platform.printPreallocated (c.array e w) c.max = some text →
      ¬ Storable text) → Sound c e w
  | undisturbed : c.Undisturbed e w → Sound c e w

theorem undisturbed_iff : c.Undisturbed e w ↔ c.Complete e w := by
  have hcalls : (∀ i < (c.whole w).length + 2, e.fails (w.ctr.calls + i) = false) ↔
      e.fails w.ctr.calls = false ∧
        ∀ i ≤ (c.whole w).length, e.fails (w.ctr.calls + 1 + i) = false := by
    rw [forall_lt_succ_iff]
    simp only [Nat.lt_succ_iff]
  have hrows : e.fails w.ctr.calls = false →
      (∀ i ≤ (c.whole w).length, e.fails (w.ctr.calls + 1 + i) = false) →
      (c.array e w = c.whole w ↔
        ∀ i < allocations (c.whole w), e.allocFails (w.ctr.allocs + 1 + i) = false) := by
    intro hprep hend
    unfold array
    rw [hprep, if_neg Bool.false_ne_true]
    exact readObjects_eq_iff fun i hi => hend i hi.le
  constructor
  · intro h
    obtain ⟨hprep, hend⟩ := hcalls.mp h.calls
    exact ⟨hprep, hend, (hrows hprep hend).mpr h.allocs⟩
  · intro h
    exact ⟨hcalls.mpr ⟨h.prepared, h.ended⟩, (hrows h.prepared h.ended).mp h.rows⟩

omit [Platform] in
/-- On a miss no slot in use has the key looked for. -/
theorem cacheFind_miss {t : ℤ} {city : Bytes} {userId : UInt64} {isOperator isArchived : Bool}
    {cache : List CacheEntry} {s : CacheEntry}
    (h : (cacheFind t city userId isOperator isArchived cache).1 = none)
    (hs : s ∈ (cacheFind t city userId isOperator isArchived cache).2) (hat : s.cachedAt ≠ 0) :
    cacheKeyMatches city userId isOperator isArchived s = false := by
  induction cache with
  | nil => cases hs
  | cons x cache ih =>
      unfold cacheFind at h hs
      dsimp only at h hs
      split_ifs at h hs with hfree hold hkey
      · rcases List.mem_cons.mp hs with rfl | hs
        · exact absurd hfree hat
        · exact ih h hs
      · rcases List.mem_cons.mp hs with rfl | hs
        · exact absurd rfl hat
        · exact ih h hs
      · rcases List.mem_cons.mp hs with rfl | hs
        · simpa using hkey
        · exact ih h hs

omit [Platform] in
theorem length_cacheFind {t : ℤ} {city : Bytes} {userId : UInt64} {isOperator isArchived : Bool}
    (cache : List CacheEntry) :
    (cacheFind t city userId isOperator isArchived cache).2.length = cache.length := by
  induction cache with
  | nil => rfl
  | cons x cache ih =>
      unfold cacheFind
      dsimp only
      split_ifs
      · exact congrArg Nat.succ ih
      · exact congrArg Nat.succ ih
      · rfl
      · exact congrArg Nat.succ ih

omit [Platform] in
theorem cacheSlotFrom_lt {i o : ℕ} {t : ℤ} {cache : List CacheEntry} (ho : o < i + cache.length) :
    cacheSlotFrom i o t cache < i + cache.length := by
  induction cache generalizing i o t with
  | nil => exact ho
  | cons x cache ih =>
      rw [List.length_cons, ← Nat.add_assoc, Nat.add_right_comm] at ho ⊢
      unfold cacheSlotFrom
      split_ifs
      · omega
      · exact ih (by omega)
      · exact ih ho

omit [Platform] in
theorem cacheSlot_lt {cache : List CacheEntry} (h : cache ≠ []) :
    cacheSlot cache < cache.length := by
  have hpos := List.length_pos_iff_ne_nil.mpr h
  have hlt : cacheSlot cache < 0 + cache.length := cacheSlotFrom_lt (by omega)
  rwa [Nat.zero_add] at hlt

/-- The slot that a miss writes was not there before. -/
theorem slot_notMem (hmiss : (c.found e w).1 = none) {text : Bytes}
    (hat : (c.slot e w text).cachedAt ≠ 0) : c.slot e w text ∉ (c.found e w).2 := by
  intro hmem
  have hno := cacheFind_miss hmiss hmem hat
  have hself : strncmpEq c.city c.city cityLen = true := decide_eq_true rfl
  simp [cacheKeyMatches, slot, hself] at hno

/-- A call stores only complete readings exactly when it is sound. -/
theorem storesOnlyComplete_iff (hcache : w.cache ≠ []) :
    c.StoresOnlyComplete e w ↔ c.Sound e w := by
  have hrun : c.run e w = ((c.run e w).1, (c.run e w).2) := rfl
  cases (run_outcome hrun).2 with
  | hit s hhit _ hkept =>
      refine iff_of_true (fun s' hs' _ hnew => ?_) (.hit (by rw [hhit]; rfl))
      exact absurd (hkept ▸ hs') hnew
  | noArray _ hfail hkept =>
      refine iff_of_true (fun s' hs' _ hnew => ?_) (.noArray hfail)
      exact absurd (hkept ▸ hs') hnew
  | unstored _ _ hno hkept =>
      refine iff_of_true (fun s' hs' _ hnew => ?_) (.unfit hno)
      exact absurd (hkept ▸ hs') hnew
  | stored text hmiss hok hp hfits hset =>
      constructor
      · intro hall
        by_cases hepoch : e.clock (w.ctr.ticks + 1) = 0
        · exact .epoch hepoch
        · have hmem : c.slot e w text ∈ (c.run e w).2.cache := by
            rw [hset]
            refine List.mem_set (cacheSlot_lt ?_) _
            rw [found, ← List.length_pos_iff_ne_nil, length_cacheFind]
            exact List.length_pos_iff_ne_nil.mpr hcache
          exact .undisturbed (undisturbed_iff.mpr
            (hall _ hmem hepoch (slot_notMem hmiss hepoch)).1)
      · intro hsound s hs hat hnew
        rw [hset] at hs
        obtain rfl : s = c.slot e w text := (List.mem_or_eq_of_mem_set hs).resolve_left hnew
        cases hsound with
        | hit h =>
            rw [hmiss] at h
            cases h
        | noArray h =>
            rw [hok] at h
            cases h
        | epoch h => exact absurd h hat
        | unfit h => exact absurd hfits (h text hp)
        | undisturbed h =>
            have hcomplete := undisturbed_iff.mp h
            exact ⟨hcomplete, text, hcomplete.rows ▸ hp, rfl⟩

/-! ### Runs of list calls -/

/-- The slots in use hold whole lists. -/
def WholeSlots (w : World) : Prop :=
  ∀ s ∈ w.cache, s.cachedAt ≠ 0 → ∃ max, Platform.printPreallocated
    (listItems s.isArchived s.userId s.isOperator w.db) max = some s.json

theorem run_cache_ne (hcache : w.cache ≠ []) (h : c.run e w = (r, w')) : w'.cache ≠ [] := by
  have hfound : (c.found e w).2 ≠ [] := by
    rw [← List.length_pos_iff_ne_nil, found, length_cacheFind]
    exact List.length_pos_iff_ne_nil.mpr hcache
  cases (run_outcome h).2 with
  | hit _ _ _ hkept => rwa [hkept]
  | noArray _ _ hkept => rwa [hkept]
  | unstored _ _ _ hkept => rwa [hkept]
  | stored _ _ _ _ _ hset => rwa [hset, Ne, List.set_eq_nil_iff]

theorem WholeSlots.step (hw : WholeSlots w) (hcache : w.cache ≠ []) (hsound : c.Sound e w)
    (h : c.run e w = (r, w')) : WholeSlots w' := by
  have honly := (storesOnlyComplete_iff hcache).mpr hsound
  have hdb := (run_outcome h).1
  have hw' : (c.run e w).2 = w' := by rw [h]
  intro s hs hat
  rw [hdb]
  by_cases hold : s ∈ (c.found e w).2
  · exact hw s (mem_cacheFind hold hat) hat
  · obtain ⟨-, text, hp, rfl⟩ := honly s (hw' ▸ hs) hat hold
    exact ⟨c.max, hp⟩

/-- A hit among whole slots serves the whole list. -/
theorem WholeSlots.hit (hw : WholeSlots w) {s : CacheEntry} (hs : (c.found e w).1 = some s) :
    (c.run e w).1 = (s.json.length, overlay (s.json ++ [0]) c.buf) ∧
      ∃ max, Platform.printPreallocated (c.whole w) max = some s.json := by
  have hrun : c.run e w = ((c.run e w).1, (c.run e w).2) := rfl
  obtain ⟨hmem, hat, hkey⟩ := cacheFind_hit hs
  simp only [cacheKeyMatches, Bool.and_eq_true, decide_eq_true_eq] at hkey
  obtain ⟨⟨⟨hop, harch⟩, -⟩, huser⟩ := hkey
  have hwhole := hw s hmem hat
  rw [hop, harch, huser] at hwhole
  refine ⟨?_, hwhole⟩
  cases (run_outcome hrun).2 with
  | hit s' hs' hr _ =>
      rw [hs] at hs'
      obtain rfl := Option.some.inj hs'
      exact hr
  | noArray hmiss => exact absurd (hs.symm.trans hmiss) (by simp)
  | unstored hmiss => exact absurd (hs.symm.trans hmiss) (by simp)
  | stored _ hmiss => exact absurd (hs.symm.trans hmiss) (by simp)

/-- **Failures and the cache.**  After any list calls, with any calls into the database and any
allocations failing, a call stores only complete readings exactly when it is sound; and when
every call so far was sound, a hit serves the whole list of its user. -/
theorem failures_cached_iff {w₀ : World} {log : List (ListCall × (ℕ × Bytes))}
    (hrun : Run run e w₀ log w) (hcache : w₀.cache ≠ []) (c : ListCall) :
    (c.StoresOnlyComplete e w ↔ c.Sound e w) ∧
    (WholeSlots w₀ → Run.Each run e w₀ log (fun c w => c.Sound e w) →
      ∀ s, (c.found e w).1 = some s →
        (c.run e w).1 = (s.json.length, overlay (s.json ++ [0]) c.buf) ∧
        ∃ max, Platform.printPreallocated (c.whole w) max = some s.json) := by
  have hne : w.cache ≠ [] := hrun.invariant (I := fun _ w => w.cache ≠ []) hcache
    fun _ _ _ _ _ hne h => run_cache_ne hne h
  refine ⟨storesOnlyComplete_iff hne, fun h₀ heach s hs => ?_⟩
  have hwhole : w.cache ≠ [] ∧ WholeSlots w := by
    refine hrun.invariant_each (I := fun w => w.cache ≠ [] ∧ WholeSlots w) heach ⟨hcache, h₀⟩ ?_
    intro w c r w' hw hsound h
    exact ⟨run_cache_ne hw.1 h, hw.2.step hw.1 hsound h⟩
  exact hwhole.2.hit hs

end ListCall

end platform

/-! ### An empty list in the cache -/

/-- The fifth call into the database fails. -/
def cutEnv : @Env samplePlatform :=
  letI := samplePlatform
  { townEnv with fails := fun n => n = 4 }

/-- A citizen registers, logs in and submits a report. -/
def submittedRun : List ((HttpRequest × HttpResponse) × HttpResponse) × @World samplePlatform :=
  letI := samplePlatform
  Run.exec answer cutEnv (emptyWorld noSessions) [
    formRequest "/register" "" "username=ada&password=secret1&city=Torino&role=0",
    formRequest "/login" "" "username=ada&password=secret1",
    formRequest "/submit" "aaaaaaaaaaaaaaaaaaaaaaaaaaaaaaa0" "description=via%20Po&lat=45.1&lon=7.6"]

def citizenCall : ListCall :=
  ⟨false, [], responseBufferSize, 1, bytes "Torino", false, by decide, by decide⟩

/-- The list is asked for twice; the first time its cursor cannot be opened. -/
def cutRun : List (ListCall × (ℕ × Bytes)) × @World samplePlatform :=
  letI := samplePlatform
  Run.exec ListCall.run cutEnv submittedRun.2 [citizenCall, citizenCall]

/-- The list is asked for twice and nothing fails. -/
def uncutRun : List (ListCall × (ℕ × Bytes)) × @World samplePlatform :=
  letI := samplePlatform
  Run.exec ListCall.run townEnv submittedRun.2 [citizenCall, citizenCall]

theorem run_uncutRun :
    Run (@ListCall.run samplePlatform) townEnv submittedRun.2 uncutRun.1 uncutRun.2 :=
  Run.of_exec _ _ _ _

theorem failures_cached_uncutRun :
    letI := samplePlatform
    (uncutRun.1.map fun x => x.2.1) = [209, 209] ∧
    (citizenCall.StoresOnlyComplete townEnv uncutRun.2 ↔ citizenCall.Sound townEnv uncutRun.2) :=
  letI := samplePlatform
  have hfacts : (uncutRun.1.map fun x => x.2.1) = [209, 209] ∧ submittedRun.2.cache ≠ [] := by
    decide +kernel
  ⟨hfacts.1, (ListCall.failures_cached_iff run_uncutRun hfacts.2 citizenCall).1⟩

/-- The report of the citizen is in the database, and both answers are the empty array. -/
theorem failure_cached :
    letI := samplePlatform
    submittedRun.2.db.reports.map ReportRow.authorId = [1] ∧
    cutRun.1.map Prod.snd = [(2, bytes "[]" ++ [0]), (2, bytes "[]" ++ [0])] ∧
    ¬ citizenCall.StoresOnlyComplete cutEnv submittedRun.2 := by
  let := samplePlatform
  obtain ⟨hrows, hanswers, hmem, hat, hnew, hfail⟩ :
      submittedRun.2.db.reports.map ReportRow.authorId = [1] ∧
      cutRun.1.map Prod.snd = [(2, bytes "[]" ++ [0]), (2, bytes "[]" ++ [0])] ∧
      citizenCall.slot cutEnv submittedRun.2 (bytes "[]") ∈
        (citizenCall.run cutEnv submittedRun.2).2.cache ∧
      (citizenCall.slot cutEnv submittedRun.2 (bytes "[]")).cachedAt ≠ 0 ∧
      citizenCall.slot cutEnv submittedRun.2 (bytes "[]") ∉
        (citizenCall.found cutEnv submittedRun.2).2 ∧
      cutEnv.fails submittedRun.2.ctr.calls = true := by
    decide +kernel
  refine ⟨hrows, hanswers, fun h => ?_⟩
  have hprep := (h _ hmem hat hnew).1.prepared
  rw [hfail] at hprep
  cases hprep

end Segnalacity
