import Segnalacity.Database

/-! # Reports

`report.c`: the cache of rendered lists, the guarded writes and the reads.  The five writes after
insertion have one shape: an `UPDATE` whose `WHERE` clause is the guard, the row count as the
answer, and the invalidation of the cache entries that the row may appear in (`guardedUpdate`). -/

namespace Segnalacity

open CStr StateProg Sql

def cacheTtlSeconds : ℤ := 5
def cacheMaxEntries : ℕ := 32
def cacheJsonMax : ℕ := 16 * 1024

/-! ### The cache -/

def cacheKeyMatches (city : Bytes) (userId : UInt64) (isOperator isArchived : Bool)
    (e : CacheEntry) : Bool :=
  e.isOperator = isOperator && e.isArchived = isArchived && strncmpEq e.city city cityLen &&
    e.userId = userId

/-- The loop of `cache_find`: the entry found, and the slots with the expired ones passed on the
way freed. -/
def cacheFind (now : ℤ) (city : Bytes) (userId : UInt64) (isOperator isArchived : Bool) :
    List CacheEntry → Option CacheEntry × List CacheEntry
  | [] => (none, [])
  | e :: es =>
      let rest := cacheFind now city userId isOperator isArchived es
      if e.cachedAt = 0 then (rest.1, e :: rest.2)
      else if now - e.cachedAt > cacheTtlSeconds then (rest.1, { e with cachedAt := 0 } :: rest.2)
      else if cacheKeyMatches city userId isOperator isArchived e then (some e, e :: es)
      else (rest.1, e :: rest.2)

/-- The slot `cache_store` writes: the first free one, else the first oldest one. -/
def cacheSlotFrom (i oldestIdx : ℕ) (oldestTime : ℤ) : List CacheEntry → ℕ
  | [] => oldestIdx
  | e :: es =>
      if e.cachedAt = 0 then i
      else if e.cachedAt < oldestTime then cacheSlotFrom (i + 1) i e.cachedAt es
      else cacheSlotFrom (i + 1) oldestIdx oldestTime es

def cacheSlot (cache : List CacheEntry) : ℕ :=
  cacheSlotFrom 0 0 (cache.head?.elim 0 CacheEntry.cachedAt) cache

/-- `report_cache_invalidate_city` on one slot. -/
def invalidateEntry (city : Bytes) (authorId : UInt64) (e : CacheEntry) : CacheEntry :=
  if e.cachedAt = 0 then e
  else if !strncmpEq e.city city cityLen then e
  else if e.isOperator || e.userId = authorId then { e with cachedAt := 0 }
  else e

variable [Platform]

def reportCacheInvalidateCity (city : Bytes) (authorId : UInt64) : App Unit :=
  Prog.update fun w => { w with cache := w.cache.map (invalidateEntry city authorId) }

def cacheStore (city : Bytes) (userId : UInt64) (isOperator isArchived : Bool) (json : Bytes) :
    App Unit := do
  if json.length ≥ cacheJsonMax then pure ()
  else do
    let t ← now
    Prog.update fun w => { w with
      cache := w.cache.set (cacheSlot w.cache)
        ⟨strncpy city (cityLen - 1), userId, isOperator, isArchived, t, json⟩ }

/-! ### Rows -/

def cursorToReport (r : ReportRow) : Report where
  reportId := u64 r.id
  authorId := u64 r.authorId
  assignedTo := u64 (r.assignedTo.getD 0)
  lat := r.lat
  lon := r.lon
  createdAt := r.createdAt
  assignedAt := r.assignedAt.getD 0
  resolvedAt := r.resolvedAt.getD 0
  city := strncpy r.city (cityLen - 1)
  category := strncpy r.category (catLen - 1)
  status := ReportStatus.ofInt r.status
  feedback := (r.feedback.getD 0).bmod (2 ^ 32)
  description := strncpy r.description (descLen - 1)

def reportFields (r : Report) : List (Bytes × JsonValue Double) := [
  (bytes "id", .number r.reportId.toNat),
  (bytes "author_id", .number r.authorId.toNat),
  (bytes "assigned_to", .number r.assignedTo.toNat),
  (bytes "lat", .real r.lat),
  (bytes "lon", .real r.lon),
  (bytes "city", .string r.city),
  (bytes "category", .string r.category),
  (bytes "description", .string r.description),
  (bytes "status", .number r.status.toInt),
  (bytes "created_at", .number r.createdAt),
  (bytes "assigned_at", .number r.assignedAt),
  (bytes "resolved_at", .number r.resolvedAt),
  (bytes "feedback", .number r.feedback)]

def reportToCjson (r : Report) : App (Option (JsonObject Double)) := do
  let created ← jsonCreate
  if created then do
    let obj ← jsonAddFields (reportFields r)
    pure (some obj)
  else pure none

/-- `cJSON_PrintPreallocated` with its error path: the length and the buffer. -/
def printArray (items : List (JsonObject Double)) (buf : Bytes) (max : ℕ) : ℕ × Bytes :=
  match Platform.printPreallocated items max with
  | none => (0, overlay [0] (Platform.printResidue items max buf))
  | some text => (text.length, overlay (text ++ [0]) buf)

theorem printArray_none {items : List (JsonObject Double)} {max : ℕ}
    (h : Platform.printPreallocated items max = none) (buf : Bytes) :
    printArray items buf max = (0, overlay [0] (Platform.printResidue items max buf)) := by
  rw [printArray, h]

theorem printArray_some {items : List (JsonObject Double)} {max : ℕ} {text : Bytes}
    (h : Platform.printPreallocated items max = some text) (buf : Bytes) :
    printArray items buf max = (text.length, overlay (text ++ [0]) buf) := by
  rw [printArray, h]

/-- An array that fits is read back from the buffer. -/
theorem printArray_fits {items : List (JsonObject Double)} {buf : Bytes} {max : ℕ}
    (h : (Platform.printPreallocated items max).isSome) :
    Platform.printPreallocated items max =
      some ((printArray items buf max).2.take (printArray items buf max).1) := by
  obtain ⟨text, ht⟩ := Option.isSome_iff_exists.mp h
  rw [printArray_some ht, take_overlay_text, ht]

theorem printArray_take {items : List (JsonObject Double)} {buf : Bytes} {max : ℕ}
    (h : 0 < (printArray items buf max).1) :
    Platform.printPreallocated items max =
      some ((printArray items buf max).2.take (printArray items buf max).1) := by
  refine printArray_fits (Option.isSome_iff_ne_none.mpr fun hnone => ?_)
  rw [printArray_none hnone] at h
  exact lt_irrefl 0 h

/-- `cursor_to_json_array`; the NULL cursor yields the empty array. -/
def cursorToJsonArray (c : Option (List ReportRow)) (buf : Bytes) (max : ℕ) : App (ℕ × Bytes) := do
  let array ← jsonCreate
  if !array then pure (0, overlay [0] buf)
  else do
    let items ← drainCursor (fun row => do
      let obj ← reportToCjson (cursorToReport row)
      pure obj.toList) c
    pure (printArray items buf max)

/-! ### Reads by key -/

def selectReportsById (id : UInt64) (db : Database) : List ReportRow :=
  Sql.select (fun r => eq3 (some r.id) (some (i64 id))) db.reports

def reportGetById (reportId : UInt64) : App (Option Report) := do
  let row ← firstRow (selectReportsById reportId)
  pure (row.map cursorToReport)

/-! ### Writes -/

/-- `INSERT INTO reports`; a NaN coordinate is bound as NULL, which its column rejects. -/
def insertReport (authorId : UInt64) (lat lon : Double) (city category desc : Bytes)
    (createdAt : ℤ) (db : Database) : Option Database :=
  if Platform.isNaN lat || Platform.isNaN lon then none
  else match nextRowid db.reportSeq with
    | none => none
    | some id => some { db with
        reports := db.reports ++ [{
          id := id, authorId := i64 authorId, assignedTo := none, lat := lat, lon := lon
          city := cstr city, category := cstr category, description := cstr desc
          status := 0, createdAt := createdAt, assignedAt := none, resolvedAt := none
          feedback := none }]
        reportSeq := id
        lastInsertRowid := id
        changes := 1 }

def reportInsert (authorId : UInt64) (lat lon : Double) (city category desc : Bytes) :
    App UInt64 := do
  let t ← now
  let rc ← dbExec (insertReport authorId lat lon city category desc t)
  if rc ≠ 0 then pure 0
  else do
    let id ← dbLastInsertId
    if id ≤ 0 then pure 0
    else do
      reportCacheInvalidateCity city authorId
      pure (u64 id)

/-- The guarded `UPDATE` of one report: 1 if the guard held, 0 if not, -1 on error. -/
def guardedUpdate (guard : ReportRow → Tri) (set : ReportRow → ReportRow) (reportId : UInt64) :
    App ℤ := do
  let rc ← dbExec (updateReports guard set)
  if rc ≠ 0 then pure (-1)
  else do
    let n ← dbChanges
    if n = 0 then pure 0
    else do
      let r ← reportGetById reportId
      match r with
      | none => pure 1
      | some r => do
          reportCacheInvalidateCity r.city r.authorId
          pure 1

/-- `id = ? AND status = 0 AND assigned_to IS NULL`. -/
def assignGuard (reportId : UInt64) (r : ReportRow) : Tri :=
  and3 (and3 (eq3 (some r.id) (some (i64 reportId))) (eq3 (some r.status) (some 0)))
    (isNull r.assignedTo)

/-- `id = ? AND assigned_to = ? AND status = ?`. -/
def operatorGuard (reportId operatorId : UInt64) (status : ℤ) (r : ReportRow) : Tri :=
  and3 (and3 (eq3 (some r.id) (some (i64 reportId))) (eq3 r.assignedTo (some (i64 operatorId))))
    (eq3 (some r.status) (some status))

/-- `id = ? AND author_id = ? AND status = 3 AND feedback IS NULL`. -/
def feedbackGuard (reportId authorId : UInt64) (r : ReportRow) : Tri :=
  and3 (and3 (and3 (eq3 (some r.id) (some (i64 reportId)))
    (eq3 (some r.authorId) (some (i64 authorId)))) (eq3 (some r.status) (some 3)))
    (isNull r.feedback)

/-- `id = ? AND status = 1`. -/
def resetGuard (reportId : UInt64) (r : ReportRow) : Tri :=
  and3 (eq3 (some r.id) (some (i64 reportId))) (eq3 (some r.status) (some 1))

/-- `SET status = 0, assigned_to = NULL, assigned_at = NULL`. -/
def unassign (r : ReportRow) : ReportRow :=
  { r with status := 0, assignedTo := none, assignedAt := none }

def reportAssign (reportId operatorId : UInt64) : App ℤ := do
  let t ← now
  guardedUpdate (assignGuard reportId)
    (fun r => { r with status := 1, assignedTo := some (i64 operatorId), assignedAt := some t })
    reportId

def reportAccept (reportId operatorId : UInt64) : App ℤ :=
  guardedUpdate (operatorGuard reportId operatorId 1) (fun r => { r with status := 2 }) reportId

def reportReject (reportId operatorId : UInt64) : App ℤ :=
  guardedUpdate (operatorGuard reportId operatorId 1) unassign reportId

def reportResolve (reportId operatorId : UInt64) : App ℤ := do
  let t ← now
  guardedUpdate (operatorGuard reportId operatorId 2)
    (fun r => { r with status := 3, resolvedAt := some t }) reportId

def reportSetFeedback (reportId authorId : UInt64) (stars : ℤ) : App ℤ :=
  if stars < 1 ∨ stars > 5 then pure (-1)
  else guardedUpdate (feedbackGuard reportId authorId) (fun r => { r with feedback := some stars })
    reportId

/-- The raw `UPDATE` in `route_api_admin_assign`. -/
def resetReport (reportId : UInt64) : App ℤ :=
  dbExec (updateReports (resetGuard reportId) unassign)

/-! ### Lists -/

def selectActive (userId : UInt64) (isOperator : Bool) (db : Database) : List ReportRow :=
  if isOperator then
    Platform.orderDesc ReportRow.assignedAt
      (Sql.select (fun r => and3 (eq3 r.assignedTo (some (i64 userId)))
        (or3 (eq3 (some r.status) (some 1)) (eq3 (some r.status) (some 2)))) db.reports)
  else
    Platform.orderDesc (fun r => some r.createdAt)
      (Sql.select (fun r => and3 (eq3 (some r.authorId) (some (i64 userId)))
        (lt3 (some r.status) (some 3))) db.reports)

def selectArchived (userId : UInt64) (isOperator : Bool) (db : Database) : List ReportRow :=
  if isOperator then
    Platform.orderDesc ReportRow.resolvedAt
      (Sql.select (fun r => and3 (eq3 r.assignedTo (some (i64 userId)))
        (eq3 (some r.status) (some 3))) db.reports)
  else
    Platform.orderDesc ReportRow.resolvedAt
      (Sql.select (fun r => and3 (eq3 (some r.authorId) (some (i64 userId)))
        (eq3 (some r.status) (some 3))) db.reports)

/-- The cached list of one user: a hit is copied, a miss is read, printed and stored. -/
def cachedList (query : UInt64 → Bool → Database → List ReportRow) (isArchived : Bool)
    (buf : Bytes) (max : ℕ) (userId : UInt64) (city : Bytes) (isOperator : Bool) :
    App (ℕ × Bytes) := do
  let t ← now
  let hit ← Prog.view fun w => (cacheFind t city userId isOperator isArchived w.cache).1
  Prog.update fun w =>
    { w with cache := (cacheFind t city userId isOperator isArchived w.cache).2 }
  match hit with
  | some entry => pure (entry.json.length, overlay (entry.json ++ [0]) buf)
  | none => do
      let c ← dbCursorOpen (query userId isOperator)
      let r ← cursorToJsonArray c buf max
      if r.1 > 0 then do
        cacheStore city userId isOperator isArchived (r.2.take r.1)
        pure r
      else pure r

def reportGetActiveJson (buf : Bytes) (max : ℕ) (userId : UInt64) (city : Bytes)
    (isOperator : Bool) : App (ℕ × Bytes) :=
  cachedList selectActive false buf max userId city isOperator

def reportGetArchivedJson (buf : Bytes) (max : ℕ) (userId : UInt64) (city : Bytes)
    (isOperator : Bool) : App (ℕ × Bytes) :=
  cachedList selectArchived true buf max userId city isOperator

/-- `LEFT JOIN users u ON u.id = r.assigned_to`, with the operator's name or the empty string. -/
def selectAllCity (city : Bytes) (db : Database) : List (ReportRow × Bytes) :=
  let rows := Sql.select (fun r => eq3 (some r.city) (some (cstr city))) db.reports
  Platform.orderDesc (fun x => some x.1.createdAt) (rows.flatMap fun r =>
    match Sql.select (fun u => eq3 (some u.id) r.assignedTo) db.users with
    | [] => [(r, [])]
    | us => us.map fun u => (r, u.username))

/-- One row of the admin view; without its object the row is dropped. -/
def allCityItem (x : ReportRow × Bytes) : App (List (JsonObject Double)) := do
  let obj ← reportToCjson (cursorToReport x.1)
  match obj with
  | none => pure []
  | some obj => do
      let name ← jsonAddFields [(bytes "operator_name", .string x.2)]
      pure [obj ++ name]

def reportGetAllCityJson (buf : Bytes) (max : ℕ) (city : Bytes) : App (ℕ × Bytes) := do
  let c ← dbCursorOpen (selectAllCity city)
  match c with
  | none => pure (0, if max > 2 then overlay (bytes "[]" ++ [0]) buf else buf)
  | some rows => do
      let array ← jsonCreate
      if !array then pure (0, overlay [0] buf)
      else do
        let items ← drainRows allCityItem rows
        pure (printArray items buf max)

/-! ### Runs of the writes -/

/-- What no report operation touches. -/
structure SameAccounts (w w' : World) : Prop where
  users : w'.db.users = w.db.users
  userSeq : w'.db.userSeq = w.db.userSeq
  sessions : w'.sessions = w.sessions

theorem SameAccounts.refl (w : World) : SameAccounts w w := ⟨rfl, rfl, rfl⟩

theorem SameAccounts.trans {w₁ w₂ w₃ : World} (h : SameAccounts w₁ w₂) (h' : SameAccounts w₂ w₃) :
    SameAccounts w₁ w₃ :=
  ⟨h'.users.trans h.users, h'.userSeq.trans h.userSeq, h'.sessions.trans h.sessions⟩

theorem ReadsOnly.sameAccounts {w w' : World} (h : ReadsOnly w w') : SameAccounts w w' :=
  ⟨by rw [h.db], by rw [h.db], h.sessions⟩

section runs
variable {e : Env} {w w' : World}

theorem reportGetById_run {id : UInt64} {r : Option Report} (h : reportGetById id e w = (r, w')) :
    ReadsOnly w w' ∧ ∀ x ∈ r, ∃ row ∈ w.db.reports, row.id = i64 id ∧ x = cursorToReport row := by
  obtain ⟨row, w₁, h₁, h₂⟩ := Prog.bind_run_iff.mp h
  obtain ⟨rfl, rfl⟩ := Prog.pure_run_iff.mp h₂
  refine ⟨firstRow_readsOnly h₁, ?_⟩
  intro x hx
  obtain ⟨row', rfl, rfl⟩ := Option.map_eq_some_iff.mp hx
  obtain ⟨hmem, hid⟩ := of_head?_select (firstRow_some h₁)
  obtain ⟨v, hv, hv'⟩ := (holds_eq3 _ _).mp hid
  exact ⟨row', hmem, (Option.some.inj hv).trans (Option.some.inj hv').symm, rfl⟩

theorem reportGetById_succeeded {id : UInt64} {r : Report}
    (h : reportGetById id e w = (some r, w')) : Succeeded e 2 w w' := by
  obtain ⟨row, w₁, h₁, h₂⟩ := Prog.bind_run_iff.mp h
  obtain ⟨hr, rfl⟩ := Prog.pure_run_iff.mp h₂
  obtain ⟨row', rfl, -⟩ := Option.map_eq_some_iff.mp hr.symm
  exact firstRow_succeeded h₁

/-- The three outcomes of a guarded update: an error, no row, or the rows that met the guard
changed and the cache entries of the row read back invalidated. -/
inductive Updated (guard : ReportRow → Tri) (set : ReportRow → ReportRow) (reportId : UInt64)
    (e : Env) (w w' : World) : ℤ → Prop
  | error : e.fails w.ctr.calls = true → w'.db = w.db → w'.cache = w.cache →
      Updated guard set reportId e w w' (-1)
  | missed : e.fails w.ctr.calls = false → affected guard w.db.reports = 0 →
      w'.db.reports = w.db.reports → w'.cache = w.cache →
      w'.ctr.calls = w.ctr.calls + 1 → Updated guard set reportId e w w' 0
  | done (r : Option Report) (w₁ w₂ : World) : e.fails w.ctr.calls = false →
      affected guard w.db.reports ≠ 0 → w'.db.reports = update guard set w.db.reports →
      w₁.db.reports = update guard set w.db.reports → w₁.ctr.calls = w.ctr.calls + 1 →
      reportGetById reportId e w₁ = (r, w₂) →
      w'.cache = (match r with
        | none => w.cache
        | some r => w.cache.map (invalidateEntry r.city r.authorId)) →
      Updated guard set reportId e w w' 1

theorem guardedUpdate_run {guard : ReportRow → Tri} {set : ReportRow → ReportRow}
    {reportId : UInt64} {rc : ℤ} (h : guardedUpdate guard set reportId e w = (rc, w')) :
    SameAccounts w w' ∧ w'.db.reportSeq = w.db.reportSeq ∧ w'.ctr.ticks = w.ctr.ticks ∧
      Updated guard set reportId e w w' rc := by
  obtain ⟨rc₁, w₁, h₁, h₂⟩ := Prog.bind_run_iff.mp h
  rcases dbExec_run h₁ with ⟨rfl, rfl, hf⟩ | ⟨rfl, hf, db, hdb, rfl⟩
  · obtain ⟨rfl, rfl⟩ := Prog.pure_run_iff.mp h₂
    have hfail : e.fails w.ctr.calls = true := hf.resolve_right (by simp [updateReports])
    exact ⟨⟨rfl, rfl, rfl⟩, rfl, rfl, .error hfail rfl rfl⟩
  · obtain rfl := Option.some.inj hdb
    rw [if_neg (by simp)] at h₂
    obtain ⟨n, w₂, h₃, h₄⟩ := Prog.bind_run_iff.mp h₂
    obtain ⟨rfl, rfl⟩ := Prog.view_run_iff.mp h₃
    rw [Prog.ite_run] at h₄
    split_ifs at h₄ with hn
    · obtain ⟨rfl, rfl⟩ := Prog.pure_run_iff.mp h₄
      exact ⟨⟨rfl, rfl, rfl⟩, rfl, rfl, .missed hf hn (update_of_affected_zero hn) rfl rfl⟩
    · obtain ⟨r, w₃, h₅, h₆⟩ := Prog.bind_run_iff.mp h₄
      have hread := (reportGetById_run h₅).1
      cases r with
      | none =>
          obtain ⟨rfl, rfl⟩ := Prog.pure_run_iff.mp h₆
          exact ⟨⟨by rw [hread.db], by rw [hread.db], hread.sessions⟩, by rw [hread.db],
            hread.ticks, .done none _ _ hf hn (by rw [hread.db]) rfl rfl h₅ hread.cache⟩
      | some r =>
          obtain ⟨_, w₄, h₇, h₈⟩ := Prog.bind_run_iff.mp h₆
          obtain rfl := Prog.update_run_iff.mp h₇
          obtain ⟨rfl, rfl⟩ := Prog.pure_run_iff.mp h₈
          refine ⟨⟨by simp [hread.db], by simp [hread.db], hread.sessions⟩, by simp [hread.db],
            hread.ticks, .done (some r) _ _ hf hn (by simp [hread.db]) rfl rfl h₅ ?_⟩
          exact congrArg (List.map (invalidateEntry r.city r.authorId)) hread.cache

/-- The reset either fails and changes nothing, or opens the report if it is only assigned. -/
theorem resetReport_run {reportId : UInt64} {rc : ℤ} (h : resetReport reportId e w = (rc, w')) :
    SameAccounts w w' ∧ w'.db.reportSeq = w.db.reportSeq ∧ w'.ctr.ticks = w.ctr.ticks ∧
      w'.ctr.calls = w.ctr.calls + 1 ∧ w'.cache = w.cache ∧
      ((rc = -1 ∧ e.fails w.ctr.calls = true ∧ w'.db = w.db) ∨
        (rc = 0 ∧ e.fails w.ctr.calls = false ∧
          w'.db.reports = update (resetGuard reportId) unassign w.db.reports)) := by
  rcases dbExec_run h with ⟨rfl, rfl, hf⟩ | ⟨rfl, hf, db, hdb, rfl⟩
  · have hfail : e.fails w.ctr.calls = true := hf.resolve_right (by simp [updateReports])
    exact ⟨⟨rfl, rfl, rfl⟩, rfl, rfl, rfl, rfl, Or.inl ⟨rfl, hfail, rfl⟩⟩
  · obtain rfl := Option.some.inj hdb
    exact ⟨⟨rfl, rfl, rfl⟩, rfl, rfl, rfl, rfl, Or.inr ⟨rfl, hf, rfl⟩⟩

/-- `report_insert` either fails and changes nothing, or appends one open row with the next id. -/
theorem reportInsert_run {authorId : UInt64} {lat lon : Double} {city category desc : Bytes}
    {id : UInt64} (h : reportInsert authorId lat lon city category desc e w = (id, w')) :
    SameAccounts w w' ∧ w'.ctr.ticks = w.ctr.ticks + 1 ∧
      ((id = 0 ∧ w'.db = w.db ∧ w'.cache = w.cache) ∨
        ∃ db, insertReport authorId lat lon city category desc (e.clock w.ctr.ticks) w.db = some db ∧
          w'.db = db ∧ e.fails w.ctr.calls = false ∧
          ((id = 0 ∧ db.reportSeq ≤ 0 ∧ w'.cache = w.cache) ∨
            (id = u64 db.reportSeq ∧ 0 < db.reportSeq ∧
              w'.cache = w.cache.map (invalidateEntry city authorId)))) := by
  obtain ⟨t, w₁, h₁, h₂⟩ := Prog.bind_run_iff.mp h
  obtain ⟨rfl, rfl⟩ := now_run h₁
  obtain ⟨rc, w₂, h₃, h₄⟩ := Prog.bind_run_iff.mp h₂
  rcases dbExec_run h₃ with ⟨rfl, rfl, -⟩ | ⟨rfl, hf, db, hdb, rfl⟩
  · obtain ⟨rfl, rfl⟩ := Prog.pure_run_iff.mp h₄
    exact ⟨⟨rfl, rfl, rfl⟩, rfl, Or.inl ⟨rfl, rfl, rfl⟩⟩
  · rw [if_neg (by simp)] at h₄
    obtain ⟨n, w₃, h₅, h₆⟩ := Prog.bind_run_iff.mp h₄
    obtain ⟨rfl, rfl⟩ := Prog.view_run_iff.mp h₅
    have hsame : db.users = w.db.users ∧ db.userSeq = w.db.userSeq ∧
        db.lastInsertRowid = db.reportSeq := by
      have hdb' := hdb
      unfold insertReport at hdb'
      split at hdb'
      · cases hdb'
      · split at hdb'
        · cases hdb'
        · obtain rfl := Option.some.inj hdb'
          exact ⟨rfl, rfl, rfl⟩
    rw [Prog.ite_run] at h₆
    split_ifs at h₆ with hn
    · obtain ⟨rfl, rfl⟩ := Prog.pure_run_iff.mp h₆
      have hseq : db.reportSeq ≤ 0 := by rw [← hsame.2.2]; exact hn
      exact ⟨⟨hsame.1, hsame.2.1, rfl⟩, rfl, Or.inr ⟨db, hdb, rfl, hf, Or.inl ⟨rfl, hseq, rfl⟩⟩⟩
    · obtain ⟨_, w₄, h₇, h₈⟩ := Prog.bind_run_iff.mp h₆
      obtain rfl := Prog.update_run_iff.mp h₇
      obtain ⟨rfl, rfl⟩ := Prog.pure_run_iff.mp h₈
      have hseq : 0 < db.reportSeq := by rw [← hsame.2.2]; exact not_le.mp hn
      refine ⟨⟨hsame.1, hsame.2.1, rfl⟩, rfl, Or.inr ⟨db, hdb, rfl, hf, Or.inr ⟨?_, hseq, rfl⟩⟩⟩
      show u64 db.lastInsertRowid = u64 db.reportSeq
      rw [hsame.2.2]

end runs

end Segnalacity
