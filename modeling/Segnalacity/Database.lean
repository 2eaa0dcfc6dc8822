import Segnalacity.World

/-! # Statements, cursors and JSON building

The wrapper of `db.c` around SQLite.  A statement is a function on the database, `none` when a
constraint rejects it; preparing and stepping it may fail besides.  A cursor is the list of the
rows still to come, since no handler writes while it reads; `none` is the NULL cursor.  The
`cJSON` constructors allocate, so each of them may fail, and a field that could not be added is
missing from its object. -/

namespace Segnalacity

open CStr StateProg

variable [Platform]

/-! ### Statements -/

def dbExec (stmt : Database → Option Database) : App ℤ := do
  let ok ← attempt
  if !ok then pure (-1)
  else do
    let r ← Prog.view fun w => stmt w.db
    match r with
    | none => pure (-1)
    | some db => do
        Prog.update fun w => { w with db := db }
        pure 0

def dbChanges : App ℕ := Prog.view fun w => w.db.changes

def dbLastInsertId : App ℤ := Prog.view fun w => w.db.lastInsertRowid

/-! ### Cursors -/

def dbCursorOpen {α : Type} (query : Database → List α) : App (Option (List α)) := do
  let ok ← attempt
  if ok then Prog.view fun w => some (query w.db) else pure none

/-- `db_cursor_next`: the current row and the cursor behind it. -/
def dbCursorNext {α : Type} : Option (List α) → App (Option (α × List α))
  | none => pure none
  | some rows => do
      let ok ← attempt
      if ok then pure (rows.head?.map fun r => (r, rows.tail)) else pure none

/-- The pattern of every single-row lookup: open, step once, close. -/
def firstRow {α : Type} (query : Database → List α) : App (Option α) := do
  let c ← dbCursorOpen query
  let r ← dbCursorNext c
  pure (r.map Prod.fst)

/-- `while (db_cursor_next(c))` over the rows of an open cursor, collecting what the body adds. -/
def drainRows {α β : Type} (body : α → App (List β)) : List α → App (List β)
  | [] => do
      let _ ← attempt
      pure []
  | r :: rows => do
      let ok ← attempt
      if ok then do
        let x ← body r
        let xs ← drainRows body rows
        pure (x ++ xs)
      else pure []

def drainCursor {α β : Type} (body : α → App (List β)) : Option (List α) → App (List β)
  | none => pure []
  | some rows => drainRows body rows

/-! ### JSON building -/

/-- `cJSON_CreateArray` or `cJSON_CreateObject`: whether it returned an item. -/
def jsonCreate : App Bool := attemptAlloc

/-- The fields that could be added to an object. -/
def jsonAddFields : List (Bytes × JsonValue Double) → App (JsonObject Double)
  | [] => pure []
  | f :: fields => do
      let ok ← attemptAlloc
      let rest ← jsonAddFields fields
      pure (if ok then f :: rest else rest)

/-! ### Inserting and updating -/

/-- `INSERT` into a table with an `AUTOINCREMENT` key: the next rowid, if there is one. -/
def nextRowid (seq : ℤ) : Option ℤ := if seq < 2 ^ 63 - 1 then some (seq + 1) else none

/-- The keys of a table in rowid order and its sequence. -/
structure Keyed (ids : List ℤ) (seq : ℤ) : Prop where
  bounds : 0 ≤ seq ∧ seq < 2 ^ 63
  sorted : ids.Pairwise (· < ·)
  range : ∀ id ∈ ids, 0 < id ∧ id ≤ seq

omit [Platform] in
theorem keyed_nil : Keyed [] 0 := ⟨by omega, List.Pairwise.nil, by simp⟩

omit [Platform] in
theorem Keyed.append {ids : List ℤ} {seq id : ℤ} (h : Keyed ids seq) (hid : nextRowid seq = some id) :
    Keyed (ids ++ [id]) id := by
  unfold nextRowid at hid
  split_ifs at hid with hs
  obtain rfl := Option.some.inj hid
  have hseq := h.bounds
  refine ⟨by omega, ?_, ?_⟩
  · rw [List.pairwise_append]
    refine ⟨h.sorted, List.pairwise_singleton _ _, ?_⟩
    intro a ha b hb
    have := (h.range a ha).2
    rw [List.mem_singleton.mp hb]
    omega
  · intro a ha
    rcases List.mem_append.mp ha with ha | ha
    · have := h.range a ha
      omega
    · rw [List.mem_singleton.mp ha]
      omega

omit [Platform] in
/-- A key has at most one row. -/
theorem Keyed.eq_of_mem {α : Type} {rows : List α} {key : α → ℤ} {seq : ℤ}
    (h : Keyed (rows.map key) seq) {x y : α} (hx : x ∈ rows) (hy : y ∈ rows)
    (hxy : key x = key y) : x = y := by
  have hnodup : (rows.map key).Nodup := h.sorted.imp fun hlt => hlt.ne
  exact List.inj_on_of_nodup_map hnodup hx hy hxy

/-- `UPDATE reports SET f WHERE p`. -/
def updateReports (p : ReportRow → Sql.Tri) (f : ReportRow → ReportRow) (db : Database) :
    Option Database :=
  some { db with reports := Sql.update p f db.reports, changes := Sql.affected p db.reports }

/-! ### Runs -/

section runs
variable {e : Env} {w w' : World}

/-- A statement either fails and changes nothing, or it is carried out. -/
theorem dbExec_run {stmt : Database → Option Database} {rc : ℤ} (h : dbExec stmt e w = (rc, w')) :
    (rc = -1 ∧ w' = w.call ∧ (e.fails w.ctr.calls = true ∨ stmt w.db = none)) ∨
      (rc = 0 ∧ e.fails w.ctr.calls = false ∧
        ∃ db, stmt w.db = some db ∧ w' = { w.call with db := db }) := by
  obtain ⟨ok, w₁, h₁, h₂⟩ := Prog.bind_run_iff.mp h
  obtain ⟨rfl, rfl⟩ := attempt_run h₁
  cases hf : e.fails w.ctr.calls with
  | true =>
      rw [hf] at h₂
      obtain ⟨rfl, rfl⟩ := Prog.pure_run_iff.mp h₂
      exact Or.inl ⟨rfl, rfl, Or.inl rfl⟩
  | false =>
      rw [hf] at h₂
      obtain ⟨r, w₂, h₃, h₄⟩ := Prog.bind_run_iff.mp h₂
      obtain ⟨rfl, rfl⟩ := Prog.view_run_iff.mp h₃
      cases hs : stmt w.db with
      | none =>
          have hs' : stmt w.call.db = none := hs
          simp only [hs'] at h₄
          obtain ⟨rfl, rfl⟩ := Prog.pure_run_iff.mp h₄
          exact Or.inl ⟨rfl, rfl, Or.inr rfl⟩
      | some db =>
          have hs' : stmt w.call.db = some db := hs
          simp only [hs'] at h₄
          obtain ⟨_, w₃, h₅, h₆⟩ := Prog.bind_run_iff.mp h₄
          obtain rfl := Prog.update_run_iff.mp h₅
          obtain ⟨rfl, rfl⟩ := Prog.pure_run_iff.mp h₆
          exact Or.inr ⟨rfl, rfl, db, rfl, rfl⟩

/-- What a program that only reads may change: how many calls have been made. -/
structure ReadsOnly (w w' : World) : Prop where
  db : w'.db = w.db
  sessions : w'.sessions = w.sessions
  cache : w'.cache = w.cache
  ticks : w'.ctr.ticks = w.ctr.ticks

theorem ReadsOnly.refl (w : World) : ReadsOnly w w := ⟨rfl, rfl, rfl, rfl⟩

theorem ReadsOnly.trans {w₁ w₂ w₃ : World} (h : ReadsOnly w₁ w₂) (h' : ReadsOnly w₂ w₃) :
    ReadsOnly w₁ w₃ :=
  ⟨h'.db.trans h.db, h'.sessions.trans h.sessions, h'.cache.trans h.cache, h'.ticks.trans h.ticks⟩

theorem readsOnly_call (w : World) : ReadsOnly w w.call := ⟨rfl, rfl, rfl, rfl⟩

theorem dbCursorOpen_run {α : Type} {query : Database → List α} {c : Option (List α)}
    (h : dbCursorOpen query e w = (c, w')) :
    w' = w.call ∧ c = if e.fails w.ctr.calls then none else some (query w.db) := by
  obtain ⟨ok, w₁, h₁, h₂⟩ := Prog.bind_run_iff.mp h
  obtain ⟨rfl, rfl⟩ := attempt_run h₁
  cases hf : e.fails w.ctr.calls with
  | true =>
      rw [hf] at h₂
      obtain ⟨rfl, rfl⟩ := Prog.pure_run_iff.mp h₂
      exact ⟨rfl, rfl⟩
  | false =>
      simp only [hf, Bool.not_false, if_true] at h₂
      obtain ⟨rfl, rfl⟩ := Prog.view_run_iff.mp h₂
      exact ⟨rfl, rfl⟩

/-- A lookup finds the first row of the query unless one of its two calls fails. -/
theorem firstRow_run {α : Type} {query : Database → List α} {r : Option α}
    (h : firstRow query e w = (r, w')) :
    (w' = w.call ∧ e.fails w.ctr.calls = true ∧ r = none) ∨
      (w' = w.call.call ∧ e.fails w.ctr.calls = false ∧
        r = if e.fails (w.ctr.calls + 1) then none else (query w.db).head?) := by
  obtain ⟨c, w₁, h₁, h₂⟩ := Prog.bind_run_iff.mp h
  obtain ⟨rfl, rfl⟩ := dbCursorOpen_run h₁
  obtain ⟨n, w₂, h₃, h₄⟩ := Prog.bind_run_iff.mp h₂
  obtain ⟨rfl, rfl⟩ := Prog.pure_run_iff.mp h₄
  cases hf : e.fails w.ctr.calls with
  | true =>
      rw [hf] at h₃
      obtain ⟨rfl, rfl⟩ := Prog.pure_run_iff.mp h₃
      exact Or.inl ⟨rfl, rfl, rfl⟩
  | false =>
      rw [hf] at h₃
      obtain ⟨ok, w₃, h₅, h₆⟩ := Prog.bind_run_iff.mp h₃
      obtain ⟨rfl, rfl⟩ := attempt_run h₅
      have hcall : w.call.ctr.calls = w.ctr.calls + 1 := rfl
      rw [hcall] at h₆
      cases hf' : e.fails (w.ctr.calls + 1) with
      | true =>
          rw [hf'] at h₆
          obtain ⟨rfl, rfl⟩ := Prog.pure_run_iff.mp h₆
          exact Or.inr ⟨rfl, rfl, rfl⟩
      | false =>
          rw [hf'] at h₆
          obtain ⟨rfl, rfl⟩ := Prog.pure_run_iff.mp h₆
          refine Or.inr ⟨rfl, rfl, ?_⟩
          cases query w.db <;> rfl

theorem firstRow_readsOnly {α : Type} {query : Database → List α} {r : Option α}
    (h : firstRow query e w = (r, w')) : ReadsOnly w w' := by
  rcases firstRow_run h with ⟨rfl, -⟩ | ⟨rfl, -⟩
  · exact readsOnly_call w
  · exact (readsOnly_call w).trans (readsOnly_call _)

/-- A row that a lookup returns is the first one of the query. -/
theorem firstRow_some {α : Type} {query : Database → List α} {r : α}
    (h : firstRow query e w = (some r, w')) : (query w.db).head? = some r := by
  rcases firstRow_run h with ⟨-, -, hr⟩ | ⟨-, -, hr⟩
  · cases hr
  · split_ifs at hr
    exact hr.symm

/-- `n` calls into the database were made and all succeeded. -/
structure Succeeded (e : Env) (n : ℕ) (w w' : World) : Prop where
  calls : w'.ctr.calls = w.ctr.calls + n
  ok : ∀ i < n, e.fails (w.ctr.calls + i) = false

theorem Succeeded.one (hcalls : w'.ctr.calls = w.ctr.calls + 1)
    (hf : e.fails w.ctr.calls = false) : Succeeded e 1 w w' := by
  refine ⟨hcalls, fun i hi => ?_⟩
  obtain rfl : i = 0 := by omega
  exact hf

theorem Succeeded.trans {m n : ℕ} {w₁ w₂ w₃ : World} (h : Succeeded e m w₁ w₂)
    (h' : Succeeded e n w₂ w₃) : Succeeded e (m + n) w₁ w₃ := by
  refine ⟨by rw [h'.calls, h.calls, Nat.add_assoc], fun i hi => ?_⟩
  by_cases him : i < m
  · exact h.ok i him
  · have hok := h'.ok (i - m) (by omega)
    rw [h.calls] at hok
    rw [← hok]
    congr 1
    omega

theorem firstRow_succeeded {α : Type} {query : Database → List α} {x : α}
    (h : firstRow query e w = (some x, w')) : Succeeded e 2 w w' := by
  rcases firstRow_run h with ⟨-, -, hx⟩ | ⟨rfl, hf, hx⟩
  · cases hx
  · split_ifs at hx with hf'
    refine ⟨rfl, fun i hi => ?_⟩
    have hi' : i = 0 ∨ i = 1 := by omega
    rcases hi' with rfl | rfl
    · exact hf
    · simpa using hf'

end runs

end Segnalacity
