import Segnalacity.Report

/-! # Lists without failures

When neither the database nor an allocation fails, a cursor is drained to its end, every object
has all its fields, and the body of a list is the text of its rows, if it fits. -/

namespace Segnalacity

open CStr StateProg Sql

variable [Platform]

/-- No database call and no allocation fails. -/
structure Unfailing (e : Env) : Prop where
  calls : ∀ n, e.fails n = false
  allocs : ∀ n, e.allocFails n = false

section runs
variable {e : Env} {w w' : World}

theorem Unfailing.attempt_run (he : Unfailing e) {ok : Bool} (h : attempt e w = (ok, w')) :
    ok = true := by
  rw [(Segnalacity.attempt_run h).1, he.calls]
  rfl

theorem Unfailing.attemptAlloc_run (he : Unfailing e) {ok : Bool}
    (h : attemptAlloc e w = (ok, w')) : ok = true := by
  rw [(Segnalacity.attemptAlloc_run h).1, he.allocs]
  rfl

theorem Unfailing.dbCursorOpen_run (he : Unfailing e) {α : Type} {query : Database → List α}
    {c : Option (List α)} (h : dbCursorOpen query e w = (c, w')) : c = some (query w.db) := by
  rw [(Segnalacity.dbCursorOpen_run h).2, he.calls]
  rfl

/-- A cursor yields what its body makes of every row. -/
theorem Unfailing.drainRows_run (he : Unfailing e) {α β : Type} {body : α → App (List β)}
    {g : α → List β} (hbody : ∀ r w x w', body r e w = (x, w') → x = g r) {rows : List α}
    {items : List β} (h : drainRows body rows e w = (items, w')) : items = rows.flatMap g := by
  induction rows generalizing w w' items with
  | nil =>
      obtain ⟨ok, w₁, -, h₂⟩ := Prog.bind_run_iff.mp h
      exact (Prog.pure_run_iff.mp h₂).1
  | cons r rows ih =>
      obtain ⟨ok, w₁, h₁, h₂⟩ := Prog.bind_run_iff.mp h
      obtain rfl := he.attempt_run h₁
      rcases Prog.ite_run_iff.mp h₂ with ⟨-, h₃⟩ | ⟨hno, -⟩
      · obtain ⟨x, w₂, h₄, h₅⟩ := Prog.bind_run_iff.mp h₃
        obtain ⟨xs, w₃, h₆, h₇⟩ := Prog.bind_run_iff.mp h₅
        obtain ⟨rfl, -⟩ := Prog.pure_run_iff.mp h₇
        rw [hbody r _ _ _ h₄, ih h₆, List.flatMap_cons]
      · exact absurd rfl hno

theorem Unfailing.jsonAddFields_run (he : Unfailing e) {fields : List (Bytes × JsonValue Double)}
    {obj : JsonObject Double} (h : jsonAddFields fields e w = (obj, w')) : obj = fields := by
  induction fields generalizing w w' obj with
  | nil => exact (Prog.pure_run_iff.mp h).1
  | cons f fields ih =>
      obtain ⟨ok, w₁, h₁, h₂⟩ := Prog.bind_run_iff.mp h
      obtain rfl := he.attemptAlloc_run h₁
      obtain ⟨rest, w₂, h₃, h₄⟩ := Prog.bind_run_iff.mp h₂
      obtain ⟨rfl, -⟩ := Prog.pure_run_iff.mp h₄
      rw [ih h₃, if_pos rfl]

theorem Unfailing.reportToCjson_run (he : Unfailing e) {r : Report}
    {obj : Option (JsonObject Double)} (h : reportToCjson r e w = (obj, w')) :
    obj = some (reportFields r) := by
  obtain ⟨ok, w₁, h₁, h₂⟩ := Prog.bind_run_iff.mp h
  obtain rfl := he.attemptAlloc_run h₁
  rcases Prog.ite_run_iff.mp h₂ with ⟨-, h₃⟩ | ⟨hno, -⟩
  · obtain ⟨fields, w₂, h₄, h₅⟩ := Prog.bind_run_iff.mp h₃
    obtain ⟨rfl, -⟩ := Prog.pure_run_iff.mp h₅
    rw [he.jsonAddFields_run h₄]
  · exact absurd rfl hno

/-- The object of one row. -/
def reportObject (row : ReportRow) : JsonObject Double := reportFields (cursorToReport row)

theorem Unfailing.cursorToJsonArray_run (he : Unfailing e) {rows : List ReportRow} {buf : Bytes}
    {max : ℕ} {r : ℕ × Bytes} (h : cursorToJsonArray (some rows) buf max e w = (r, w')) :
    r = printArray (rows.map reportObject) buf max := by
  obtain ⟨ok, w₁, h₁, h₂⟩ := Prog.bind_run_iff.mp h
  obtain rfl := he.attemptAlloc_run h₁
  rcases Prog.ite_run_iff.mp h₂ with ⟨hno, -⟩ | ⟨-, h₃⟩
  · cases hno
  · obtain ⟨items, w₂, h₄, h₅⟩ := Prog.bind_run_iff.mp h₃
    obtain ⟨rfl, -⟩ := Prog.pure_run_iff.mp h₅
    have hitems : items = rows.flatMap fun row => [reportObject row] := by
      refine he.drainRows_run (fun row w x w' hrow => ?_) h₄
      obtain ⟨obj, w₃, h₆, h₇⟩ := Prog.bind_run_iff.mp hrow
      obtain ⟨rfl, -⟩ := Prog.pure_run_iff.mp h₇
      rw [he.reportToCjson_run h₆]
      rfl
    rw [hitems, ← List.map_eq_flatMap]

end runs

end Segnalacity
