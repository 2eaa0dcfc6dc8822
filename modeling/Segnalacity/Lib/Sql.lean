import Mathlib.Data.Int.Notation
import Mathlib.Data.List.Basic
import Mathlib.Data.List.Nodup
import Mathlib.Data.List.Count

/-! # Tables, three-valued conditions and single-table statements

SQL conditions take three truth values; `none` is NULL.  A statement acts on the rows whose
condition is true, so a row for which it is NULL is left alone (`holds`).  A table is the list
of its rows in rowid order; `update` and `select` are the statements on one table, `affected`
is the number of rows an `UPDATE` changes. -/

namespace Sql

/-- A truth value of SQL. -/
abbrev Tri := Option Bool

variable {α κ : Type}

/-- `x = y`: NULL when one side is. -/
def eq3 [DecidableEq κ] : Option κ → Option κ → Tri
  | some x, some y => some (x = y)
  | _, _ => none

/-- `x < y` on integers. -/
def lt3 : Option ℤ → Option ℤ → Tri
  | some x, some y => some (x < y)
  | _, _ => none

def and3 : Tri → Tri → Tri
  | some false, _ => some false
  | _, some false => some false
  | some true, some true => some true
  | _, _ => none

def or3 : Tri → Tri → Tri
  | some true, _ => some true
  | _, some true => some true
  | some false, some false => some false
  | _, _ => none

/-- `x IS NULL`: never NULL itself. -/
def isNull (x : Option κ) : Tri := some x.isNone

/-- A row is selected when its condition is true. -/
def holds (t : Tri) : Bool := t = some true

@[simp] theorem holds_eq3 [DecidableEq κ] (x y : Option κ) :
    holds (eq3 x y) = true ↔ ∃ v, x = some v ∧ y = some v := by
  cases x <;> cases y <;> simp [holds, eq3, eq_comm]

@[simp] theorem holds_lt3 (x y : Option ℤ) :
    holds (lt3 x y) = true ↔ ∃ v w, x = some v ∧ y = some w ∧ v < w := by
  cases x <;> cases y <;> simp [holds, lt3]

@[simp] theorem holds_and3 (a b : Tri) : holds (and3 a b) = true ↔ holds a = true ∧ holds b = true := by
  rcases a with _ | _ | _ <;> rcases b with _ | _ | _ <;> simp [holds, and3]

@[simp] theorem holds_or3 (a b : Tri) : holds (or3 a b) = true ↔ holds a = true ∨ holds b = true := by
  rcases a with _ | _ | _ <;> rcases b with _ | _ | _ <;> simp [holds, or3]

@[simp] theorem holds_isNull (x : Option κ) : holds (isNull x) = true ↔ x = none := by
  cases x <;> simp [holds, isNull]

/-- Comparing a column with a value, neither of them NULL. -/
theorem holds_key [DecidableEq κ] (k v : κ) : holds (eq3 (some k) (some v)) = true ↔ k = v := by
  simp [holds, eq3]

/-- `UPDATE … SET f WHERE p`. -/
def update (p : α → Tri) (f : α → α) (rows : List α) : List α :=
  rows.map fun r => if holds (p r) then f r else r

/-- The number of rows an `UPDATE` with condition `p` changes. -/
def affected (p : α → Tri) (rows : List α) : ℕ := rows.countP fun r => holds (p r)

/-- `SELECT … WHERE p`. -/
def select (p : α → Tri) (rows : List α) : List α := rows.filter fun r => holds (p r)

section update
variable {p : α → Tri} {f : α → α} {rows : List α}

theorem mem_update {r' : α} :
    r' ∈ update p f rows ↔ ∃ r ∈ rows, r' = if holds (p r) then f r else r := by
  simp only [update, List.mem_map, eq_comm]

theorem affected_eq_zero : affected p rows = 0 ↔ ∀ r ∈ rows, holds (p r) = false := by
  simp only [affected, List.countP_eq_zero, Bool.not_eq_true]

theorem affected_ne_zero : affected p rows ≠ 0 ↔ ∃ r ∈ rows, holds (p r) = true := by
  rw [Ne, affected_eq_zero]
  push Not
  simp only [Bool.not_eq_false]

/-- An `UPDATE` that affects no row does nothing. -/
theorem update_of_affected_zero (h : affected p rows = 0) : update p f rows = rows := by
  unfold update
  conv => rhs; rw [← List.map_id rows]
  apply List.map_congr_left
  intro r hr
  rw [affected_eq_zero.mp h r hr]
  rfl

/-- A column that the assignment leaves as it is in the rows it changes. -/
theorem update_column {g : α → κ} (hg : ∀ r, holds (p r) = true → g (f r) = g r) :
    (update p f rows).map g = rows.map g := by
  unfold update
  rw [List.map_map]
  apply List.map_congr_left
  intro r _
  show g (if holds (p r) then f r else r) = g r
  split_ifs with hp
  · exact hg r hp
  · rfl

/-- A selection that sees the changed rows neither before nor after. -/
theorem select_update {q : α → Tri} (h : ∀ r ∈ rows, holds (p r) = true →
    holds (q r) = false ∧ holds (q (f r)) = false) :
    select q (update p f rows) = select q rows := by
  unfold select update
  induction rows with
  | nil => rfl
  | cons r rows ih =>
      have ih' := ih fun x hx => h x (List.mem_cons_of_mem _ hx)
      rw [List.map_cons, List.filter_cons, List.filter_cons, ih']
      split_ifs with hp hf hr hr hr
      · rw [(h r List.mem_cons_self hp).2] at hf; cases hf
      · rw [(h r List.mem_cons_self hp).2] at hf; cases hf
      · rw [(h r List.mem_cons_self hp).1] at hr; cases hr
      all_goals rfl

/-- A selection on columns that the assignment does not mention. -/
theorem select_update_comm {q : α → Tri} (h : ∀ r, holds (q (f r)) = holds (q r)) :
    select q (update p f rows) = update p f (select q rows) := by
  unfold select update
  rw [List.filter_map]
  congr 1
  apply List.filter_congr
  intro r _
  show holds (q (if holds (p r) then f r else r)) = holds (q r)
  split_ifs
  · exact h r
  · rfl

/-- Rows outside the condition do not count. -/
theorem affected_select {q : α → Tri} (h : ∀ r, holds (p r) = true → holds (q r) = true) :
    affected p (select q rows) = affected p rows := by
  unfold affected select
  rw [List.countP_filter]
  apply List.countP_congr
  intro r _
  constructor
  · intro hr
    exact (Bool.and_eq_true_iff.mp hr).1
  · intro hr
    exact Bool.and_eq_true_iff.mpr ⟨hr, h r hr⟩

/-- An `UPDATE` whose condition one row meets changes that row in place. -/
theorem update_single {r : α} (hnodup : rows.Nodup) (hr : r ∈ rows) (hp : holds (p r) = true)
    (huniq : ∀ x ∈ rows, holds (p x) = true → x = r) :
    ∃ l₁ l₂, rows = l₁ ++ r :: l₂ ∧ update p f rows = l₁ ++ f r :: l₂ := by
  obtain ⟨l₁, l₂, rfl⟩ := List.append_of_mem hr
  refine ⟨l₁, l₂, rfl, ?_⟩
  have hmid := List.nodup_middle.mp hnodup
  have hnotin : r ∉ l₁ ++ l₂ := (List.nodup_cons.mp hmid).1
  have hkeep : ∀ l : List α, (∀ x ∈ l, x ∈ l₁ ++ l₂) → update p f l = l := by
    intro l hl
    refine update_of_affected_zero (affected_eq_zero.mpr fun x hx => ?_)
    by_contra hpx
    have hmem := hl x hx
    have hxr : x = r := huniq x (by simp only [List.mem_append, List.mem_cons] at hmem ⊢; tauto)
      (by simpa using hpx)
    rw [hxr] at hmem
    exact hnotin hmem
  have h₁ := hkeep l₁ fun x hx => List.mem_append_left _ hx
  have h₂ := hkeep l₂ fun x hx => List.mem_append_right _ hx
  unfold update at h₁ h₂ ⊢
  rw [List.map_append, List.map_cons, h₁, h₂, if_pos hp]

/-- An `UPDATE` that leaves the table as it was assigns nothing new. -/
theorem set_eq_of_update_eq (h : update p f rows = rows) {r : α} (hr : r ∈ rows)
    (hp : holds (p r) = true) : f r = r := by
  have hmap : (rows.map fun r => if holds (p r) then f r else r) = rows.map id := by
    rw [List.map_id]
    exact h
  have hr' := List.map_inj_left.mp hmap r hr
  rw [if_pos hp] at hr'
  exact hr'

end update

theorem mem_select {p : α → Tri} {rows : List α} {r : α} :
    r ∈ select p rows ↔ r ∈ rows ∧ holds (p r) = true := by
  simp only [select, List.mem_filter]

/-- Looking a row up by a column that determines it. -/
theorem head?_select_eq_some {p : α → Tri} {rows : List α} {r : α} (hr : r ∈ rows)
    (hp : holds (p r) = true) (huniq : ∀ x ∈ rows, holds (p x) = true → x = r) :
    (select p rows).head? = some r := by
  cases hs : select p rows with
  | nil =>
      have : r ∈ select p rows := mem_select.mpr ⟨hr, hp⟩
      rw [hs] at this
      cases this
  | cons x l =>
      have : x ∈ select p rows := by rw [hs]; exact List.mem_cons_self
      obtain ⟨hx, hpx⟩ := mem_select.mp this
      rw [huniq x hx hpx]
      rfl

/-- The first row whose condition is true, whatever stands behind it. -/
theorem head?_select_append {p : α → Tri} {before after : List α} {r : α}
    (hno : ∀ x ∈ before, holds (p x) = false) (hp : holds (p r) = true) :
    (select p (before ++ r :: after)).head? = some r := by
  have hnil : select p before = [] := List.filter_eq_nil_iff.mpr fun x hx => by
    rw [hno x hx]
    decide
  unfold select at hnil ⊢
  rw [List.filter_append, hnil, List.nil_append, List.filter_cons, if_pos hp, List.head?_cons]

theorem of_head?_select {p : α → Tri} {rows : List α} {r : α}
    (h : (select p rows).head? = some r) : r ∈ rows ∧ holds (p r) = true :=
  mem_select.mp (List.mem_of_head? h)

end Sql
