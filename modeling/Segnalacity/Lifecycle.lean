import Segnalacity.Report

/-! # The life of a report

Seven statements write reports: the insertion, five guarded updates and the reset inside
`route_api_admin_assign`.  `ReportCall.run_spec` says what any of these calls does to the table:
nothing, one new row, or the update of the rows that meet its guard.  `lifecycle_invariant` gives
the correlations between the columns of every row in every run of them. -/

namespace Segnalacity

open CStr StateProg Sql

/-! ### Calls -/

inductive ReportEvent where
  | assign (operatorId : UInt64)
  | accept (operatorId : UInt64)
  | reject (operatorId : UInt64)
  | resolve (operatorId : UInt64)
  | rate
  | reset
deriving DecidableEq, Repr

section platform

variable [Platform]

inductive ReportCall where
  | insert (authorId : UInt64) (lat lon : Double) (city category desc : Bytes)
  | assign (reportId operatorId : UInt64)
  | accept (reportId operatorId : UInt64)
  | reject (reportId operatorId : UInt64)
  | resolve (reportId operatorId : UInt64)
  | setFeedback (reportId authorId : UInt64) (stars : ℤ)
  | reset (reportId : UInt64)

/-- A call and its result; a reset counts as successful when its statement changed a row. -/
def ReportCall.run : ReportCall → App ℤ
  | insert a lat lon city category desc => do
      let id ← reportInsert a lat lon city category desc
      pure id.toNat
  | assign r o => reportAssign r o
  | accept r o => reportAccept r o
  | reject r o => reportReject r o
  | resolve r o => reportResolve r o
  | setFeedback r a stars => reportSetFeedback r a stars
  | reset r => do
      let rc ← resetReport r
      if rc ≠ 0 then pure (-1)
      else do
        let n ← dbChanges
        pure (if n = 0 then 0 else 1)

/-- The event that a successful call is, and the report it happens to. -/
def ReportCall.event : ReportCall → Option (UInt64 × ReportEvent)
  | insert .. => none
  | assign r o => some (r, .assign o)
  | accept r o => some (r, .accept o)
  | reject r o => some (r, .reject o)
  | resolve r o => some (r, .resolve o)
  | setFeedback r _ _ => some (r, .rate)
  | reset r => some (r, .reset)

/-- A guarded update of one report. -/
structure Write where
  reportId : UInt64
  guard : ReportRow → Tri
  set : ReportRow → ReportRow
  event : ReportEvent

/-- The update that a call at time `t` tries. -/
def ReportCall.write (t : ℤ) : ReportCall → Option Write
  | insert .. => none
  | assign r o => some ⟨r, assignGuard r,
      fun x => { x with status := 1, assignedTo := some (i64 o), assignedAt := some t }, .assign o⟩
  | accept r o => some ⟨r, operatorGuard r o 1, fun x => { x with status := 2 }, .accept o⟩
  | reject r o => some ⟨r, operatorGuard r o 1, unassign, .reject o⟩
  | resolve r o => some ⟨r, operatorGuard r o 2,
      fun x => { x with status := 3, resolvedAt := some t }, .resolve o⟩
  | setFeedback r a stars =>
      if stars < 1 ∨ stars > 5 then none
      else some ⟨r, feedbackGuard r a, fun x => { x with feedback := some stars }, .rate⟩
  | reset r => some ⟨r, resetGuard r, unassign, .reset⟩

theorem ReportCall.write_event {k : ReportCall} {t : ℤ} {u : Write} (h : k.write t = some u) :
    k.event = some (u.reportId, u.event) := by
  cases k with
  | insert => cases h
  | setFeedback r a stars =>
      simp only [write] at h
      split_ifs at h
      obtain rfl := Option.some.inj h
      rfl
  | _ =>
      obtain rfl := Option.some.inj h
      rfl

/-! ### What one update does to one row -/

theorem holds_assignGuard {r : UInt64} {x : ReportRow} :
    holds (assignGuard r x) = true ↔ x.id = i64 r ∧ x.status = 0 ∧ x.assignedTo = none := by
  simp only [assignGuard, holds_and3, holds_eq3, holds_isNull, Option.some.injEq,
    exists_eq_left', and_assoc]
  constructor
  · rintro ⟨h₁, h₂, h₃⟩
    exact ⟨h₁.symm, h₂.symm, h₃⟩
  · rintro ⟨h₁, h₂, h₃⟩
    exact ⟨h₁.symm, h₂.symm, h₃⟩

theorem operatorGuard_holds {r o : UInt64} {st : ℤ} {x : ReportRow}
    (h : holds (operatorGuard r o st x) = true) :
    x.id = i64 r ∧ x.assignedTo = some (i64 o) ∧ x.status = st := by
  simp only [operatorGuard, holds_and3, holds_eq3, Option.some.injEq, exists_eq_left',
    exists_eq_right', and_assoc] at h
  obtain ⟨h₁, h₂, h₃⟩ := h
  exact ⟨h₁.symm, h₂, h₃.symm⟩

theorem feedbackGuard_holds {r a : UInt64} {x : ReportRow}
    (h : holds (feedbackGuard r a x) = true) :
    x.id = i64 r ∧ x.authorId = i64 a ∧ x.status = 3 ∧ x.feedback = none := by
  simp only [feedbackGuard, holds_and3, holds_eq3, holds_isNull, Option.some.injEq,
    exists_eq_left', and_assoc] at h
  obtain ⟨h₁, h₂, h₃, h₄⟩ := h
  exact ⟨h₁.symm, h₂.symm, h₃.symm, h₄⟩

theorem holds_resetGuard {r : UInt64} {x : ReportRow} :
    holds (resetGuard r x) = true ↔ x.id = i64 r ∧ x.status = 1 := by
  simp only [resetGuard, holds_and3, holds_eq3, Option.some.injEq, exists_eq_left']
  constructor
  · rintro ⟨h₁, h₂⟩
    exact ⟨h₁.symm, h₂.symm⟩
  · rintro ⟨h₁, h₂⟩
    exact ⟨h₁.symm, h₂.symm⟩

namespace Write

variable {t : ℤ} {k : ReportCall} {u : Write}

theorem guard_id (h : k.write t = some u) {x : ReportRow} (hx : holds (u.guard x) = true) :
    x.id = i64 u.reportId := by
  cases k with
  | insert => cases h
  | assign r o =>
      obtain rfl := Option.some.inj h
      exact (holds_assignGuard.mp hx).1
  | accept r o =>
      obtain rfl := Option.some.inj h
      exact (operatorGuard_holds hx).1
  | reject r o =>
      obtain rfl := Option.some.inj h
      exact (operatorGuard_holds hx).1
  | resolve r o =>
      obtain rfl := Option.some.inj h
      exact (operatorGuard_holds hx).1
  | setFeedback r a stars =>
      simp only [ReportCall.write] at h
      split_ifs at h
      obtain rfl := Option.some.inj h
      exact (feedbackGuard_holds hx).1
  | reset r =>
      obtain rfl := Option.some.inj h
      exact (holds_resetGuard.mp hx).1

/-- No update assigns a key or any other column of the submission. -/
theorem set_submission (h : k.write t = some u) (x : ReportRow) :
    (u.set x).id = x.id ∧ (u.set x).authorId = x.authorId ∧ (u.set x).city = x.city ∧
      (u.set x).createdAt = x.createdAt := by
  cases k with
  | insert => cases h
  | setFeedback r a stars =>
      simp only [ReportCall.write] at h
      split_ifs at h
      obtain rfl := Option.some.inj h
      exact ⟨rfl, rfl, rfl, rfl⟩
  | _ =>
      obtain rfl := Option.some.inj h
      exact ⟨rfl, rfl, rfl, rfl⟩

end Write

/-! ### What one call does -/

/-- The row that `report_insert` appends. -/
def newReport (id : ℤ) (authorId : UInt64) (lat lon : Double) (city category desc : Bytes)
    (t : ℤ) : ReportRow where
  id := id
  authorId := i64 authorId
  assignedTo := none
  lat := lat
  lon := lon
  city := cstr city
  category := cstr category
  description := cstr desc
  status := 0
  createdAt := t
  assignedAt := none
  resolvedAt := none
  feedback := none

theorem insertReport_eq_some {a : UInt64} {lat lon : Double} {city category desc : Bytes} {t : ℤ}
    {db db' : Database} (h : insertReport a lat lon city category desc t db = some db') :
    nextRowid db.reportSeq = some (db.reportSeq + 1) ∧ db' = { db with
      reports := db.reports ++ [newReport (db.reportSeq + 1) a lat lon city category desc t]
      reportSeq := db.reportSeq + 1, lastInsertRowid := db.reportSeq + 1, changes := 1 } := by
  unfold insertReport at h
  split at h
  · cases h
  · split at h
    · cases h
    · rename_i id hid
      unfold nextRowid at hid ⊢
      split_ifs at hid with hs
      obtain rfl := Option.some.inj hid
      exact ⟨if_pos hs, (Option.some.inj h).symm⟩

/-- The reports after a call that returned `rc`. -/
inductive Wrote (e : Env) (k : ReportCall) (w w' : World) (rc : ℤ) : Prop
  | nothing : w'.db.reports = w.db.reports → w'.db.reportSeq = w.db.reportSeq →
      (k.event = none ∨ rc ≠ 1) → Wrote e k w w' rc
  | inserted (a : UInt64) (lat lon : Double) (city category desc : Bytes) : k.event = none →
      w'.db.reports = w.db.reports ++ [newReport (w.db.reportSeq + 1) a lat lon city category desc
        (e.clock w.ctr.ticks)] →
      w'.db.reportSeq = w.db.reportSeq + 1 → w.ctr.ticks < w'.ctr.ticks → Wrote e k w w' rc
  | updated (u : Write) : k.write (e.clock w.ctr.ticks) = some u → rc = 1 →
      affected u.guard w.db.reports ≠ 0 → w'.db.reports = update u.guard u.set w.db.reports →
      w'.db.reportSeq = w.db.reportSeq → Wrote e k w w' rc

theorem Updated.wrote {e : Env} {w₀ w w' : World} {u : Write} {k : ReportCall} {rc : ℤ}
    (h : Updated u.guard u.set u.reportId e w w' rc)
    (hu : k.write (e.clock w₀.ctr.ticks) = some u) (hdb : w.db = w₀.db)
    (hseq : w'.db.reportSeq = w.db.reportSeq) : Wrote e k w₀ w' rc := by
  rw [hdb] at hseq
  cases h with
  | error _ hdb' _ => exact .nothing (by rw [hdb', hdb]) hseq (Or.inr (by decide))
  | missed _ _ hr _ _ => exact .nothing (by rw [hr, hdb]) hseq (Or.inr (by decide))
  | done _ _ _ _ hn hr _ _ _ _ =>
      rw [hdb] at hn hr
      exact .updated u hu rfl hn hr hseq

/-- Every call: what it does to the reports, to the clock and to everything else. -/
theorem ReportCall.run_spec {k : ReportCall} {e : Env} {w w' : World} {rc : ℤ}
    (h : k.run e w = (rc, w')) :
    SameAccounts w w' ∧ w.ctr.ticks ≤ w'.ctr.ticks ∧ Wrote e k w w' rc := by
  cases k with
  | insert a lat lon city category desc =>
      obtain ⟨id, w₁, h₁, h₂⟩ := Prog.bind_run_iff.mp h
      obtain ⟨rfl, rfl⟩ := Prog.pure_run_iff.mp h₂
      obtain ⟨hsame, hticks, ⟨-, hdb, -⟩ | ⟨db, hins, hdb, -⟩⟩ := reportInsert_run h₁
      · exact ⟨hsame, by omega, .nothing (by rw [hdb]) (by rw [hdb]) (Or.inl rfl)⟩
      · obtain ⟨-, rfl⟩ := insertReport_eq_some hins
        exact ⟨hsame, by omega, .inserted a lat lon city category desc rfl (by rw [hdb])
          (by rw [hdb]) (by omega)⟩
  | assign r o =>
      obtain ⟨t, w₁, h₁, h₂⟩ := Prog.bind_run_iff.mp h
      obtain ⟨rfl, rfl⟩ := now_run h₁
      obtain ⟨hsame, hseq, hticks, hup⟩ := guardedUpdate_run h₂
      exact ⟨⟨hsame.users, hsame.userSeq, hsame.sessions⟩, by rw [hticks]; exact Nat.le_succ _,
        Updated.wrote (w := w.tick) hup rfl rfl hseq⟩
  | accept r o =>
      obtain ⟨hsame, hseq, hticks, hup⟩ := guardedUpdate_run h
      exact ⟨hsame, hticks.ge, hup.wrote rfl rfl hseq⟩
  | reject r o =>
      obtain ⟨hsame, hseq, hticks, hup⟩ := guardedUpdate_run h
      exact ⟨hsame, hticks.ge, hup.wrote rfl rfl hseq⟩
  | resolve r o =>
      obtain ⟨t, w₁, h₁, h₂⟩ := Prog.bind_run_iff.mp h
      obtain ⟨rfl, rfl⟩ := now_run h₁
      obtain ⟨hsame, hseq, hticks, hup⟩ := guardedUpdate_run h₂
      exact ⟨⟨hsame.users, hsame.userSeq, hsame.sessions⟩, by rw [hticks]; exact Nat.le_succ _,
        Updated.wrote (w := w.tick) hup rfl rfl hseq⟩
  | setFeedback r a stars =>
      simp only [run, reportSetFeedback] at h
      rw [Prog.ite_run] at h
      split_ifs at h with hs
      · obtain ⟨rfl, rfl⟩ := Prog.pure_run_iff.mp h
        exact ⟨SameAccounts.refl _, le_rfl, .nothing rfl rfl (Or.inr (by decide))⟩
      · obtain ⟨hsame, hseq, hticks, hup⟩ := guardedUpdate_run h
        exact ⟨hsame, hticks.ge, hup.wrote (if_neg hs) rfl hseq⟩
  | reset r =>
      obtain ⟨rc₁, w₁, h₁, h₂⟩ := Prog.bind_run_iff.mp h
      rcases dbExec_run h₁ with ⟨rfl, rfl, -⟩ | ⟨rfl, -, db, hdb, rfl⟩
      · obtain ⟨rfl, rfl⟩ := Prog.pure_run_iff.mp h₂
        exact ⟨⟨rfl, rfl, rfl⟩, le_rfl, .nothing rfl rfl (Or.inr (by decide))⟩
      · obtain rfl := Option.some.inj hdb
        rw [if_neg (by simp)] at h₂
        obtain ⟨n, w₂, h₃, h₄⟩ := Prog.bind_run_iff.mp h₂
        obtain ⟨rfl, rfl⟩ := Prog.view_run_iff.mp h₃
        obtain ⟨rfl, rfl⟩ := Prog.pure_run_iff.mp h₄
        refine ⟨⟨rfl, rfl, rfl⟩, le_rfl, ?_⟩
        split_ifs with hn
        · exact .nothing (update_of_affected_zero hn) rfl (Or.inr (by decide))
        · exact .updated ⟨r, resetGuard r, unassign, .reset⟩ rfl rfl hn rfl rfl

/-! ### The columns of every row -/

/-- The correlations between the columns of one report. -/
structure Lifecycle (r : ReportRow) : Prop where
  status : 0 ≤ r.status ∧ r.status ≤ 3
  assignedTo : r.status = 0 ↔ r.assignedTo = none
  assignedAt : r.assignedTo = none ↔ r.assignedAt = none
  resolvedAt : r.status = 3 ↔ r.resolvedAt ≠ none
  feedback : ∀ stars, r.feedback = some stars → r.status = 3 ∧ 1 ≤ stars ∧ stars ≤ 5
  created : ∀ a, r.assignedAt = some a → r.createdAt ≤ a
  resolved : ∀ a b, r.assignedAt = some a → r.resolvedAt = some b → a ≤ b

/-- No time in the row is later than the readings still to come. -/
structure Timely (e : Env) (n : ℕ) (r : ReportRow) : Prop where
  created : r.createdAt ≤ e.clock n
  assigned : ∀ a, r.assignedAt = some a → a ≤ e.clock n

theorem Timely.mono {e : Env} (he : Monotone e.clock) {m n : ℕ} (hmn : m ≤ n) {r : ReportRow}
    (h : Timely e m r) : Timely e n r :=
  ⟨h.created.trans (he hmn), fun a ha => (h.assigned a ha).trans (he hmn)⟩

theorem Lifecycle.newReport (id : ℤ) (a : UInt64) (lat lon : Double)
    (city category desc : Bytes) (t : ℤ) :
    Lifecycle (newReport id a lat lon city category desc t) := by
  constructor <;> simp [Segnalacity.newReport]

/-- An update keeps the correlations of every row that meets its guard. -/
theorem Write.lifecycle {e : Env} {n : ℕ} {k : ReportCall} {u : Write}
    (h : k.write (e.clock n) = some u) {x : ReportRow} (hx : holds (u.guard x) = true)
    (hl : Lifecycle x) (ht : Timely e n x) : Lifecycle (u.set x) ∧ Timely e n (u.set x) := by
  have hopen : x.status ≠ 3 → x.resolvedAt = none := fun hne => by
    by_contra hr
    exact hne (hl.resolvedAt.mpr hr)
  have hunrated : x.status ≠ 3 → x.feedback = none := fun hne => by
    cases hf : x.feedback with
    | none => rfl
    | some v => exact absurd (hl.feedback v hf).1 hne
  cases k with
  | insert => cases h
  | assign r o =>
      obtain rfl := Option.some.inj h
      obtain ⟨-, hst, -⟩ := holds_assignGuard.mp hx
      have hr := hopen (by omega)
      have hf := hunrated (by omega)
      refine ⟨⟨by simp, by simp, by simp, by simp [hr], by simp [hf], ?_, by simp [hr]⟩,
        ⟨ht.created, ?_⟩⟩
      · rintro a ⟨⟩
        exact ht.created
      · rintro a ⟨⟩
        exact le_rfl
  | accept r o =>
      obtain rfl := Option.some.inj h
      obtain ⟨-, hto, hst⟩ := operatorGuard_holds hx
      have hr := hopen (by omega)
      have hf := hunrated (by omega)
      exact ⟨⟨by simp, by simp [hto], hl.assignedAt, by simp [hr], by simp [hf], hl.created,
        hl.resolved⟩, ⟨ht.created, ht.assigned⟩⟩
  | reject r o =>
      obtain rfl := Option.some.inj h
      obtain ⟨-, -, hst⟩ := operatorGuard_holds hx
      have hr := hopen (by omega)
      have hf := hunrated (by omega)
      exact ⟨⟨by simp [unassign], by simp [unassign], by simp [unassign], by simp [unassign, hr],
        by simp [unassign, hf], by simp [unassign], by simp [unassign]⟩,
        ⟨ht.created, by simp [unassign]⟩⟩
  | resolve r o =>
      obtain rfl := Option.some.inj h
      obtain ⟨-, hto, hst⟩ := operatorGuard_holds hx
      have hf := hunrated (by omega)
      refine ⟨⟨by simp, by simp [hto], hl.assignedAt, by simp, by simp [hf], hl.created, ?_⟩,
        ⟨ht.created, ht.assigned⟩⟩
      rintro a b ha ⟨⟩
      exact ht.assigned a ha
  | setFeedback r a stars =>
      simp only [ReportCall.write] at h
      split_ifs at h with hs
      obtain rfl := Option.some.inj h
      obtain ⟨-, -, hst, -⟩ := feedbackGuard_holds hx
      refine ⟨⟨hl.status, hl.assignedTo, hl.assignedAt, hl.resolvedAt, ?_, hl.created,
        hl.resolved⟩, ⟨ht.created, ht.assigned⟩⟩
      rintro v ⟨⟩
      exact ⟨hst, by omega, by omega⟩
  | reset r =>
      obtain rfl := Option.some.inj h
      obtain ⟨-, hst⟩ := holds_resetGuard.mp hx
      have hr := hopen (by omega)
      have hf := hunrated (by omega)
      exact ⟨⟨by simp [unassign], by simp [unassign], by simp [unassign], by simp [unassign, hr],
        by simp [unassign, hf], by simp [unassign], by simp [unassign]⟩,
        ⟨ht.created, by simp [unassign]⟩⟩

/-- Every row is correlated and not ahead of the clock. -/
def RowsInOrder (e : Env) (w : World) : Prop :=
  ∀ x ∈ w.db.reports, Lifecycle x ∧ Timely e w.ctr.ticks x

theorem RowsInOrder.step {e : Env} (he : Monotone e.clock) {k : ReportCall} {w w' : World}
    {rc : ℤ} (hw : RowsInOrder e w) (h : k.run e w = (rc, w')) : RowsInOrder e w' := by
  obtain ⟨-, hticks, hwrote⟩ := ReportCall.run_spec h
  suffices ∀ x ∈ w'.db.reports, Lifecycle x ∧ Timely e w.ctr.ticks x from
    fun x hx => ⟨(this x hx).1, (this x hx).2.mono he hticks⟩
  intro x hx
  cases hwrote with
  | nothing hrows _ _ => exact hw x (hrows ▸ hx)
  | inserted a lat lon city category desc _ hrows _ _ =>
      rw [hrows] at hx
      rcases List.mem_append.mp hx with hx | hx
      · exact hw x hx
      · obtain rfl := List.mem_singleton.mp hx
        exact ⟨Lifecycle.newReport .., le_rfl, by simp [newReport]⟩
  | updated u hu _ _ hrows _ =>
      rw [hrows] at hx
      obtain ⟨y, hy, rfl⟩ := mem_update.mp hx
      split_ifs with hg
      · exact u.lifecycle hu hg (hw y hy).1 (hw y hy).2
      · exact hw y hy

/-- **In every run from an empty table the columns of every report are correlated.** -/
theorem lifecycle_invariant {e : Env} (he : Monotone e.clock) {w₀ w : World}
    (h₀ : w₀.db.reports = []) {log : List (ReportCall × ℤ)}
    (hrun : Run ReportCall.run e w₀ log w) : ∀ x ∈ w.db.reports, Lifecycle x := by
  have hinv : RowsInOrder e w := by
    refine hrun.invariant (I := fun _ w => RowsInOrder e w) ?_ ?_
    · intro x hx
      rw [h₀] at hx
      cases hx
    · intro log w k rc w' hw h
      exact hw.step he h
  exact fun x hx => (hinv x hx).1

end platform

/-- A report submitted, assigned, refused, taken by another operator, resolved and rated. -/
def sampleCalls : List (@ReportCall samplePlatform) :=
  letI := samplePlatform
  [.insert 1 (45000000 : ℤ) (7600000 : ℤ) (bytes "Torino") (bytes "Buche") (bytes "via Po"),
   .assign 1 2, .accept 1 3, .reject 1 2, .resolve 1 2, .assign 1 3, .reset 1, .assign 1 2,
   .assign 1 3, .accept 1 2, .reset 1, .resolve 1 2, .setFeedback 1 1 4, .setFeedback 1 1 5]

def sampleWorld : @World samplePlatform :=
  @emptyWorld samplePlatform ⟨List.replicate 101 [], 0, 101, 0, fun _ _ => 0⟩

theorem lifecycle_invariant_sampleCalls :
    letI := samplePlatform
    let r := Run.exec ReportCall.run sampleEnv sampleWorld sampleCalls
    r.1.map Prod.snd = [1, 1, 0, 1, 0, 1, 1, 1, 0, 1, 0, 1, 1, 0] ∧
      ∀ x ∈ r.2.db.reports, Lifecycle x :=
  letI := samplePlatform
  ⟨by decide +kernel, @lifecycle_invariant samplePlatform sampleEnv sampleClock_monotone
    sampleWorld _ rfl _ (Run.of_exec _ _ _ sampleCalls)⟩

end Segnalacity
