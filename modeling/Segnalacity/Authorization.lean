import Segnalacity.Routes.Effects
import Segnalacity.SessionContract

/-! # Authorization

Some handlers check the city, some the assigned operator, some the author, and sessions are
snapshots taken at login.  `Consistent` ties users, sessions and reports together so that these
checks add up: whatever requests have been answered, every report belongs to a citizen of its city
and is held by an operator of it, and the next request changes a report only on behalf of a user
who may do so (`authorization`). -/

namespace Segnalacity

open CStr StateProg Sql Http HashTable

section platform

variable [Platform]

/-! ### Changes of a row -/

/-- What a successful call makes of the row it is about. -/
inductive ReportCall.Changed : ReportCall → ReportRow → ReportRow → Prop
  | assign (r o : UInt64) (t : ℤ) (x : ReportRow) : Changed (.assign r o) x
      { x with status := 1, assignedTo := some (i64 o), assignedAt := some t }
  | accept (r o : UInt64) (x : ReportRow) : x.assignedTo = some (i64 o) → x.status = 1 →
      Changed (.accept r o) x { x with status := 2 }
  | reject (r o : UInt64) (x : ReportRow) : x.assignedTo = some (i64 o) → x.status = 1 →
      Changed (.reject r o) x (unassign x)
  | resolve (r o : UInt64) (t : ℤ) (x : ReportRow) : x.assignedTo = some (i64 o) → x.status = 2 →
      Changed (.resolve r o) x { x with status := 3, resolvedAt := some t }
  | rate (r a : UInt64) (stars : ℤ) (x : ReportRow) : x.authorId = i64 a → x.status = 3 →
      Changed (.setFeedback r a stars) x { x with feedback := some stars }
  | reset (r : UInt64) (x : ReportRow) : x.status = 1 → Changed (.reset r) x (unassign x)

theorem Write.changed {t : ℤ} {k : ReportCall} {u : Write} (h : k.write t = some u)
    {x : ReportRow} (hx : holds (u.guard x) = true) : k.Changed x (u.set x) := by
  cases k with
  | insert => cases h
  | assign r o =>
      obtain rfl := Option.some.inj h
      exact .assign r o t x
  | accept r o =>
      obtain rfl := Option.some.inj h
      obtain ⟨-, hto, hst⟩ := operatorGuard_holds hx
      exact .accept r o x hto hst
  | reject r o =>
      obtain rfl := Option.some.inj h
      obtain ⟨-, hto, hst⟩ := operatorGuard_holds hx
      exact .reject r o x hto hst
  | resolve r o =>
      obtain rfl := Option.some.inj h
      obtain ⟨-, hto, hst⟩ := operatorGuard_holds hx
      exact .resolve r o t x hto hst
  | setFeedback r a stars =>
      simp only [ReportCall.write] at h
      split_ifs at h
      obtain rfl := Option.some.inj h
      obtain ⟨-, hauth, hst, -⟩ := feedbackGuard_holds hx
      exact .rate r a stars x hauth hst
  | reset r =>
      obtain rfl := Option.some.inj h
      exact .reset r x (holds_resetGuard.mp hx).2

/-- No change touches the submission. -/
theorem ReportCall.Changed.submission {k : ReportCall} {x x' : ReportRow} (h : k.Changed x x') :
    x'.id = x.id ∧ x'.authorId = x.authorId ∧ x'.city = x.city := by
  cases h <;> exact ⟨rfl, rfl, rfl⟩

/-- A change keeps the status in its range. -/
theorem ReportCall.Changed.status {k : ReportCall} {x x' : ReportRow} (h : k.Changed x x')
    (hx : 0 ≤ x.status ∧ x.status ≤ 3) : 0 ≤ x'.status ∧ x'.status ≤ 3 := by
  cases h with
  | rate => exact hx
  | _ => simp [unassign]

namespace Endpoint

variable {e : Env} {w w' : World} {rc : ℤ}

theorem asked_event (ep : Endpoint) (req : HttpRequest) (u : User) :
    ∃ ev, (ep.asked req u).event = some (namedReport req, ev) := by
  cases ep with
  | respond =>
      unfold asked
      dsimp only
      split_ifs
      · exact ⟨_, rfl⟩
      · exact ⟨_, rfl⟩
  | _ => exact ⟨_, rfl⟩

variable {ep : Endpoint} {req : HttpRequest} {u : User}

theorem asked_write {t : ℤ} {wr : Write} (h : (ep.asked req u).write t = some wr) :
    wr.reportId = namedReport req := by
  obtain ⟨ev, hev⟩ := ep.asked_event req u
  rw [ReportCall.write_event h] at hev
  exact congrArg Prod.fst (Option.some.inj hev)

/-- The reports after a call that an endpoint made: all as before, or those that met its guard
changed. -/
theorem asked_rows (h : (ep.asked req u).run e w = (rc, w')) :
    w'.db.reportSeq = w.db.reportSeq ∧
      ((rc ≠ 1 ∧ w'.db.reports = w.db.reports) ∨
        ∃ wr, (ep.asked req u).write (e.clock w.ctr.ticks) = some wr ∧ rc = 1 ∧
          affected wr.guard w.db.reports ≠ 0 ∧
          w'.db.reports = update wr.guard wr.set w.db.reports) := by
  obtain ⟨ev, hev⟩ := ep.asked_event req u
  obtain ⟨-, -, hwrote⟩ := ReportCall.run_spec h
  cases hwrote with
  | nothing hrows hseq hrc =>
      refine ⟨hseq, Or.inl ⟨hrc.resolve_left ?_, hrows⟩⟩
      rw [hev]
      exact Option.some_ne_none _
  | inserted _ _ _ _ _ _ hnone =>
      rw [hev] at hnone
      cases hnone
  | updated wr hwr hrc hn hrows hseq => exact ⟨hseq, Or.inr ⟨wr, hwr, hrc, hn, hrows⟩⟩

end Endpoint

/-! ### The forced assignment -/

section reassigned
variable {e : Env} {w w' : World} {r o : UInt64} {rc : ℤ}

/-- What an assignment at time `t` sets. -/
def assignTo (o : UInt64) (t : ℤ) (x : ReportRow) : ReportRow :=
  { x with status := 1, assignedTo := some (i64 o), assignedAt := some t }

theorem assign_updated (h : (ReportCall.assign r o).run e w = (rc, w')) :
    w'.db.reportSeq = w.db.reportSeq ∧
      Updated (assignGuard r) (assignTo o (e.clock w.ctr.ticks)) r e w.tick w' rc := by
  obtain ⟨t, w₁, h₁, h₂⟩ := Prog.bind_run_iff.mp h
  obtain ⟨rfl, rfl⟩ := now_run h₁
  obtain ⟨-, hseq, -, hup⟩ := guardedUpdate_run h₂
  exact ⟨hseq, hup⟩

/-- The status of every row is one of the four. -/
def StatusInRange (w : World) : Prop := ∀ x ∈ w.db.reports, 0 ≤ x.status ∧ x.status ≤ 3

omit [Platform] in
theorem ofInt_assigned {z : ℤ} (hz : 0 ≤ z ∧ z ≤ 3) (h : ReportStatus.ofInt z = .assigned) :
    z = 1 := by
  obtain ⟨h0, h3⟩ := hz
  have hcases : z = 0 ∨ z = 1 ∨ z = 2 ∨ z = 3 := by omega
  rcases hcases with rfl | rfl | rfl | rfl
  · cases h
  · rfl
  · cases h
  · cases h

/-- Resetting and assigning amounts to assigning the rows that were only assigned. -/
theorem update_reset_assign {t : ℤ} {rows : List ReportRow}
    (hmissed : affected (assignGuard r) rows = 0) :
    update (assignGuard r) (assignTo o t) (update (resetGuard r) unassign rows) =
      update (resetGuard r) (assignTo o t) rows := by
  unfold update
  rw [List.map_map]
  apply List.map_congr_left
  intro x hx
  have hno := affected_eq_zero.mp hmissed x hx
  show (if holds (assignGuard r (if holds (resetGuard r x) then unassign x else x)) = true
    then assignTo o t (if holds (resetGuard r x) then unassign x else x)
    else (if holds (resetGuard r x) then unassign x else x)) = _
  by_cases hreset : holds (resetGuard r x) = true
  · have hg : holds (assignGuard r (unassign x)) = true :=
      holds_assignGuard.mpr ⟨(holds_resetGuard.mp hreset).1, rfl, rfl⟩
    simp only [hreset, if_true, hg]
    rfl
  · simp only [hreset, if_false, hno, Bool.false_eq_true]

/-- The forced assignment changes nothing, or assigns the report, or, when its last statement
fails, leaves the report open. -/
inductive Reassignment (e : Env) (r o : UInt64) (w w' : World) (rc : ℤ) : Prop
  | nothing : rc ≠ 1 → w'.db.reports = w.db.reports → Reassignment e r o w w' rc
  | assigned (t : ℤ) : rc = 1 → affected (resetGuard r) w.db.reports ≠ 0 →
      w'.db.reports = update (resetGuard r) (assignTo o t) w.db.reports →
      Reassignment e r o w w' rc
  | torn (w₁ : World) : rc = -1 → affected (resetGuard r) w.db.reports ≠ 0 →
      Succeeded e 4 w w₁ → e.fails (w.ctr.calls + 4) = true →
      w'.db.reports = update (resetGuard r) unassign w.db.reports → Reassignment e r o w w' rc

theorem Reassigned.cases (hst : StatusInRange w) (h : Reassigned e r o w w' rc) :
    w'.db.reportSeq = w.db.reportSeq ∧ Reassignment e r o w w' rc := by
  obtain ⟨w₁, w₂, w₃, rr, rc₁, hassign, hget, hrr, hreset, hassign'⟩ := h.run
  obtain ⟨hseq₁, hup⟩ := assign_updated hassign
  obtain ⟨hread, hrow⟩ := reportGetById_run hget
  obtain ⟨-, hseq₃, -, hcalls₃, -, hres⟩ := resetReport_run hreset
  obtain ⟨hseq', hup'⟩ := assign_updated hassign'
  refine ⟨by rw [hseq', hseq₃, hread.db, hseq₁], ?_⟩
  cases hup with
  | missed hf hmissed hrows₁ _ hcalls₁ =>
      have hrows₁ : w₁.db.reports = w.db.reports := hrows₁
      have hmissed : affected (assignGuard r) w.db.reports = 0 := hmissed
      -- the row read again is the one that the reset meets
      obtain ⟨x, hx, hid, rfl⟩ := hrow rr rfl
      rw [hrows₁] at hx
      have hstatus : x.status = 1 := ofInt_assigned (hst x hx) hrr
      have hn : affected (resetGuard r) w.db.reports ≠ 0 :=
        affected_ne_zero.mpr ⟨x, hx, holds_resetGuard.mpr ⟨hid, hstatus⟩⟩
      rw [hread.db, hrows₁] at hres
      rcases hres with ⟨-, -, hdb₃⟩ | ⟨-, hf₃, hrows₃⟩
      · have hrows₃ : w₃.db.reports = w.db.reports := by rw [hdb₃, hrows₁]
        cases hup' with
        | error _ hdb' _ => exact .nothing (by decide) (by rw [hdb']; exact hrows₃)
        | missed _ _ hrows' _ _ => exact .nothing (by decide) (hrows'.trans hrows₃)
        | done _ _ _ _ hn' =>
            have hn' : affected (assignGuard r) w₃.db.reports ≠ 0 := hn'
            rw [hrows₃] at hn'
            exact absurd hmissed hn'
      · have hopen : affected (assignGuard r) w₃.db.reports ≠ 0 := by
          rw [hrows₃]
          refine affected_ne_zero.mpr ⟨unassign x, mem_update.mpr ⟨x, hx, ?_⟩,
            holds_assignGuard.mpr ⟨hid, rfl, rfl⟩⟩
          rw [if_pos (holds_resetGuard.mpr ⟨hid, hstatus⟩)]
        cases hup' with
        | error hf' hdb' _ =>
            have hcalls : Succeeded e 4 w w₃ := by
              have h₁ : Succeeded e 1 w w₁ := .one hcalls₁ hf
              exact (h₁.trans (reportGetById_succeeded hget)).trans (.one hcalls₃ hf₃)
            refine .torn w₃ rfl hn hcalls ?_ (by rw [hdb']; exact hrows₃)
            rw [← hcalls.calls]
            exact hf'
        | missed _ hmissed' _ _ _ => exact absurd hmissed' hopen
        | done _ _ _ _ _ hrows' _ _ _ _ =>
            refine .assigned (e.clock w₃.ctr.ticks) rfl hn ?_
            rw [hrows']
            show update _ _ w₃.db.reports = _
            rw [hrows₃]
            exact update_reset_assign hmissed

end reassigned

/-! ### The reports after an endpoint -/

theorem ReportCall.run_le_one {e : Env} {k : ReportCall} {w w' : World} {rc : ℤ}
    (hk : k.event ≠ none) (h : k.run e w = (rc, w')) : rc ≤ 1 := by
  have hup : ∀ {g f r} {w w' : World}, Updated g f r e w w' rc → rc ≤ 1 := by
    intro g f r w w' hup
    cases hup <;> decide
  cases k with
  | insert => exact absurd rfl hk
  | assign r o => exact hup (assign_updated h).2
  | accept r o => exact hup (guardedUpdate_run h).2.2.2
  | reject r o => exact hup (guardedUpdate_run h).2.2.2
  | resolve r o =>
      obtain ⟨t, w₁, h₁, h₂⟩ := Prog.bind_run_iff.mp h
      exact hup (guardedUpdate_run h₂).2.2.2
  | setFeedback r a stars =>
      rcases Prog.ite_run_iff.mp h with ⟨-, h₁⟩ | ⟨-, h₁⟩
      · obtain ⟨rfl, -⟩ := Prog.pure_run_iff.mp h₁
        decide
      · exact hup (guardedUpdate_run h₁).2.2.2
  | reset r =>
      obtain ⟨rc₁, w₁, h₁, h₂⟩ := Prog.bind_run_iff.mp h
      rcases Prog.ite_run_iff.mp h₂ with ⟨-, h₃⟩ | ⟨-, h₃⟩
      · obtain ⟨rfl, -⟩ := Prog.pure_run_iff.mp h₃
        decide
      · obtain ⟨n, w₂, h₄, h₅⟩ := Prog.bind_run_iff.mp h₃
        obtain ⟨rfl, -⟩ := Prog.pure_run_iff.mp h₅
        split_ifs
        · decide
        · decide

/-- The reports after an endpoint has acted: as before, or changed as it was asked, or, when the
last statement of a forced assignment failed, the report left open. -/
inductive Endpoint.Rows (e : Env) (ep : Endpoint) (req : HttpRequest) (u : User) (w w' : World)
    (rc : ℤ) : Prop
  | same : rc ≤ 0 → w'.db.reports = w.db.reports → Rows e ep req u w w' rc
  | done (g : ReportRow → Tri) (f : ReportRow → ReportRow) : rc = 1 →
      affected g w.db.reports ≠ 0 → w'.db.reports = update g f w.db.reports →
      (∀ x, holds (g x) = true → x.id = i64 (namedReport req) ∧ (ep.asked req u).Changed x (f x)) →
      Rows e ep req u w w' rc
  | torn (w₁ : World) : ep = assign → rc = -1 →
      affected (resetGuard (namedReport req)) w.db.reports ≠ 0 → Succeeded e 4 w w₁ →
      e.fails (w.ctr.calls + 4) = true →
      w'.db.reports = update (resetGuard (namedReport req)) unassign w.db.reports →
      Rows e ep req u w w' rc

theorem Endpoint.Acted.rows {e : Env} {ep : Endpoint} {req : HttpRequest} {u : User}
    {w w' : World} {rc : ℤ} (hst : StatusInRange w) (h : ep.Acted e req u w w' rc) :
    w'.db.reportSeq = w.db.reportSeq ∧ ep.Rows e req u w w' rc := by
  have hevent : (ep.asked req u).event ≠ none := by
    obtain ⟨ev, hev⟩ := ep.asked_event req u
    rw [hev]
    exact Option.some_ne_none _
  cases h with
  | called hrun =>
      obtain ⟨hseq, hrows⟩ := asked_rows hrun
      refine ⟨hseq, ?_⟩
      rcases hrows with ⟨hrc, hrows⟩ | ⟨wr, hwr, hrc, hn, hrows⟩
      · have hle := ReportCall.run_le_one hevent hrun
        exact .same (by omega) hrows
      · refine .done wr.guard wr.set hrc hn hrows fun x hx => ⟨?_, Write.changed hwr hx⟩
        rw [← asked_write hwr]
        exact Write.guard_id hwr hx
  | refused hrun hread hrc =>
      obtain ⟨hseq, ⟨-, hrows⟩ | ⟨_, _, h01, _⟩⟩ := asked_rows hrun
      · exact ⟨by rw [hread.db, hseq], .same hrc.le (by rw [hread.db, hrows])⟩
      · cases h01
  | reassigned hep hre =>
      subst hep
      obtain ⟨hseq, hcases⟩ := hre.cases hst
      refine ⟨hseq, ?_⟩
      obtain ⟨_, _, _, _, _, -, -, -, -, hlast⟩ := hre.run
      have hle := ReportCall.run_le_one hevent hlast
      cases hcases with
      | nothing hrc hrows => exact .same (by omega) hrows
      | assigned t hrc hn hrows =>
          exact .done _ _ hrc hn hrows fun x hx =>
            ⟨(holds_resetGuard.mp hx).1, .assign _ _ t x⟩
      | torn w₁ hrc hn hcalls hf hrows => exact .torn w₁ rfl hrc hn hcalls hf hrows

/-! ### Users, sessions and reports together -/

/-- A user of that role and city has the id. -/
def HasUser (db : Database) (id : ℤ) (role : UserRole) (city : Bytes) : Prop :=
  ∃ row ∈ db.users, row.id = id ∧ row.role = role.toInt ∧ row.city = city

/-- The author is a citizen of the city of the report, the assignee an operator of it. -/
structure Owned (db : Database) (x : ReportRow) : Prop where
  author : HasUser db x.authorId .citizen x.city
  assigned : ∀ o, x.assignedTo = some o → HasUser db o .operator x.city

/-- A registered user. -/
structure Enrolled (row : UserRow) : Prop where
  username : Short row.username
  city : Short row.city
  role : row.role = 0 ∨ row.role = 1 ∨ row.role = 2

/-- What every sequence of requests keeps, whatever fails. -/
structure Consistent (w : World) : Prop where
  wf : w.sessions.WF
  userKeys : Keyed (w.db.users.map UserRow.id) w.db.userSeq
  enrolled : ∀ row ∈ w.db.users, Enrolled row
  sessions : ∀ key s, htGet w.sessions key = some s → ∃ row ∈ w.db.users, s.user = cursorToUser row
  reportKeys : Keyed (w.db.reports.map ReportRow.id) w.db.reportSeq
  status : StatusInRange w
  owned : ∀ x ∈ w.db.reports, Owned w.db x

section snapshots
variable {row : UserRow}

omit [Platform] in
theorem Enrolled.snapshot_city (h : Enrolled row) : (cursorToUser row).city = row.city :=
  strncpy_eq_self h.city.1 h.city.2

omit [Platform] in
theorem Enrolled.snapshot_role (h : Enrolled row) : (cursorToUser row).role.toInt = row.role := by
  unfold cursorToUser
  rcases h.role with hr | hr | hr
  · rw [hr]
    rfl
  · rw [hr]
    rfl
  · rw [hr]
    rfl

omit [Platform] in
theorem Enrolled.snapshot_cases (h : Enrolled row) : (cursorToUser row).role = .citizen ∨
    (cursorToUser row).role = .operator ∨ (cursorToUser row).role = .admin := by
  unfold cursorToUser
  rcases h.role with hr | hr | hr
  · rw [hr]
    exact Or.inl rfl
  · rw [hr]
    exact Or.inr (Or.inl rfl)
  · rw [hr]
    exact Or.inr (Or.inr rfl)

/-- A snapshot is of a registered user. -/
theorem Consistent.snapshot {w : World} (h : Consistent w) (hrow : row ∈ w.db.users) :
    HasUser w.db (i64 (cursorToUser row).userId) (cursorToUser row).role (cursorToUser row).city := by
  have henr := h.enrolled row hrow
  have hid := h.userKeys.range row.id (List.mem_map_of_mem hrow)
  have hseq := h.userKeys.bounds
  exact ⟨row, hrow, (i64_u64 (by omega) (by omega)).symm, henr.snapshot_role.symm,
    henr.snapshot_city.symm⟩

theorem Consistent.loggedIn {w : World} (h : Consistent w) {e : Env} {req : HttpRequest} {u : User}
    (hu : LoggedInAs e w req u) : ∃ row ∈ w.db.users, u = cursorToUser row := by
  obtain ⟨-, s, hs, rfl, -⟩ := hu
  exact h.sessions _ s hs

end snapshots

/-! ### What a request may change -/

/-- Who may change a report, and how: an administrator of its city assigns it, its operator
accepts, rejects or resolves it, its author rates it. -/
inductive Permitted (e : Env) (w : World) (req : HttpRequest) (x x' : ReportRow) : Prop
  | admin (u : User) (o t : ℤ) : LoggedInAs e w req u →
      HasUser w.db (i64 u.userId) .admin x.city → u.role = .admin → u.city = x.city →
      HasUser w.db o .operator x.city →
      x' = { x with status := 1, assignedTo := some o, assignedAt := some t } →
      Permitted e w req x x'
  | operator (u : User) : LoggedInAs e w req u → HasUser w.db (i64 u.userId) .operator x.city →
      u.role = .operator → u.city = x.city → x.assignedTo = some (i64 u.userId) →
      (x.status = 1 ∧ (x' = { x with status := 2 } ∨ x' = unassign x)) ∨
        (x.status = 2 ∧ ∃ t, x' = { x with status := 3, resolvedAt := some t }) →
      Permitted e w req x x'
  | author (u : User) (stars : ℤ) : LoggedInAs e w req u →
      HasUser w.db (i64 u.userId) .citizen u.city → u.role = .citizen →
      x.authorId = i64 u.userId → x.status = 3 → x' = { x with feedback := some stars } →
      Permitted e w req x x'

/-- A new report of a citizen, in that citizen's name and city. -/
def Submitted (e : Env) (w : World) (req : HttpRequest) (x : ReportRow) : Prop :=
  ∃ u, LoggedInAs e w req u ∧ HasUser w.db (i64 u.userId) .citizen u.city ∧ u.role = .citizen ∧
    x.authorId = i64 u.userId ∧ x.city = u.city

section step
variable {e : Env} {w w' : World} {req : HttpRequest} {u : User} {ep : Endpoint}
  {x x' : ReportRow}

theorem Consistent.city_short (h : Consistent w) (hx : x ∈ w.db.reports) : Short x.city := by
  obtain ⟨row, hrow, -, -, hcity⟩ := (h.owned x hx).author
  rw [← hcity]
  exact (h.enrolled row hrow).city

omit [Platform] in
theorem short_strncmpEq {a b : Bytes} (ha : Short a) (hb : Short b)
    (h : strncmpEq (strncpy a (cityLen - 1)) b cityLen = true) : a = b := by
  have hla := ha.2
  have hlb := hb.2
  have hself : strncpy a (cityLen - 1) = a := strncpy_eq_self ha.1 ha.2
  rw [hself] at h
  exact (strncmpEq_iff ha.1 hb.1 (show a.length ≤ 32 by omega) (show b.length ≤ 32 by omega)).mp h

/-- The city check of the handlers compares the cities of the user and of the report named. -/
theorem Consistent.same_city (h : Consistent w) (hu : Short u.city) (hc : ep.Checked w.db req u)
    (hep : ep ≠ .feedback) (hx : x ∈ w.db.reports) (hid : x.id = i64 (namedReport req)) :
    u.city = x.city := by
  obtain ⟨y, hy, hyid, hcity⟩ := hc.city hep
  obtain rfl := h.reportKeys.eq_of_mem hx hy (hid.trans hyid.symm)
  exact (short_strncmpEq (h.city_short hx) hu hcity).symm

theorem Consistent.named_operator (h : Consistent w) (hu : Short u.city)
    (hc : Endpoint.assign.Checked w.db req u) :
    HasUser w.db (i64 (namedOperator req)) .operator u.city := by
  obtain ⟨row, hrow, hid, hop, hcity⟩ := hc.operator rfl
  have henr := h.enrolled row hrow
  refine ⟨row, hrow, hid, ?_, short_strncmpEq henr.city hu hcity⟩
  rw [← henr.snapshot_role, of_decide_eq_true hop]

/-- A change made as an endpoint was asked is a permitted one. -/
theorem Consistent.permitted (h : Consistent w) (hlog : LoggedInAs e w req u)
    (hc : ep.Checked w.db req u) (hx : x ∈ w.db.reports) (hid : x.id = i64 (namedReport req))
    (hch : (ep.asked req u).Changed x x') : Permitted e w req x x' := by
  obtain ⟨row, hrow, hu⟩ := h.loggedIn hlog
  have henr := h.enrolled row hrow
  have huser := h.snapshot hrow
  rw [← hu] at huser
  have hshort : Short u.city := by
    rw [hu, henr.snapshot_city]
    exact henr.city
  have hcity := fun hep => h.same_city hshort hc hep hx hid
  have hrole := hc.role
  cases ep with
  | status =>
      have hrole : u.role = .operator := of_decide_eq_true hrole
      have hcity := hcity (by decide)
      rw [hrole, hcity] at huser
      generalize hk : Endpoint.status.asked req u = k at hch
      cases hch with
      | resolve r o t _ hto hst =>
          obtain ⟨-, rfl⟩ := ReportCall.resolve.inj hk
          exact .operator u hlog huser hrole hcity hto (Or.inr ⟨hst, t, rfl⟩)
      | _ => cases hk
  | respond =>
      have hrole : u.role = .operator := of_decide_eq_true hrole
      have hcity := hcity (by decide)
      rw [hrole, hcity] at huser
      unfold Endpoint.asked at hch
      dsimp only at hch
      split_ifs at hch
      · generalize hk : ReportCall.accept (namedReport req) u.userId = k at hch
        cases hch with
        | accept r o _ hto hst =>
            obtain ⟨-, rfl⟩ := ReportCall.accept.inj hk
            exact .operator u hlog huser hrole hcity hto (Or.inl ⟨hst, Or.inl rfl⟩)
        | _ => cases hk
      · generalize hk : ReportCall.reject (namedReport req) u.userId = k at hch
        cases hch with
        | reject r o _ hto hst =>
            obtain ⟨-, rfl⟩ := ReportCall.reject.inj hk
            exact .operator u hlog huser hrole hcity hto (Or.inl ⟨hst, Or.inr rfl⟩)
        | _ => cases hk
  | feedback =>
      have hrole : u.role = .citizen := by
        simp only [Endpoint.allowed, userIsOperator, userIsAdmin, Bool.and_eq_true,
          Bool.not_eq_true', decide_eq_false_iff_not] at hrole
        have hcases := henr.snapshot_cases
        rw [← hu] at hcases
        exact hcases.resolve_right (by tauto)
      rw [hrole] at huser
      generalize hk : Endpoint.feedback.asked req u = k at hch
      cases hch with
      | rate r a stars _ hauth hst =>
          obtain ⟨-, rfl, -⟩ := ReportCall.setFeedback.inj hk
          exact .author u stars hlog huser hrole hauth hst rfl
      | _ => cases hk
  | assign =>
      have hrole : u.role = .admin := of_decide_eq_true hrole
      have hcity := hcity (by decide)
      have hop := h.named_operator hshort hc
      rw [hcity] at hop
      rw [hrole, hcity] at huser
      generalize hk : Endpoint.assign.asked req u = k at hch
      cases hch with
      | assign r o t =>
          obtain ⟨-, rfl⟩ := ReportCall.assign.inj hk
          exact .admin u _ t hlog huser hrole hcity hop rfl
      | _ => cases hk

theorem Permitted.owned (h : Permitted e w req x x') (hx : Owned w.db x) : Owned w.db x' := by
  cases h with
  | admin u o t _ _ _ _ hop hx' =>
      subst hx'
      refine ⟨hx.author, ?_⟩
      rintro _ ⟨⟩
      exact hop
  | operator u _ _ _ _ _ hch =>
      rcases hch with ⟨-, rfl | rfl⟩ | ⟨-, t, rfl⟩
      · exact ⟨hx.author, hx.assigned⟩
      · exact ⟨hx.author, by rintro _ ⟨⟩⟩
      · exact ⟨hx.author, hx.assigned⟩
  | author u stars _ _ _ _ _ hx' =>
      subst hx'
      exact ⟨hx.author, hx.assigned⟩

theorem HasUser.mono {db db' : Database} {id : ℤ} {role : UserRole} {city : Bytes}
    (hsub : ∀ row ∈ db.users, row ∈ db'.users) (h : HasUser db id role city) :
    HasUser db' id role city := by
  obtain ⟨row, hrow, hrest⟩ := h
  exact ⟨row, hsub row hrow, hrest⟩

theorem Owned.mono {db db' : Database} (hsub : ∀ row ∈ db.users, row ∈ db'.users)
    (h : Owned db x) : Owned db' x :=
  ⟨h.author.mono hsub, fun o ho => (h.assigned o ho).mono hsub⟩

theorem SessionsFrom.snapshots (hs : SessionsFrom w w') (h : Consistent w)
    (hsub : ∀ row ∈ w.db.users, row ∈ w'.db.users) :
    ∀ key s, htGet w'.sessions key = some s → ∃ row ∈ w'.db.users, s.user = cursorToUser row := by
  intro key s hk
  rcases hs.get key s hk with hk | ⟨row, hrow, hu⟩
  · obtain ⟨row, hrow, hu⟩ := h.sessions key s hk
    exact ⟨row, hsub row hrow, hu⟩
  · exact ⟨row, hsub row hrow, hu⟩

/-- The invariant after a step that has changed some rows and no account. -/
theorem Consistent.of_update (h : Consistent w) (hs : SessionsFrom w w')
    (husers : w'.db.users = w.db.users) (hseq : w'.db.userSeq = w.db.userSeq)
    (hseq' : w'.db.reportSeq = w.db.reportSeq) {g : ReportRow → Tri} {f : ReportRow → ReportRow}
    (hrows : w'.db.reports = update g f w.db.reports)
    (hf : ∀ x, holds (g x) = true → (∃ k : ReportCall, k.Changed x (f x)) ∧
      (x ∈ w.db.reports → Owned w.db (f x))) : Consistent w' := by
  have hsub : ∀ row ∈ w.db.users, row ∈ w'.db.users := by
    intro row hrow
    rw [husers]
    exact hrow
  refine ⟨hs.wf, by rw [husers, hseq]; exact h.userKeys, by rw [husers]; exact h.enrolled,
    hs.snapshots h hsub, ?_, ?_, ?_⟩
  · rw [hrows, hseq', update_column]
    · exact h.reportKeys
    · intro x hx
      obtain ⟨⟨k, hk⟩, -⟩ := hf x hx
      exact hk.submission.1
  · intro x' hx'
    rw [hrows] at hx'
    obtain ⟨x, hx, rfl⟩ := mem_update.mp hx'
    split_ifs with hg
    · obtain ⟨⟨k, hk⟩, -⟩ := hf x hg
      exact hk.status (h.status x hx)
    · exact h.status x hx
  · intro x' hx'
    rw [hrows] at hx'
    obtain ⟨x, hx, rfl⟩ := mem_update.mp hx'
    split_ifs with hg
    · exact ((hf x hg).2 hx).mono hsub
    · exact (h.owned x hx).mono hsub

theorem Consistent.of_same (h : Consistent w) (hs : SessionsFrom w w')
    (husers : w'.db.users = w.db.users) (hseq : w'.db.userSeq = w.db.userSeq)
    (hseq' : w'.db.reportSeq = w.db.reportSeq) (hrows : w'.db.reports = w.db.reports) :
    Consistent w' := by
  have hnone : affected (fun _ => some false) w.db.reports = 0 :=
    affected_eq_zero.mpr fun _ _ => rfl
  refine h.of_update hs husers hseq hseq' (g := fun _ => some false) (f := id) ?_ ?_
  · rw [hrows, update_of_affected_zero hnone]
  · intro x hx
    cases hx

theorem Consistent.registered (h : Consistent w) (hs : SessionsFrom w w')
    {username hash city salt : Bytes} {role : UserRole} (hname : Short username)
    (hcity : Short city) (hrole : role = .citizen ∨ role = .operator ∨ role = .admin)
    (hins : insertUser username hash role.toInt city salt w.db = some w'.db) : Consistent w' := by
  obtain ⟨-, id, hid, hdb⟩ := insertUser_eq_some hins
  have husers : w'.db.users = w.db.users ++ [⟨id, cstr username, cstr hash, role.toInt, cstr city,
    cstr salt⟩] := by rw [hdb]
  have hsub : ∀ row ∈ w.db.users, row ∈ w'.db.users := by
    intro row hrow
    rw [husers]
    exact List.mem_append_left _ hrow
  refine ⟨hs.wf, ?_, ?_, hs.snapshots h hsub, by rw [hdb]; exact h.reportKeys,
    by rw [StatusInRange, hdb]; exact h.status, ?_⟩
  · rw [hdb, List.map_append]
    exact h.userKeys.append hid
  · intro row hrow
    rw [husers] at hrow
    rcases List.mem_append.mp hrow with hrow | hrow
    · exact h.enrolled row hrow
    · rw [List.mem_singleton.mp hrow, cstr_eq_self hname.1, cstr_eq_self hcity.1]
      refine ⟨hname, hcity, ?_⟩
      rcases hrole with rfl | rfl | rfl
      · exact Or.inl rfl
      · exact Or.inr (Or.inl rfl)
      · exact Or.inr (Or.inr rfl)
  · intro x hx
    have hx' : x ∈ w.db.reports := by
      rw [hdb] at hx
      exact hx
    exact (h.owned x hx').mono hsub

/-- A submission is by a citizen. -/
theorem Consistent.citizen (h : Consistent w) (hlog : LoggedInAs e w req u)
    (hop : userIsOperator u = false) (hadmin : userIsAdmin u = false) :
    u.role = .citizen ∧ HasUser w.db (i64 u.userId) .citizen u.city ∧ Short u.city := by
  obtain ⟨row, hrow, rfl⟩ := h.loggedIn hlog
  have henr := h.enrolled row hrow
  have huser := h.snapshot hrow
  have hrole : (cursorToUser row).role = .citizen := by
    have hop := of_decide_eq_false hop
    have hadmin := of_decide_eq_false hadmin
    exact henr.snapshot_cases.resolve_right (by tauto)
  rw [hrole] at huser
  refine ⟨hrole, huser, ?_⟩
  rw [henr.snapshot_city]
  exact henr.city

theorem Consistent.submitted (h : Consistent w) (hs : SessionsFrom w w')
    {lat lon : Double} {category desc : Bytes} {t : ℤ} (hlog : LoggedInAs e w req u)
    (hop : userIsOperator u = false) (hadmin : userIsAdmin u = false)
    (hins : insertReport u.userId lat lon u.city category desc t w.db = some w'.db) :
    Consistent w' := by
  obtain ⟨-, huser, hcity⟩ := h.citizen hlog hop hadmin
  obtain ⟨hid, hdb⟩ := insertReport_eq_some hins
  have husers : w'.db.users = w.db.users := by rw [hdb]
  have hsub : ∀ row ∈ w.db.users, row ∈ w'.db.users := by
    intro row hrow
    rw [husers]
    exact hrow
  refine ⟨hs.wf, by rw [hdb]; exact h.userKeys, by rw [husers]; exact h.enrolled,
    hs.snapshots h hsub, ?_, ?_, ?_⟩
  · rw [hdb, List.map_append]
    exact h.reportKeys.append hid
  · intro x hx
    rw [hdb] at hx
    rcases List.mem_append.mp hx with hx | hx
    · exact h.status x hx
    · rw [List.mem_singleton.mp hx]
      exact ⟨le_rfl, show (0 : ℤ) ≤ 3 by decide⟩
  · intro x hx
    rw [hdb] at hx
    rcases List.mem_append.mp hx with hx | hx
    · exact (h.owned x hx).mono hsub
    · rw [List.mem_singleton.mp hx]
      refine ⟨?_, by rintro _ ⟨⟩⟩
      show HasUser w'.db (i64 u.userId) .citizen (cstr u.city)
      rw [cstr_eq_self hcity.1]
      exact huser.mono hsub

/-- What a request can do keeps users, sessions and reports consistent. -/
theorem Consistent.of_effect (h : Consistent w) (hs : SessionsFrom w w')
    (heff : Effect e req w w') : Consistent w' := by
  cases heff with
  | same hdb => exact h.of_same hs (by rw [hdb]) (by rw [hdb]) (by rw [hdb]) (by rw [hdb])
  | listed _ _ _ _ _ _ _ _ hdb =>
      exact h.of_same hs (by rw [hdb]) (by rw [hdb]) (by rw [hdb]) (by rw [hdb])
  | registered username hash city salt role hname hcity hrole hins =>
      exact h.registered hs hname hcity hrole hins
  | submitted u lat lon category desc t hlog hop hadmin hins =>
      exact h.submitted hs hlog hop hadmin hins
  | wrote ep u w₁ rc hlog hc hdb _ hacted =>
      have hst : StatusInRange w₁ := by
        rw [StatusInRange, hdb]
        exact h.status
      obtain ⟨husers, huseq, -⟩ := hacted.accounts
      obtain ⟨hseq, hrows⟩ := hacted.rows hst
      rw [hdb] at husers huseq hseq
      cases hrows with
      | same _ hrows => exact h.of_same hs husers huseq hseq (by rw [hrows, hdb])
      | done g f _ _ hrows hf =>
          refine h.of_update hs husers huseq hseq (by rw [hrows, hdb]) fun x hx => ?_
          obtain ⟨hid, hch⟩ := hf x hx
          exact ⟨⟨_, hch⟩, fun hmem => (h.permitted hlog hc hmem hid hch).owned (h.owned x hmem)⟩
      | torn _ _ _ _ _ _ hrows =>
          refine h.of_update hs husers huseq hseq (by rw [hrows, hdb]) fun x hx => ?_
          exact ⟨⟨_, .reset (namedReport req) x (holds_resetGuard.mp hx).2⟩,
            fun hmem => ⟨(h.owned x hmem).author, by rintro _ ⟨⟩⟩⟩

theorem Consistent.step (h : Consistent w) {resp resp' : HttpResponse}
    (hrun : handleRequest req resp e w = (resp', w')) : Consistent w' := by
  obtain ⟨hs, heff⟩ := handleRequest_effect h.wf hrun
  exact h.of_effect hs heff

end step

/-! ### Every run -/

/-- A request with the response it starts from, as a command. -/
def answer (x : HttpRequest × HttpResponse) : App HttpResponse := handleRequest x.1 x.2

theorem sessionInit_consistent {seed : UInt64} {tableOk poolOk : Bool}
    {sessions : HashTable Session} (h : sessionInit seed tableOk poolOk = some sessions) :
    Consistent (emptyWorld sessions) := by
  obtain ⟨hwf, hnil⟩ := htCreate_wf h
  have hnone : ∀ key s, htGet sessions key ≠ some s := by
    intro key s
    rw [htGet_of_entries_nil hwf hnil]
    simp
  exact ⟨hwf, keyed_nil, fun _ hrow => (List.not_mem_nil hrow).elim,
    fun key s hs => absurd hs (hnone key s), keyed_nil, fun _ hx => (List.not_mem_nil hx).elim,
    fun _ hx => (List.not_mem_nil hx).elim⟩

theorem consistent {e : Env} {seed : UInt64} {tableOk poolOk : Bool}
    {sessions : HashTable Session} (h₀ : sessionInit seed tableOk poolOk = some sessions)
    {log : List ((HttpRequest × HttpResponse) × HttpResponse)} {w : World}
    (hrun : Run answer e (emptyWorld sessions) log w) : Consistent w := by
  refine hrun.invariant (I := fun _ w => Consistent w) (sessionInit_consistent h₀) ?_
  intro log w x resp' w' hw h
  exact hw.step h

/-- The users of a state are still there, in their places, in every later one. -/
theorem users_kept {e : Env} {w₀ w : World} (h₀ : Consistent w₀)
    {log : List ((HttpRequest × HttpResponse) × HttpResponse)} (hrun : Run answer e w₀ log w) :
    w₀.db.users <+: w.db.users := by
  have hinv : Consistent w ∧ w₀.db.users <+: w.db.users := by
    refine hrun.invariant (I := fun _ w => Consistent w ∧ w₀.db.users <+: w.db.users)
      ⟨h₀, List.prefix_rfl⟩ ?_
    intro log w x resp' w' ⟨hw, hpre⟩ h
    exact ⟨hw.step h, hpre.trans (handleRequest_effect hw.wf h).2.users_kept⟩
  exact hinv.2

/-- **Authorization.**  Without database failures, after any requests, every report is owned as
it should be, and the next request changes only what its user may change. -/
theorem authorization {e : Env} (he : ∀ n, e.fails n = false) {seed : UInt64}
    {tableOk poolOk : Bool} {sessions : HashTable Session}
    (h₀ : sessionInit seed tableOk poolOk = some sessions)
    {log : List ((HttpRequest × HttpResponse) × HttpResponse)} {w : World}
    (hrun : Run answer e (emptyWorld sessions) log w) :
    (∀ x ∈ w.db.reports, Owned w.db x) ∧
    ∀ (req : HttpRequest) (resp resp' : HttpResponse) (w' : World),
      handleRequest req resp e w = (resp', w') →
      ∃ kept new, w'.db.reports = kept ++ new ∧
        List.Forall₂ (fun x x' => x' = x ∨ Permitted e w req x x') w.db.reports kept ∧
        ∀ x ∈ new, Submitted e w req x := by
  have hw := consistent h₀ hrun
  refine ⟨hw.owned, fun req resp resp' w' h => ?_⟩
  have hsame : ∀ {w' : World}, w'.db.reports = w.db.reports →
      ∃ kept new, w'.db.reports = kept ++ new ∧
        List.Forall₂ (fun x x' => x' = x ∨ Permitted e w req x x') w.db.reports kept ∧
        ∀ x ∈ new, Submitted e w req x := by
    intro w' hrows
    exact ⟨w.db.reports, [], by rw [hrows, List.append_nil],
      List.forall₂_same.mpr fun x _ => Or.inl rfl, by simp⟩
  cases (handleRequest_effect hw.wf h).2 with
  | same hdb => exact hsame (by rw [hdb])
  | listed _ _ _ _ _ _ _ _ hdb => exact hsame (by rw [hdb])
  | registered username hash city salt role _ _ _ hins =>
      obtain ⟨-, id, -, hdb⟩ := insertUser_eq_some hins
      exact hsame (by rw [hdb])
  | submitted u lat lon category desc t hlog hop hadmin hins =>
      obtain ⟨hrole, huser, hcity⟩ := hw.citizen hlog hop hadmin
      obtain ⟨-, hdb⟩ := insertReport_eq_some hins
      refine ⟨w.db.reports, _, by rw [hdb], List.forall₂_same.mpr fun x _ => Or.inl rfl, ?_⟩
      intro x hx
      rw [List.mem_singleton.mp hx]
      exact ⟨u, hlog, huser, hrole, rfl, cstr_eq_self hcity.1⟩
  | wrote ep u w₁ rc hlog hc hdb _ hacted =>
      have hst : StatusInRange w₁ := by
        rw [StatusInRange, hdb]
        exact hw.status
      cases (hacted.rows hst).2 with
      | same _ hrows => exact hsame (by rw [hrows, hdb])
      | done g f _ _ hrows hf =>
          refine ⟨w'.db.reports, [], by rw [List.append_nil], ?_, by simp⟩
          rw [hrows, hdb, Sql.update, List.forall₂_map_right_iff, List.forall₂_same]
          intro x hx
          split_ifs with hg
          · obtain ⟨hid, hch⟩ := hf x hg
            exact Or.inr (hw.permitted hlog hc hx hid hch)
          · exact Or.inl rfl
      | torn _ _ _ _ _ hfail _ =>
          rw [he] at hfail
          cases hfail

end platform

/-! ### One report through its life -/

/-- A request for `path` with a session cookie and a form. -/
def formRaw (path cookie form : Bytes) : Bytes :=
  bytes "POST " ++ path ++ bytes " HTTP/1.1\x0d\nCookie: sid=" ++ cookie ++
    bytes "\x0d\nContent-Length: " ++ showNat form.length ++ bytes "\x0d\n\x0d\n" ++ form

def blankResponse : HttpResponse := ⟨200, none, [], 0, [], []⟩

def formRequest (path cookie form : String) : HttpRequest × HttpResponse :=
  ((httpRequestParse (formRaw (bytes path) (bytes cookie) (bytes form))).getD
    ⟨[], ⟨0, []⟩, ⟨0, []⟩, [], 0, none, 0⟩, blankResponse)

/-- The sample environment with one municipality. -/
def townEnv : @Env samplePlatform :=
  letI := samplePlatform
  { sampleEnv with cityTable := (htSet (sampleEnv).cityTable (geoKey (bytes "Torino"))
      (⟨(45000000 : ℤ), (46000000 : ℤ), (7000000 : ℤ), (8000000 : ℤ), (45500000 : ℤ),
        (7500000 : ℤ)⟩ : CityGeo) ⟨true, true, true, true, true⟩).2 }

/-- A citizen, an operator and an administrator register and log in; a report is submitted,
assigned, accepted, resolved and rated, with two refused attempts in between. -/
def sampleRequests : List (HttpRequest × HttpResponse) := [
  formRequest "/register" "" "username=ada&password=secret1&city=Torino&role=0",
  formRequest "/register" "" "username=bob&password=secret2&city=Torino&role=1",
  formRequest "/register" "" "username=eva&password=secret3&city=Torino&role=2",
  formRequest "/login" "" "username=ada&password=secret1",
  formRequest "/login" "" "username=bob&password=secret2",
  formRequest "/login" "" "username=eva&password=secret3",
  formRequest "/submit" "aaaaaaaaaaaaaaaaaaaaaaaaaaaaaaa0" "description=via%20Po&lat=45.1&lon=7.6",
  formRequest "/api/admin/assign" "aaaaaaaaaaaaaaaaaaaaaaaaaaaaaaa0" "report_id=1&operator_id=2",
  formRequest "/api/admin/assign" "aaaaaaaaaaaaaaaaaaaaaaaaaaaaaaa2" "report_id=1&operator_id=2",
  formRequest "/api/report/status" "aaaaaaaaaaaaaaaaaaaaaaaaaaaaaaa1" "report_id=1&status=3",
  formRequest "/api/report/respond" "aaaaaaaaaaaaaaaaaaaaaaaaaaaaaaa1" "report_id=1&action=accept",
  formRequest "/api/report/status" "aaaaaaaaaaaaaaaaaaaaaaaaaaaaaaa1" "report_id=1&status=3",
  formRequest "/api/report/feedback" "aaaaaaaaaaaaaaaaaaaaaaaaaaaaaaa0" "report_id=1&stars=5"]

def sampleAnswered : List ((HttpRequest × HttpResponse) × HttpResponse) × @World samplePlatform :=
  letI := samplePlatform
  Run.exec answer townEnv (emptyWorld noSessions) sampleRequests

theorem run_sampleAnswered :
    Run (@answer samplePlatform) townEnv (@emptyWorld samplePlatform noSessions)
      sampleAnswered.1 sampleAnswered.2 := Run.of_exec _ _ _ _

theorem authorization_sampleRequests :
    letI := samplePlatform
    (sampleAnswered.1.map (fun x => x.2.statusCode),
      sampleAnswered.2.db.reports.map fun x => (x.status, x.assignedTo, x.feedback)) =
      ([302, 302, 302, 302, 302, 302, 302, 403, 200, 403, 200, 200, 200],
        [(3, some 2, some 5)]) ∧
    ∀ x ∈ sampleAnswered.2.db.reports, Owned sampleAnswered.2.db x :=
  letI := samplePlatform
  ⟨by decide +kernel,
    (authorization (e := townEnv) (fun _ => rfl) sessionInit_noSessions run_sampleAnswered).1⟩

end Segnalacity
