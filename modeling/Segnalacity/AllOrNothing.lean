import Segnalacity.Authorization

/-! # All or nothing

Each writing endpoint reads, and then issues one guarded update, so a failure at any call leaves
the reports as they were.  The exception is the forced reassignment: it resets the report and
assigns it again by two statements.  `all_or_nothing_iff` says that an endpoint is atomic unless
the second of these fails after all before it have succeeded (`Torn`). -/

namespace Segnalacity

open CStr StateProg Sql Http HashTable

section platform

variable [Platform]

/-! ### Dispatch to the endpoints -/

theorem Endpoint.handleRequest_eq {ep : Endpoint} {req : HttpRequest} {resp : HttpResponse}
    (hpath : httpIsRequestPath req ep.path = true)
    (hmethod : httpIsRequestMethod req (bytes "POST") = true) :
    handleRequest req resp = ep.handler req resp := by
  cases ep with
  | status =>
      exact Segnalacity.handleRequest_eq 13 (bytes "POST") (bytes "/api/report/status") rfl
        (by decide) hpath hmethod
  | respond =>
      exact Segnalacity.handleRequest_eq 14 (bytes "POST") (bytes "/api/report/respond") rfl
        (by decide) hpath hmethod
  | feedback =>
      exact Segnalacity.handleRequest_eq 15 (bytes "POST") (bytes "/api/report/feedback") rfl
        (by decide) hpath hmethod
  | assign =>
      exact Segnalacity.handleRequest_eq 16 (bytes "POST") (bytes "/api/admin/assign") rfl
        (by decide) hpath hmethod

/-! ### The property and its exception -/

/-- The answer of a writing endpoint tells what happened to the reports: without status 200
nothing, with it the one change that was asked for. -/
structure AllOrNothing (e : Env) (ep : Endpoint) (req : HttpRequest) (w w' : World)
    (status : ℕ) : Prop where
  nothing : status ≠ 200 → w'.db.reports = w.db.reports
  all : status = 200 → ∃ u l₁ x x' l₂, LoggedInAs e w req u ∧ w.db.reports = l₁ ++ x :: l₂ ∧
    w'.db.reports = l₁ ++ x' :: l₂ ∧ x.id = i64 (namedReport req) ∧ (ep.asked req u).Changed x x'

/-- A permitted assignment of a report that is only assigned, in which every call succeeds up to
the reset and the next one fails. -/
structure Torn (e : Env) (req : HttpRequest) (w : World) : Prop where
  permitted : ∃ u, LoggedInAs e w req u ∧ Endpoint.assign.Checked w.db req u
  pending : ∃ x ∈ w.db.reports, x.id = i64 (namedReport req) ∧ x.status = 1
  succeed : ∀ i < 8, e.fails (w.ctr.calls + i) = false
  fail : e.fails (w.ctr.calls + 8) = true

section runs
variable {e : Env} {w w' : World} {req : HttpRequest} {u : User}

/-! ### Reads that succeed -/

theorem LoggedInAs.getSessionUser (h : LoggedInAs e w req u) {v : Option User}
    (hrun : getSessionUser req e w = (v, w')) : v = some u ∧ w' = w.tick := by
  obtain ⟨hne, s, hs, rfl, hlive⟩ := h
  rcases getSessionUser_run hrun with ⟨-, hnil, -⟩ | ⟨-, hverify⟩
  · exact absurd hnil hne
  · rcases sessionVerify_run hverify with ⟨hnone, -⟩ | ⟨s', hs', ⟨hexp, -⟩ | ⟨-, rfl, rfl⟩⟩
    · rw [hs] at hnone
      cases hnone
    · obtain rfl := Option.some.inj (hs.symm.trans hs')
      omega
    · obtain rfl := Option.some.inj (hs.symm.trans hs')
      exact ⟨rfl, rfl⟩

theorem firstRow_found {α : Type} {query : Database → List α} {r : Option α} {x : α}
    (h : firstRow query e w = (r, w')) (hf : e.fails w.ctr.calls = false)
    (hf' : e.fails (w.ctr.calls + 1) = false) (hx : (query w.db).head? = some x) :
    r = some x ∧ w' = w.call.call := by
  rcases firstRow_run h with ⟨-, hfail, -⟩ | ⟨rfl, -, rfl⟩
  · rw [hf] at hfail
    cases hfail
  · rw [hf', hx]
    exact ⟨rfl, rfl⟩

theorem reportGetById_found {id : UInt64} {r : Option Report} {x : ReportRow} {seq : ℤ}
    (h : reportGetById id e w = (r, w')) (hf : e.fails w.ctr.calls = false)
    (hf' : e.fails (w.ctr.calls + 1) = false)
    (hkeys : Keyed (w.db.reports.map ReportRow.id) seq) (hx : x ∈ w.db.reports)
    (hid : x.id = i64 id) : r = some (cursorToReport x) ∧ w' = w.call.call := by
  obtain ⟨row, w₁, h₁, h₂⟩ := Prog.bind_run_iff.mp h
  obtain ⟨rfl, rfl⟩ := Prog.pure_run_iff.mp h₂
  have hhead : (selectReportsById id w.db).head? = some x := by
    refine head?_select_eq_some hx ((holds_key x.id _).mpr hid) fun y hy hyid => ?_
    exact hkeys.eq_of_mem hy hx (((holds_key y.id _).mp hyid).trans hid.symm)
  obtain ⟨rfl, rfl⟩ := firstRow_found h₁ hf hf' hhead
  exact ⟨rfl, rfl⟩

theorem userGetById_found {id : UInt64} {r : Option User} {x : UserRow}
    (h : userGetById id e w = (r, w')) (hf : e.fails w.ctr.calls = false)
    (hf' : e.fails (w.ctr.calls + 1) = false)
    (hkeys : Keyed (w.db.users.map UserRow.id) w.db.userSeq) (hx : x ∈ w.db.users)
    (hid : x.id = i64 id) : r = some (cursorToUser x) ∧ w' = w.call.call := by
  obtain ⟨row, w₁, h₁, h₂⟩ := Prog.bind_run_iff.mp h
  obtain ⟨rfl, rfl⟩ := Prog.pure_run_iff.mp h₂
  have hhead : (selectUsersById id w.db).head? = some x := by
    refine head?_select_eq_some hx ((holds_key x.id _).mpr hid) fun y hy hyid => ?_
    exact hkeys.eq_of_mem hy hx (((holds_key y.id _).mp hyid).trans hid.symm)
  obtain ⟨rfl, rfl⟩ := firstRow_found h₁ hf hf' hhead
  exact ⟨rfl, rfl⟩

/-! ### The torn assignment -/

/-- The reset is carried out and the assignment behind it is not. -/
theorem forceAssign_torn {r o : UInt64} {x : ReportRow} {rc : ℤ}
    (hkeys : Keyed (w.db.reports.map ReportRow.id) w.db.reportSeq) (hx : x ∈ w.db.reports)
    (hid : x.id = i64 r) (hst : x.status = 1)
    (hok : ∀ i < 3, e.fails (w.ctr.calls + i) = false) (hfail : e.fails (w.ctr.calls + 3) = true)
    (h : forceAssign r o e w = (rc, w')) :
    rc = -1 ∧ w'.db.reports = update (resetGuard r) unassign w.db.reports := by
  obtain ⟨rr, w₁, h₁, h₂⟩ := Prog.bind_run_iff.mp h
  obtain ⟨rfl, rfl⟩ := reportGetById_found h₁ (hok 0 (by omega)) (hok 1 (by omega)) hkeys hx hid
  have hassigned : (cursorToReport x).status = .assigned := by
    unfold cursorToReport
    rw [hst]
    rfl
  rcases Prog.ite_run_iff.mp h₂ with ⟨-, h₃⟩ | ⟨hno, -⟩
  · obtain ⟨rc₁, w₂, h₄, h₅⟩ := Prog.bind_run_iff.mp h₃
    obtain ⟨-, -, -, hcalls, -, ⟨-, hf, -⟩ | ⟨-, -, hrows⟩⟩ := resetReport_run h₄
    · rw [show e.fails w.call.call.ctr.calls = false from hok 2 (by omega)] at hf
      cases hf
    · have hf' : e.fails w₂.tick.ctr.calls = true := by
        rw [← hfail]
        exact congrArg e.fails hcalls
      cases (assign_updated h₅).2 with
      | error _ hdb _ => exact ⟨rfl, by rw [hdb]; exact hrows⟩
      | missed hok' =>
          rw [hf'] at hok'
          cases hok'
      | done _ _ _ hok' =>
          rw [hf'] at hok'
          cases hok'
  · exact absurd (by simpa using hassigned) hno

theorem Torn.run (hw : Consistent w) (ht : Torn e req w) {resp resp' : HttpResponse}
    (h : routeApiAdminAssign req resp e w = (resp', w')) : resp'.statusCode ≠ 200 ∧
      w'.db.reports = update (resetGuard (namedReport req)) unassign w.db.reports := by
  obtain ⟨u, hlog, hc⟩ := ht.permitted
  obtain ⟨x, hx, hid, hst⟩ := ht.pending
  obtain ⟨y, hy, hyid, hcity⟩ := hc.city (by decide)
  obtain rfl := hw.reportKeys.eq_of_mem hx hy (hid.trans hyid.symm)
  obtain ⟨row, hrow, hrid, hop, hopcity⟩ := hc.operator rfl
  have hok := ht.succeed
  obtain ⟨u', w₁, h₁, h₂⟩ := Prog.bind_run_iff.mp h
  obtain ⟨u₀, w₀, h₀, h₀'⟩ := Prog.bind_run_iff.mp h₁
  obtain ⟨rfl, rfl⟩ := hlog.getSessionUser h₀
  obtain ⟨rfl, rfl⟩ := Prog.pure_run_iff.mp h₀'
  have hadmin : userIsAdmin u = true := hc.role
  rw [Option.filter_some, if_pos hadmin] at h₂
  -- a form without one of the two parameters names the id 0, which no row has
  rcases Prog.ite_run_iff.mp h₂ with ⟨hnil, -⟩ | ⟨-, h₂⟩
  · have hzero : i64 (strtoull []) = 0 := by decide
    rcases (Bool.or_eq_true _ _).mp hnil with hnil | hnil
    · have hrange := (hw.reportKeys.range x.id (List.mem_map_of_mem hx)).1
      rw [hid, namedReport, of_decide_eq_true hnil, hzero] at hrange
      exact absurd hrange (lt_irrefl 0)
    · have hrange := (hw.userKeys.range row.id (List.mem_map_of_mem hrow)).1
      rw [hrid, namedOperator, of_decide_eq_true hnil, hzero] at hrange
      exact absurd hrange (lt_irrefl 0)
  obtain ⟨r, w₂, h₃, h₄⟩ := Prog.bind_run_iff.mp h₂
  obtain ⟨rfl, rfl⟩ := reportGetById_found (w := w.tick) h₃ (hok 0 (by omega)) (hok 1 (by omega))
    hw.reportKeys hx hid
  rcases Prog.ite_run_iff.mp h₄ with ⟨hother, -⟩ | ⟨-, h₅⟩
  · rw [hcity] at hother
    cases hother
  obtain ⟨op, w₃, h₆, h₇⟩ := Prog.bind_run_iff.mp h₅
  obtain ⟨rfl, rfl⟩ := userGetById_found (w := w.tick.call.call) h₆ (hok 2 (by omega))
    (hok 3 (by omega)) hw.userKeys hrow hrid
  rw [Option.filter_some, if_pos (by rw [hop, hopcity]; rfl)] at h₇
  obtain ⟨rc, w₄, h₈, h₉⟩ := Prog.bind_run_iff.mp h₇
  have hmissed : affected (assignGuard (namedReport req)) w.db.reports = 0 := by
    refine affected_eq_zero.mpr fun z hz => ?_
    by_contra hg
    obtain ⟨hzid, hz0, -⟩ := holds_assignGuard.mp (by simpa using hg)
    obtain rfl := hw.reportKeys.eq_of_mem hx hz (hid.trans hzid.symm)
    omega
  obtain ⟨hseq, hup⟩ := assign_updated (w := w.tick.call.call.call.call) h₈
  cases hup with
  | error hf =>
      rw [show e.fails w.tick.call.call.call.call.tick.ctr.calls = false from hok 4 (by omega)] at hf
      cases hf
  | done _ _ _ _ hn => exact absurd hmissed hn
  | missed _ _ hrows _ hcalls =>
      have hrows : w₄.db.reports = w.db.reports := hrows
      have hcalls : w₄.ctr.calls = w.ctr.calls + 5 := hcalls
      have hkeys : Keyed (w₄.db.reports.map ReportRow.id) w₄.db.reportSeq := by
        rw [hrows, hseq]
        exact hw.reportKeys
      rcases Prog.ite_run_iff.mp h₉ with ⟨-, h₉⟩ | ⟨hne, -⟩
      · obtain ⟨rc, w₅, h₁₀, h₁₁⟩ := Prog.bind_run_iff.mp h₉
        obtain ⟨rfl, rfl⟩ := Prog.pure_run_iff.mp h₁₁
        have hx₄ : x ∈ w₄.db.reports := by
          rw [hrows]
          exact hx
        have hok₄ : ∀ i < 3, e.fails (w₄.ctr.calls + i) = false := by
          intro i hi
          rw [hcalls, Nat.add_assoc]
          exact hok (5 + i) (by omega)
        have hfail₄ : e.fails (w₄.ctr.calls + 3) = true := by
          rw [hcalls]
          exact ht.fail
        obtain ⟨rfl, hreset⟩ := forceAssign_torn hkeys hx₄ hid hst hok₄ hfail₄ h₁₀
        rw [hrows] at hreset
        exact ⟨by simp [respWrite], hreset⟩
      · exact absurd rfl hne

end runs

/-! ### The equivalence -/

/-- **A writing endpoint is atomic unless a forced reassignment is torn.** -/
theorem all_or_nothing_iff {e : Env} {seed : UInt64} {tableOk poolOk : Bool}
    {sessions : HashTable Session} (h₀ : sessionInit seed tableOk poolOk = some sessions)
    {log : List ((HttpRequest × HttpResponse) × HttpResponse)} {w w' : World}
    (hrun : Run answer e (emptyWorld sessions) log w) {ep : Endpoint} {req : HttpRequest}
    {resp resp' : HttpResponse} (hpath : httpIsRequestPath req ep.path = true)
    (hmethod : httpIsRequestMethod req (bytes "POST") = true)
    (h : handleRequest req resp e w = (resp', w')) :
    AllOrNothing e ep req w w' resp'.statusCode ↔ ¬ (ep = .assign ∧ Torn e req w) := by
  have hw := consistent h₀ hrun
  rw [Endpoint.handleRequest_eq hpath hmethod] at h
  constructor
  · rintro hall ⟨rfl, ht⟩
    obtain ⟨hstatus, hrows⟩ := ht.run hw h
    rw [hall.nothing hstatus] at hrows
    obtain ⟨x, hx, hid, hst⟩ := ht.pending
    have heq := set_eq_of_update_eq hrows.symm hx (holds_resetGuard.mpr ⟨hid, hst⟩)
    have hst' : x.status = 0 := by
      rw [← heq]
      rfl
    omega
  · intro hnot
    cases ep.run_spec hw.wf h with
    | refused w₁ hev hread hstatus =>
        exact ⟨fun _ => by rw [hread.db, hev.data.db], fun hs => absurd hs hstatus⟩
    | acted u w₁ w₂ rc hlog hev hread hcalls hc hacted hstatus =>
        have hdb : w₂.db = w.db := hread.db.trans hev.data.db
        have hst : StatusInRange w₂ := by
          rw [StatusInRange, hdb]
          exact hw.status
        cases (hacted.rows hst).2 with
        | same hrc hrows => exact ⟨fun _ => by rw [hrows, hdb], fun hs => absurd (hstatus.mp hs) (by omega)⟩
        | done g f hrc hn hrows hf =>
            rw [hdb] at hn hrows
            obtain ⟨x, hx, hg⟩ := affected_ne_zero.mp hn
            obtain ⟨hid, hch⟩ := hf x hg
            have hnodup : w.db.reports.Nodup :=
              List.Nodup.of_map ReportRow.id (hw.reportKeys.sorted.imp fun hlt => hlt.ne)
            obtain ⟨l₁, l₂, hold, hnew⟩ := update_single (f := f) hnodup hx hg fun y hy hyg =>
              hw.reportKeys.eq_of_mem hy hx ((hf y hyg).1.trans hid.symm)
            refine ⟨fun hs => absurd (hstatus.mpr (by omega)) hs, fun _ => ?_⟩
            exact ⟨u, l₁, x, f x, l₂, hlog, hold, hrows.trans hnew, hid, hch⟩
        | torn w₃ hep hrc hn hcalls' hfail hrows =>
            rw [hdb] at hn
            obtain ⟨x, hx, hg⟩ := affected_ne_zero.mp hn
            have hsame : w₁.ctr.calls = w.ctr.calls := hev.data.calls
            have hcalls₂ := hcalls hep
            have hok := hcalls₂.trans hcalls'
            subst hep
            refine absurd ⟨rfl, ⟨u, hlog, hc⟩, ⟨x, hx, holds_resetGuard.mp hg⟩, ?_, ?_⟩ hnot
            · intro i hi
              rw [← hsame]
              exact hok.ok i hi
            · rw [← hfail, hcalls₂.calls, hsame]

end platform

/-! ### A reassignment that is torn -/

/-- The sample environment in which one database call fails. -/
def tornEnv : @Env samplePlatform :=
  letI := samplePlatform
  { townEnv with fails := fun n => n = 25 }

/-- A report is submitted and assigned. -/
def pendingRequests : List (HttpRequest × HttpResponse) := [
  formRequest "/register" "" "username=ada&password=secret1&city=Torino&role=0",
  formRequest "/register" "" "username=bob&password=secret2&city=Torino&role=1",
  formRequest "/register" "" "username=eva&password=secret3&city=Torino&role=2",
  formRequest "/login" "" "username=ada&password=secret1",
  formRequest "/login" "" "username=eva&password=secret3",
  formRequest "/submit" "aaaaaaaaaaaaaaaaaaaaaaaaaaaaaaa0" "description=via%20Po&lat=45.1&lon=7.6",
  formRequest "/api/admin/assign" "aaaaaaaaaaaaaaaaaaaaaaaaaaaaaaa1" "report_id=1&operator_id=2"]

def pendingRun : List ((HttpRequest × HttpResponse) × HttpResponse) × @World samplePlatform :=
  letI := samplePlatform
  Run.exec answer tornEnv (emptyWorld noSessions) pendingRequests

theorem run_pendingRun :
    Run (@answer samplePlatform) tornEnv (@emptyWorld samplePlatform noSessions)
      pendingRun.1 pendingRun.2 := Run.of_exec _ _ _ _

/-- The assignment once more. -/
def reassignRequest : HttpRequest :=
  (formRequest "/api/admin/assign" "aaaaaaaaaaaaaaaaaaaaaaaaaaaaaaa1" "report_id=1&operator_id=2").1

/-- A rating that comes too early. -/
def earlyRating : HttpRequest :=
  (formRequest "/api/report/feedback" "aaaaaaaaaaaaaaaaaaaaaaaaaaaaaaa0" "report_id=1&stars=5").1

theorem all_or_nothing_iff_earlyRating :
    letI := samplePlatform
    AllOrNothing tornEnv .feedback earlyRating pendingRun.2
      (handleRequest earlyRating blankResponse tornEnv pendingRun.2).2
      (handleRequest earlyRating blankResponse tornEnv pendingRun.2).1.statusCode :=
  letI := samplePlatform
  have hpath : httpIsRequestPath earlyRating Endpoint.feedback.path = true := by decide +kernel
  have hmethod : httpIsRequestMethod earlyRating (bytes "POST") = true := by decide +kernel
  (all_or_nothing_iff sessionInit_noSessions run_pendingRun hpath hmethod
    (Prog.run_of_fst rfl)).mpr fun h => by cases h.1

def tornAnswer : HttpResponse × @World samplePlatform :=
  @handleRequest samplePlatform reassignRequest blankResponse tornEnv pendingRun.2

/-- The answer is 500 and the report is open again. -/
theorem reassignment_torn :
    letI := samplePlatform
    Run answer tornEnv (emptyWorld noSessions) pendingRun.1 pendingRun.2 ∧
    httpIsRequestPath reassignRequest Endpoint.assign.path = true ∧
    httpIsRequestMethod reassignRequest (bytes "POST") = true ∧
    handleRequest reassignRequest blankResponse tornEnv pendingRun.2 =
      (tornAnswer.1, tornAnswer.2) ∧
    (tornAnswer.1.statusCode, pendingRun.2.db.reports.map ReportRow.status,
      tornAnswer.2.db.reports.map ReportRow.status) = (500, [1], [0]) ∧
    ¬ AllOrNothing tornEnv .assign reassignRequest pendingRun.2 tornAnswer.2
      tornAnswer.1.statusCode := by
  let := samplePlatform
  have hres : (tornAnswer.1.statusCode, pendingRun.2.db.reports.map ReportRow.status,
      tornAnswer.2.db.reports.map ReportRow.status) = (500, [1], [0]) := by decide +kernel
  refine ⟨run_pendingRun, by decide +kernel, by decide +kernel, Prog.run_of_fst rfl, hres, ?_⟩
  intro hall
  obtain ⟨hstatus, hrest⟩ := Prod.mk.inj hres
  obtain ⟨hold, hnew⟩ := Prod.mk.inj hrest
  have hsame := hall.nothing (by rw [hstatus]; decide)
  rw [hsame, hold] at hnew
  cases hnew

end Segnalacity
