import Segnalacity.Lifecycle

/-! # Ownership and finality of reports

A call that changes a report is an event of it, and the abstract machine `Phase` says which
events may follow which.  `Phase.Matches` ties a phase to the columns of a row, and an update whose
guard holds makes a step of the machine (`Write.advances`).  So in every run from an empty table
the row of a report is in the phase that its events lead to (`Tracked`), and what the abstract
machine says about lists of events holds of the calls that succeeded: `ownership_and_finality`. -/

namespace Segnalacity

open CStr StateProg Sql

/-! ### The abstract machine -/

inductive Phase where
  | free
  | assigned (operatorId : UInt64)
  | working (operatorId : UInt64)
  | done (operatorId : UInt64) (rated : Bool)
deriving DecidableEq, Repr

namespace Phase

def step : Phase → ReportEvent → Option Phase
  | free, .assign o => some (assigned o)
  | assigned o, .accept o' => if o' = o then some (working o) else none
  | assigned o, .reject o' => if o' = o then some free else none
  | assigned _, .reset => some free
  | working o, .resolve o' => if o' = o then some (done o false) else none
  | done o false, .rate => some (done o true)
  | _, _ => none

/-- The phase after a list of events. -/
def after (ph : Phase) (es : List ReportEvent) : Option Phase := es.foldlM step ph

theorem after_cons (ph : Phase) (ev : ReportEvent) (es : List ReportEvent) :
    ph.after (ev :: es) = (ph.step ev).bind fun ph' => ph'.after es := rfl

theorem after_append (ph : Phase) (es es' : List ReportEvent) :
    ph.after (es ++ es') = (ph.after es).bind fun ph' => ph'.after es' := by
  unfold after
  rw [List.foldlM_append]
  rfl

theorem after_concat (ph : Phase) (es : List ReportEvent) (ev : ReportEvent) :
    ph.after (es ++ [ev]) = (ph.after es).bind fun ph' => ph'.step ev := by
  rw [after_append]
  congr 1
  funext ph'
  simp [after]

/-- The last event of a nonempty history and the phase before it. -/
theorem after_eq_some {ph ph' : Phase} {es : List ReportEvent} (h : ph.after es = some ph') :
    (es = [] ∧ ph' = ph) ∨
      ∃ es' ev ph₁, es = es' ++ [ev] ∧ ph.after es' = some ph₁ ∧ ph₁.step ev = some ph' := by
  rcases List.eq_nil_or_concat es with rfl | ⟨es', ev, rfl⟩
  · exact Or.inl ⟨rfl, (Option.some.inj h).symm⟩
  · rw [List.concat_eq_append, after_concat] at h
    obtain ⟨ph₁, h₁, h₂⟩ := Option.bind_eq_some_iff.mp h
    exact Or.inr ⟨es', ev, ph₁, List.concat_eq_append, h₁, h₂⟩

theorem step_eq_assigned {ph : Phase} {ev : ReportEvent} {o : UInt64}
    (h : ph.step ev = some (assigned o)) : ph = free ∧ ev = .assign o := by
  cases ph <;> cases ev <;> simp_all [step]
  rename_i rated
  cases rated <;> simp at h

theorem step_eq_working {ph : Phase} {ev : ReportEvent} {o : UInt64}
    (h : ph.step ev = some (working o)) : ph = assigned o ∧ ev = .accept o := by
  cases ph <;> cases ev <;> simp_all [step]
  rename_i rated
  cases rated <;> simp at h

theorem step_resolve {ph ph' : Phase} {o : UInt64} (h : ph.step (.resolve o) = some ph') :
    ph = working o ∧ ph' = done o false := by
  cases ph with
  | done _ rated => cases rated <;> simp [step] at h
  | working o' =>
      simp only [step] at h
      split_ifs at h with ho
      subst ho
      exact ⟨rfl, (Option.some.inj h).symm⟩
  | _ => simp [step] at h

theorem step_assign {ph ph' : Phase} {o : UInt64} (h : ph.step (.assign o) = some ph') :
    ph = .free ∧ ph' = .assigned o := by
  cases ph with
  | free => exact ⟨rfl, (Option.some.inj h).symm⟩
  | done _ rated => cases rated <;> simp [step] at h
  | _ => simp [step] at h

theorem step_done {ph : Phase} {ev : ReportEvent} {o : UInt64} {rated : Bool}
    (h : (done o rated).step ev = some ph) : ev = .rate ∧ rated = false ∧ ph = done o true := by
  cases rated <;> cases ev <;> simp_all [step]

/-- The events of a run up to one of them. -/
theorem after_prefix {es es' : List ReportEvent} {ev : ReportEvent} {ph : Phase}
    (h : free.after (es ++ ev :: es') = some ph) :
    ∃ ph₁ ph₂, free.after es = some ph₁ ∧ ph₁.step ev = some ph₂ ∧
      ph₂.after es' = some ph := by
  rw [after_append] at h
  obtain ⟨ph₁, h₁, h₂⟩ := Option.bind_eq_some_iff.mp h
  obtain ⟨ph₂, h₃, h₄⟩ := Option.bind_eq_some_iff.mp ((after_cons _ _ _).symm.trans h₂)
  exact ⟨ph₁, ph₂, h₁, h₃, h₄⟩

/-- Before a resolution come exactly the assignment and the acceptance of its operator. -/
theorem before_working {es : List ReportEvent} {o : UInt64}
    (h : free.after es = some (working o)) : ∃ es', es = es' ++ [.assign o, .accept o] := by
  rcases after_eq_some h with ⟨-, hph⟩ | ⟨es₁, ev₁, ph₁, rfl, h₁, hs₁⟩
  · cases hph
  · obtain ⟨rfl, rfl⟩ := step_eq_working hs₁
    rcases after_eq_some h₁ with ⟨-, hph⟩ | ⟨es₂, ev₂, ph₂, rfl, -, hs₂⟩
    · cases hph
    · obtain ⟨-, rfl⟩ := step_eq_assigned hs₂
      exact ⟨es₂, by simp⟩

/-- After a resolution nothing happens but one rating. -/
theorem after_done {es : List ReportEvent} {o : UInt64} {rated : Bool} {ph : Phase}
    (h : (done o rated).after es = some ph) :
    (es = [] ∧ ph = done o rated) ∨ (es = [.rate] ∧ rated = false ∧ ph = done o true) := by
  cases es with
  | nil => exact Or.inl ⟨rfl, (Option.some.inj h).symm⟩
  | cons ev es =>
      obtain ⟨ph₁, h₁, h₂⟩ := Option.bind_eq_some_iff.mp ((after_cons _ _ _).symm.trans h)
      obtain ⟨rfl, rfl, rfl⟩ := step_done h₁
      cases es with
      | nil => exact Or.inr ⟨rfl, rfl, (Option.some.inj h₂).symm⟩
      | cons ev' es =>
          obtain ⟨ph₂, h₃, -⟩ := Option.bind_eq_some_iff.mp ((after_cons _ _ _).symm.trans h₂)
          cases (step_done h₃).2.1

/-- Once somebody holds a report it stays held until a rejection or a reset. -/
theorem held_until {es : List ReportEvent} {ph ph' : Phase} (hph : ph ≠ free)
    (h : ph.after es = some ph') (hes : ∀ o, .reject o ∉ es) (hreset : .reset ∉ es) :
    ph' ≠ free := by
  induction es generalizing ph with
  | nil =>
      obtain rfl := Option.some.inj h
      exact hph
  | cons ev es ih =>
      obtain ⟨ph₁, h₁, h₂⟩ := Option.bind_eq_some_iff.mp ((after_cons _ _ _).symm.trans h)
      refine ih ?_ h₂ (fun o ho => hes o (List.mem_cons_of_mem _ ho))
        (fun ho => hreset (List.mem_cons_of_mem _ ho))
      rintro rfl
      have hne : ev ≠ .reset := fun he => hreset (he ▸ List.mem_cons_self)
      have hnr : ∀ o, ev ≠ .reject o := fun o he => hes o (he ▸ List.mem_cons_self)
      cases ph with
      | free => exact hph rfl
      | done _ rated => cases rated <;> cases ev <;> simp_all [step]
      | _ => cases ev <;> simp_all [step]

end Phase

section platform

variable [Platform]

/-! ### The phase of every report -/

/-- The columns of a report in a phase. -/
def Phase.Matches : Phase → ReportRow → Prop
  | .free, r => r.status = 0 ∧ r.assignedTo = none ∧ r.feedback = none
  | .assigned o, r => r.status = 1 ∧ r.assignedTo = some (i64 o) ∧ r.feedback = none
  | .working o, r => r.status = 2 ∧ r.assignedTo = some (i64 o) ∧ r.feedback = none
  | .done o rated, r => r.status = 3 ∧ r.assignedTo = some (i64 o) ∧ r.feedback.isSome = rated

/-- An update whose guard holds is a step of the abstract machine. -/
theorem Write.advances {t : ℤ} {k : ReportCall} {u : Write} (h : k.write t = some u)
    {ph : Phase} {x : ReportRow} (hm : ph.Matches x)
    (hx : holds (u.guard x) = true) :
    ∃ ph', ph.step u.event = some ph' ∧ ph'.Matches (u.set x) := by
  cases k with
  | insert => cases h
  | assign r o =>
      obtain rfl := Option.some.inj h
      obtain ⟨-, hst, hto⟩ := holds_assignGuard.mp hx
      cases ph <;> simp only [Phase.Matches, hst, hto] at hm <;> simp at hm
      exact ⟨.assigned o, rfl, rfl, rfl, hm⟩
  | accept r o =>
      obtain rfl := Option.some.inj h
      obtain ⟨-, hto, hst⟩ := operatorGuard_holds hx
      cases ph <;> simp only [Phase.Matches, hst, hto] at hm <;> simp at hm
      obtain rfl := i64_inj hm.1
      exact ⟨.working o, by simp [Phase.step], rfl, hto, hm.2⟩
  | reject r o =>
      obtain rfl := Option.some.inj h
      obtain ⟨-, hto, hst⟩ := operatorGuard_holds hx
      cases ph <;> simp only [Phase.Matches, hst, hto] at hm <;> simp at hm
      obtain rfl := i64_inj hm.1
      exact ⟨.free, by simp [Phase.step], rfl, rfl, hm.2⟩
  | resolve r o =>
      obtain rfl := Option.some.inj h
      obtain ⟨-, hto, hst⟩ := operatorGuard_holds hx
      cases ph <;> simp only [Phase.Matches, hst, hto] at hm <;> simp at hm
      obtain rfl := i64_inj hm.1
      exact ⟨.done o false, by simp [Phase.step], rfl, hto, by rw [hm.2]; rfl⟩
  | setFeedback r a stars =>
      simp only [ReportCall.write] at h
      split_ifs at h
      obtain rfl := Option.some.inj h
      obtain ⟨-, -, hst, hfb⟩ := feedbackGuard_holds hx
      cases ph <;> simp only [Phase.Matches, hst, hfb] at hm <;> simp at hm
      obtain ⟨hto, rfl⟩ := hm
      exact ⟨.done _ true, rfl, hst, hto, rfl⟩
  | reset r =>
      obtain rfl := Option.some.inj h
      obtain ⟨-, hst⟩ := holds_resetGuard.mp hx
      cases ph <;> simp only [Phase.Matches, hst] at hm <;> simp at hm
      exact ⟨.free, rfl, rfl, rfl, hm.2⟩

/-- The events of one report in a log. -/
def eventsOf (r : UInt64) (log : List (ReportCall × ℤ)) : List ReportEvent :=
  log.filterMap fun x => if x.2 = 1 then
    x.1.event.bind fun y => if y.1 = r then some y.2 else none else none


/-- The rows of one report match its events: none without events, or the one row in the phase
that the events lead to. -/
def Tracked (es : List ReportEvent) : List ReportRow → Prop
  | [] => es = []
  | [x] => ∃ ph, Phase.free.after es = some ph ∧ ph.Matches x
  | _ => False

/-- Every report is tracked and no row has an id that is still to be given. -/
structure Histories (log : List (ReportCall × ℤ)) (w : World) : Prop where
  fresh : ∀ x ∈ w.db.reports, x.id ≤ w.db.reportSeq
  tracked : ∀ r, Tracked (eventsOf r log) (selectReportsById r w.db)

theorem eventsOf_concat (r : UInt64) (log : List (ReportCall × ℤ)) (x : ReportCall × ℤ) :
    eventsOf r (log ++ [x]) = eventsOf r log ++ eventsOf r [x] := by
  unfold eventsOf
  rw [List.filterMap_append]

theorem eventsOf_failed {r : UInt64} {k : ReportCall} {rc : ℤ} (h : k.event = none ∨ rc ≠ 1) :
    eventsOf r [(k, rc)] = [] := by
  rcases h with h | h
  · simp [eventsOf, h]
  · simp [eventsOf, h]

theorem eventsOf_success {r r' : UInt64} {k : ReportCall} {ev : ReportEvent}
    (h : k.event = some (r', ev)) : eventsOf r [(k, 1)] = if r' = r then [ev] else [] := by
  by_cases hr : r' = r
  · simp [eventsOf, h, hr]
  · simp [eventsOf, h, hr]

/-- The selected rows of a report, updated. -/
theorem Write.select {t : ℤ} {k : ReportCall} {u : Write} (h : k.write t = some u)
    {db db' : Database} (hdb : db'.reports = update u.guard u.set db.reports) (r : UInt64) :
    selectReportsById r db' = update u.guard u.set (selectReportsById r db) := by
  unfold selectReportsById
  rw [hdb]
  refine select_update_comm fun x => ?_
  rw [(Write.set_submission h x).1]

/-- An update does not concern the other reports. -/
theorem Write.select_ne {t : ℤ} {k : ReportCall} {u : Write} (h : k.write t = some u)
    {db db' : Database} (hdb : db'.reports = update u.guard u.set db.reports) {r : UInt64}
    (hr : u.reportId ≠ r) : selectReportsById r db' = selectReportsById r db := by
  rw [Write.select h hdb]
  refine update_of_affected_zero (affected_eq_zero.mpr fun x hx => ?_)
  have hid : x.id = i64 r := (holds_key x.id (i64 r)).mp (mem_select.mp hx).2
  by_contra hg
  exact hr (i64_inj ((Write.guard_id h (by simpa using hg)).symm.trans hid))

/-- A successful update met its guard in the row of its report. -/
theorem Write.affected_select {t : ℤ} {k : ReportCall} {u : Write} (h : k.write t = some u)
    {db : Database} (hn : affected u.guard db.reports ≠ 0) :
    ∃ x ∈ selectReportsById u.reportId db, holds (u.guard x) = true := by
  rw [← Sql.affected_select fun x hx => (holds_key x.id (i64 u.reportId)).mpr (Write.guard_id h hx)] at hn
  exact affected_ne_zero.mp hn

theorem select_append_new {db db' : Database} {x : ReportRow} (hdb : db'.reports = db.reports ++ [x])
    (hfresh : ∀ y ∈ db.reports, y.id < x.id) (r : UInt64) :
    selectReportsById r db' = selectReportsById r db ∧ x.id ≠ i64 r ∨
      selectReportsById r db = [] ∧ selectReportsById r db' = [x] := by
  unfold selectReportsById Sql.select
  rw [hdb, List.filter_append]
  by_cases hx : x.id = i64 r
  · right
    have hnone : db.reports.filter (fun y => holds (eq3 (some y.id) (some (i64 r)))) = [] := by
      rw [List.filter_eq_nil_iff]
      intro y hy hyr
      have hlt := hfresh y hy
      rw [(holds_key y.id (i64 r)).mp hyr, hx] at hlt
      exact lt_irrefl _ hlt
    rw [hnone, List.filter_cons, if_pos ((holds_key x.id (i64 r)).mpr hx)]
    exact ⟨rfl, rfl⟩
  · left
    rw [List.filter_cons, if_neg (fun h => hx ((holds_key x.id (i64 r)).mp h))]
    exact ⟨by simp, hx⟩

theorem Histories.step {log : List (ReportCall × ℤ)} {e : Env} {k : ReportCall} {w w' : World}
    {rc : ℤ} (hw : Histories log w) (h : k.run e w = (rc, w')) :
    Histories (log ++ [(k, rc)]) w' := by
  obtain ⟨-, -, hwrote⟩ := ReportCall.run_spec h
  cases hwrote with
  | nothing hrows hseq hev =>
      refine ⟨by rw [hrows, hseq]; exact hw.fresh, fun r => ?_⟩
      rw [eventsOf_concat, eventsOf_failed hev, List.append_nil]
      unfold selectReportsById
      rw [hrows]
      exact hw.tracked r
  | inserted a lat lon city category desc hev hrows hseq _ =>
      refine ⟨?_, fun r => ?_⟩
      · intro x hx
        rw [hrows] at hx
        rw [hseq]
        rcases List.mem_append.mp hx with hx | hx
        · have := hw.fresh x hx
          omega
        · obtain rfl := List.mem_singleton.mp hx
          exact le_rfl
      · rw [eventsOf_concat, eventsOf_failed (Or.inl hev), List.append_nil]
        rcases select_append_new hrows (fun y hy => Int.lt_add_one_iff.mpr (hw.fresh y hy)) r with
          ⟨hsel, -⟩ | ⟨hold, hnew⟩
        · rw [hsel]
          exact hw.tracked r
        · have ht := hw.tracked r
          rw [hold] at ht
          rw [hnew, show eventsOf r log = [] from ht]
          exact ⟨.free, rfl, rfl, rfl, rfl⟩
  | updated u hu hrc hn hrows hseq =>
      subst hrc
      refine ⟨?_, fun r => ?_⟩
      · intro x hx
        rw [hrows] at hx
        rw [hseq]
        obtain ⟨y, hy, rfl⟩ := mem_update.mp hx
        split_ifs
        · rw [(Write.set_submission hu y).1]
          exact hw.fresh y hy
        · exact hw.fresh y hy
      · rw [eventsOf_concat, eventsOf_success (ReportCall.write_event hu)]
        by_cases hr : u.reportId = r
        · subst hr
          rw [if_pos rfl, Write.select hu hrows]
          obtain ⟨x, hx, hg⟩ := Write.affected_select hu hn
          have ht := hw.tracked u.reportId
          match hsel : selectReportsById u.reportId w.db, hx with
          | [y], hx =>
              rw [hsel] at ht
              obtain rfl := List.mem_singleton.mp hx
              obtain ⟨ph, hph, hm⟩ := ht
              obtain ⟨ph', hstep, hm'⟩ := Write.advances hu hm hg
              refine ⟨ph', by rw [Phase.after_concat, hph]; exact hstep, ?_⟩
              show ph'.Matches (if holds (u.guard x) then u.set x else x)
              rw [if_pos hg]
              exact hm'
          | y :: z :: l, _ =>
              rw [hsel] at ht
              exact ht.elim
        · rw [if_neg hr, List.append_nil, Write.select_ne hu hrows hr]
          exact hw.tracked r

theorem histories {e : Env} {w₀ w : World} (h₀ : w₀.db.reports = [])
    {log : List (ReportCall × ℤ)} (hrun : Run ReportCall.run e w₀ log w) : Histories log w := by
  refine hrun.invariant (I := Histories) ⟨by simp [h₀], fun r => ?_⟩ ?_
  · simp [selectReportsById, Sql.select, h₀, Tracked, eventsOf]
  · intro log w k rc w' hw h
    exact hw.step h

/-- The events of a report are a run of the abstract machine. -/
theorem Histories.after {log : List (ReportCall × ℤ)} {w : World} (h : Histories log w)
    (r : UInt64) : ∃ ph, Phase.free.after (eventsOf r log) = some ph := by
  have ht := h.tracked r
  match hsel : selectReportsById r w.db with
  | [] =>
      rw [hsel] at ht
      exact ⟨.free, by rw [show eventsOf r log = [] from ht]; rfl⟩
  | [x] =>
      rw [hsel] at ht
      exact ⟨ht.choose, ht.choose_spec.1⟩
  | _ :: _ :: _ =>
      rw [hsel] at ht
      exact ht.elim

/-- The row of a report something has happened to. -/
theorem Histories.row {log : List (ReportCall × ℤ)} {w : World} (h : Histories log w)
    {r : UInt64} {ph : Phase} (hph : Phase.free.after (eventsOf r log) = some ph)
    (hne : ph ≠ .free) : ∃ x, selectReportsById r w.db = [x] ∧ ph.Matches x := by
  have ht := h.tracked r
  match hsel : selectReportsById r w.db with
  | [] =>
      rw [hsel] at ht
      rw [show eventsOf r log = [] from ht] at hph
      exact absurd (Option.some.inj hph).symm hne
  | [x] =>
      rw [hsel] at ht
      obtain ⟨ph', hph', hm⟩ := ht
      rw [hph] at hph'
      obtain rfl := Option.some.inj hph'
      exact ⟨x, rfl, hm⟩
  | _ :: _ :: _ =>
      rw [hsel] at ht
      exact ht.elim

/-! ### Ownership and finality -/

/-- The call of an event in the log of a report. -/
theorem eventsOf_eq_concat {r : UInt64} {log : List (ReportCall × ℤ)} {es : List ReportEvent}
    {ev : ReportEvent} (h : eventsOf r log = es ++ [ev]) :
    ∃ p k q, log = p ++ (k, 1) :: q ∧ k.event = some (r, ev) ∧ eventsOf r p = es ∧
      eventsOf r q = [] := by
  obtain ⟨p, l, rfl, hp, hl⟩ := List.filterMap_eq_append_iff.mp h
  obtain ⟨l₁, ⟨k, rc⟩, q, rfl, hl₁, hk, hq⟩ := List.filterMap_eq_cons_iff.mp hl
  dsimp only at hk
  split_ifs at hk with hrc
  subst hrc
  obtain ⟨⟨r', ev'⟩, hev, hx⟩ := Option.bind_eq_some_iff.mp hk
  dsimp only at hx
  split_ifs at hx with hr
  subst hr
  obtain rfl := Option.some.inj hx
  refine ⟨p ++ l₁, k, q, by simp, hev, ?_, hq⟩
  unfold eventsOf
  rw [List.filterMap_append, hp, List.filterMap_eq_nil_iff.mpr hl₁, List.append_nil]

theorem eventsOf_append (r : UInt64) (p q : List (ReportCall × ℤ)) :
    eventsOf r (p ++ q) = eventsOf r p ++ eventsOf r q := List.filterMap_append

theorem eventsOf_cons {r : UInt64} {k : ReportCall} {ev : ReportEvent}
    (h : k.event = some (r, ev)) (q : List (ReportCall × ℤ)) :
    eventsOf r ((k, 1) :: q) = ev :: eventsOf r q := by
  rw [← List.singleton_append, eventsOf_append, eventsOf_success h, if_pos rfl]
  rfl

theorem mem_eventsOf {r : UInt64} {k : ReportCall} {ev : ReportEvent}
    {log : List (ReportCall × ℤ)} (h : k.event = some (r, ev)) (hmem : (k, 1) ∈ log) :
    ev ∈ eventsOf r log := by
  obtain ⟨p, q, rfl⟩ := List.append_of_mem hmem
  rw [eventsOf_append, eventsOf_cons h]
  exact List.mem_append_right _ List.mem_cons_self

theorem exists_of_mem_eventsOf {r : UInt64} {ev : ReportEvent} {log : List (ReportCall × ℤ)}
    (h : ev ∈ eventsOf r log) : ∃ k, (k, 1) ∈ log ∧ k.event = some (r, ev) := by
  obtain ⟨⟨k, rc⟩, hmem, hk⟩ := List.mem_filterMap.mp h
  dsimp only at hk
  split_ifs at hk with hrc
  subst hrc
  obtain ⟨⟨r', ev'⟩, hev, hx⟩ := Option.bind_eq_some_iff.mp hk
  dsimp only at hx
  split_ifs at hx with hr
  subst hr
  obtain rfl := Option.some.inj hx
  exact ⟨k, hmem, hev⟩

namespace ReportCall

theorem eq_assign {k : ReportCall} {r o : UInt64} (h : k.event = some (r, .assign o)) :
    k = assign r o := by
  cases k <;> simp_all [event]

theorem eq_accept {k : ReportCall} {r o : UInt64} (h : k.event = some (r, .accept o)) :
    k = accept r o := by
  cases k <;> simp_all [event]

theorem eq_reject {k : ReportCall} {r o : UInt64} (h : k.event = some (r, .reject o)) :
    k = reject r o := by
  cases k <;> simp_all [event]

theorem eq_reset {k : ReportCall} {r : UInt64} (h : k.event = some (r, .reset)) :
    k = reset r := by
  cases k <;> simp_all [event]

end ReportCall

section log

variable {e : Env} {w₀ w : World} {log : List (ReportCall × ℤ)} (r : UInt64)

/-- Before a successful resolution the report was assigned to its operator and accepted, with
nothing in between. -/
theorem resolved_by_owner (hh : Histories log w) {p q : List (ReportCall × ℤ)} {o : UInt64}
    (hlog : log = p ++ (.resolve r o, 1) :: q) :
    ∃ p₁ p₂ p₃, p = p₁ ++ (.assign r o, 1) :: p₂ ++ (.accept r o, 1) :: p₃ ∧
      eventsOf r p₂ = [] ∧ eventsOf r p₃ = [] := by
  obtain ⟨ph, hph⟩ := hh.after r
  rw [hlog, eventsOf_append, eventsOf_cons rfl] at hph
  obtain ⟨ph₁, ph₂, h₁, h₂, -⟩ := Phase.after_prefix hph
  obtain ⟨rfl, -⟩ := Phase.step_resolve h₂
  obtain ⟨es, hes⟩ := Phase.before_working h₁
  obtain ⟨p', k, p₃, rfl, hk, hp', hp₃⟩ :=
    eventsOf_eq_concat (hes.trans (List.append_assoc es [_] [_]).symm)
  obtain rfl := ReportCall.eq_accept hk
  obtain ⟨p₁, k, p₂, rfl, hk, -, hp₂⟩ := eventsOf_eq_concat hp'
  obtain rfl := ReportCall.eq_assign hk
  exact ⟨p₁, p₂, p₃, rfl, hp₂, hp₃⟩

/-- After a successful resolution the only event is one rating. -/
theorem after_resolution (hh : Histories log w) {p q : List (ReportCall × ℤ)} {o : UInt64}
    (hlog : log = p ++ (.resolve r o, 1) :: q) :
    (eventsOf r q = [] ∧ Phase.free.after (eventsOf r log) = some (.done o false)) ∨
      (eventsOf r q = [.rate] ∧ Phase.free.after (eventsOf r log) = some (.done o true)) := by
  obtain ⟨ph, hph⟩ := hh.after r
  rw [hlog, eventsOf_append, eventsOf_cons rfl] at hph ⊢
  obtain ⟨ph₁, ph₂, h₁, h₂, h₃⟩ := Phase.after_prefix hph
  obtain ⟨-, rfl⟩ := Phase.step_resolve h₂
  rcases Phase.after_done h₃ with ⟨hes, rfl⟩ | ⟨hes, -, rfl⟩
  · exact Or.inl ⟨hes, hph⟩
  · exact Or.inr ⟨hes, hph⟩

theorem resolved_once (hh : Histories log w) {p q s : List (ReportCall × ℤ)} {o o' : UInt64} :
    log ≠ p ++ (.resolve r o, 1) :: q ++ (.resolve r o', 1) :: s := by
  intro hlog
  rw [List.append_assoc, List.cons_append] at hlog
  have hmem : ReportEvent.resolve o' ∈ eventsOf r (q ++ (.resolve r o', 1) :: s) :=
    mem_eventsOf rfl (List.mem_append_right _ List.mem_cons_self)
  rcases after_resolution r hh hlog with ⟨hes, -⟩ | ⟨hes, -⟩
  · rw [hes] at hmem
    cases hmem
  · rw [hes] at hmem
    cases List.mem_singleton.mp hmem

theorem rated_once (hh : Histories log w) {p q s : List (ReportCall × ℤ)} {a a' : UInt64}
    {n n' : ℤ} :
    log ≠ p ++ (.setFeedback r a n, 1) :: q ++ (.setFeedback r a' n', 1) :: s := by
  intro hlog
  obtain ⟨ph, hph⟩ := hh.after r
  rw [hlog, List.append_assoc, eventsOf_append, List.cons_append, eventsOf_cons rfl] at hph
  obtain ⟨ph₁, ph₂, -, h₂, h₃⟩ := Phase.after_prefix hph
  have hmem : ReportEvent.rate ∈ eventsOf r (q ++ (.setFeedback r a' n', 1) :: s) :=
    mem_eventsOf rfl (List.mem_append_right _ List.mem_cons_self)
  obtain ⟨o, rfl⟩ : ∃ o, ph₂ = .done o true := by
    cases ph₁ with
    | done o rated =>
        obtain ⟨-, -, rfl⟩ := Phase.step_done h₂
        exact ⟨o, rfl⟩
    | _ => simp [Phase.step] at h₂
  rcases Phase.after_done h₃ with ⟨hes, -⟩ | ⟨-, h, -⟩
  · rw [hes] at hmem
    cases hmem
  · cases h

theorem reassigned_after_release (hh : Histories log w) {p q s : List (ReportCall × ℤ)}
    {o o' : UInt64} (hlog : log = p ++ (.assign r o, 1) :: q ++ (.assign r o', 1) :: s) :
    (∃ o'', (.reject r o'', 1) ∈ q) ∨ (.reset r, 1) ∈ q := by
  obtain ⟨ph, hph⟩ := hh.after r
  rw [hlog, List.append_assoc, eventsOf_append, List.cons_append, eventsOf_cons rfl,
    eventsOf_append, eventsOf_cons rfl] at hph
  obtain ⟨ph₁, ph₂, -, h₂, h₃⟩ := Phase.after_prefix hph
  obtain ⟨-, rfl⟩ := Phase.step_assign h₂
  rw [Phase.after_append] at h₃
  obtain ⟨ph₃, h₄, h₅⟩ := Option.bind_eq_some_iff.mp h₃
  obtain ⟨ph₄, h₆, -⟩ := Option.bind_eq_some_iff.mp ((Phase.after_cons _ _ _).symm.trans h₅)
  by_contra hno
  push Not at hno
  refine Phase.held_until (by simp) h₄ (fun o'' ho => ?_) (fun hreset => ?_) (Phase.step_assign h₆).1
  · obtain ⟨k, hk, hev⟩ := exists_of_mem_eventsOf ho
    obtain rfl := ReportCall.eq_reject hev
    exact hno.1 o'' hk
  · obtain ⟨k, hk, hev⟩ := exists_of_mem_eventsOf hreset
    obtain rfl := ReportCall.eq_reset hev
    exact hno.2 hk

end log

/-- The row of a report before and after: nothing but a missing rating may have changed. -/
def OnlyFeedback (x x' : ReportRow) : Prop :=
  x' = { x with feedback := x'.feedback } ∧ (x.feedback ≠ none → x' = x)

theorem OnlyFeedback.refl (x : ReportRow) : OnlyFeedback x x := ⟨rfl, fun _ => rfl⟩

theorem OnlyFeedback.trans {x y z : ReportRow} (h : OnlyFeedback x y) (h' : OnlyFeedback y z) :
    OnlyFeedback x z := by
  refine ⟨?_, fun hx => ?_⟩
  · rw [h'.1, h.1]
  · have hy := h.2 hx
    rw [hy] at h'
    exact h'.2 hx

/-- A call that changes a resolved report rates it. -/
theorem Write.onlyFeedback {t : ℤ} {k : ReportCall} {u : Write} (h : k.write t = some u)
    {x : ReportRow} (hst : x.status = 3) (hg : holds (u.guard x) = true) :
    OnlyFeedback x (u.set x) := by
  cases k with
  | insert => cases h
  | assign r o =>
      obtain rfl := Option.some.inj h
      have := (holds_assignGuard.mp hg).2.1
      omega
  | accept r o =>
      obtain rfl := Option.some.inj h
      have := (operatorGuard_holds hg).2.2
      omega
  | reject r o =>
      obtain rfl := Option.some.inj h
      have := (operatorGuard_holds hg).2.2
      omega
  | resolve r o =>
      obtain rfl := Option.some.inj h
      have := (operatorGuard_holds hg).2.2
      omega
  | setFeedback r a stars =>
      simp only [ReportCall.write] at h
      split_ifs at h
      obtain rfl := Option.some.inj h
      exact ⟨rfl, fun hne => absurd (feedbackGuard_holds hg).2.2.2 hne⟩
  | reset r =>
      obtain rfl := Option.some.inj h
      have := (holds_resetGuard.mp hg).2
      omega

/-- One call on a resolved report. -/
theorem resolved_step {log : List (ReportCall × ℤ)} {e : Env} {k : ReportCall} {w w' : World}
    {rc : ℤ} (hh : Histories log w) (h : k.run e w = (rc, w')) {r : UInt64} {x : ReportRow}
    (hx : selectReportsById r w.db = [x]) (hst : x.status = 3) :
    ∃ x', selectReportsById r w'.db = [x'] ∧ OnlyFeedback x x' := by
  obtain ⟨-, -, hwrote⟩ := ReportCall.run_spec h
  cases hwrote with
  | nothing hrows _ _ =>
      refine ⟨x, ?_, OnlyFeedback.refl x⟩
      unfold selectReportsById at hx ⊢
      rw [hrows]
      exact hx
  | inserted a lat lon city category desc _ hrows _ _ =>
      refine ⟨x, ?_, OnlyFeedback.refl x⟩
      rcases select_append_new hrows (fun y hy => Int.lt_add_one_iff.mpr (hh.fresh y hy)) r with
        ⟨hsel, -⟩ | ⟨hold, -⟩
      · rw [hsel, hx]
      · rw [hx] at hold
        cases hold
  | updated u hu _ _ hrows _ =>
      rw [Write.select hu hrows, hx]
      refine ⟨if holds (u.guard x) then u.set x else x, rfl, ?_⟩
      by_cases hg : holds (u.guard x) = true
      · rw [if_pos hg]
        exact Write.onlyFeedback hu hst hg
      · rw [if_neg hg]
        exact OnlyFeedback.refl x

theorem resolved_final {e : Env} {w₁ w : World} {p q : List (ReportCall × ℤ)}
    (hh : Histories p w₁) {r : UInt64} {x : ReportRow} (hx : selectReportsById r w₁.db = [x])
    (hst : x.status = 3) (hrun : Run ReportCall.run e w₁ q w) :
    ∃ x', selectReportsById r w.db = [x'] ∧ OnlyFeedback x x' := by
  have hinv : Histories (p ++ q) w ∧
      ∃ x', selectReportsById r w.db = [x'] ∧ OnlyFeedback x x' := by
    refine hrun.invariant (I := fun q w => Histories (p ++ q) w ∧
      ∃ x', selectReportsById r w.db = [x'] ∧ OnlyFeedback x x') ?_ ?_
    · exact ⟨by rw [List.append_nil]; exact hh, x, hx, OnlyFeedback.refl x⟩
    · rintro q w k rc w' ⟨hh', y, hy, hxy⟩ h
      have hst' : y.status = 3 := by rw [hxy.1]; exact hst
      obtain ⟨z, hz, hyz⟩ := resolved_step hh' h hy hst'
      exact ⟨by rw [← List.append_assoc]; exact hh'.step h, z, hz, hxy.trans hyz⟩
  exact hinv.2

/-- A report in progress is not changed by assignments, rejections and resets. -/
theorem working_kept {e : Env} {w w' : World} {k : ReportCall} {rc : ℤ} {r : UInt64}
    {x : ReportRow} (hx : selectReportsById r w.db = [x]) (hst : x.status = 2)
    (hk : ∃ r' o, k = .assign r' o ∨ k = .reject r' o ∨ k = .reset r')
    (h : k.run e w = (rc, w')) : selectReportsById r w'.db = [x] := by
  obtain ⟨-, -, hwrote⟩ := ReportCall.run_spec h
  cases hwrote with
  | nothing hrows _ _ =>
      unfold selectReportsById at hx ⊢
      rw [hrows]
      exact hx
  | inserted a lat lon city category desc hev _ _ _ =>
      obtain ⟨r', o, rfl | rfl | rfl⟩ := hk <;> cases hev
  | updated u hu _ _ hrows _ =>
      have hg : ¬ holds (u.guard x) = true := by
        intro hg
        obtain ⟨r', o, rfl | rfl | rfl⟩ := hk
        · obtain rfl := Option.some.inj hu
          have := (holds_assignGuard.mp hg).2.1
          omega
        · obtain rfl := Option.some.inj hu
          have := (operatorGuard_holds hg).2.2
          omega
        · obtain rfl := Option.some.inj hu
          have := (holds_resetGuard.mp hg).2
          omega
      rw [Write.select hu hrows, hx]
      show [if holds (u.guard x) then u.set x else x] = [x]
      rw [if_neg hg]

/-- No assignment, rejection or reset of the report succeeded in this part of the log. -/
def KeptBetween (r : UInt64) (log : List (ReportCall × ℤ)) : Prop :=
  (∀ o, (ReportCall.assign r o, 1) ∉ log) ∧ (∀ o, (ReportCall.reject r o, 1) ∉ log) ∧ (ReportCall.reset r, 1) ∉ log

theorem keptBetween_of_eventsOf {r : UInt64} {log : List (ReportCall × ℤ)}
    (h : eventsOf r log = []) : KeptBetween r log := by
  have hno : ∀ k ev, k.event = some (r, ev) → (k, 1) ∉ log := fun k ev hk hmem => by
    have := mem_eventsOf hk hmem
    rw [h] at this
    cases this
  exact ⟨fun o => hno _ _ rfl, fun o => hno _ _ rfl, hno _ _ rfl⟩

/-- Every successful resolution follows the last assignment, to the same operator, and its
acceptance. -/
def OwnedResolutions (r : UInt64) (log : List (ReportCall × ℤ)) : Prop :=
  ∀ (p q : List (ReportCall × ℤ)) (o : UInt64), log = p ++ (ReportCall.resolve r o, 1) :: q →
    ∃ p₁ p₂ p₃ : List (ReportCall × ℤ),
      p = p₁ ++ (ReportCall.assign r o, 1) :: p₂ ++ (ReportCall.accept r o, 1) :: p₃ ∧
        KeptBetween r (p₂ ++ p₃)

/-- At most one resolution and at most one rating succeed. -/
def AtMostOnce (r : UInt64) (log : List (ReportCall × ℤ)) : Prop :=
  (∀ (p q s : List (ReportCall × ℤ)) (o o' : UInt64),
    log ≠ p ++ (ReportCall.resolve r o, 1) :: q ++ (ReportCall.resolve r o', 1) :: s) ∧
  ∀ (p q s : List (ReportCall × ℤ)) (a a' : UInt64) (n n' : ℤ),
    log ≠ p ++ (ReportCall.setFeedback r a n, 1) :: q ++ (ReportCall.setFeedback r a' n', 1) :: s

/-- Between two successful assignments lies a rejection or a reset. -/
def ReleasedBetween (r : UInt64) (log : List (ReportCall × ℤ)) : Prop :=
  ∀ (p q s : List (ReportCall × ℤ)) (o o' : UInt64),
    log = p ++ (ReportCall.assign r o, 1) :: q ++ (ReportCall.assign r o', 1) :: s →
      (∃ o'', (ReportCall.reject r o'', 1) ∈ q) ∨ (ReportCall.reset r, 1) ∈ q

/-- **Ownership and finality in every run of the report operations.**  In any two states after
a resolution the row differs at most in a rating given once, and a report in progress is not
taken away by an assignment, a rejection or a reset. -/
theorem ownership_and_finality {e : Env} {w₀ w : World} (h₀ : w₀.db.reports = [])
    {log : List (ReportCall × ℤ)} (hrun : Run ReportCall.run e w₀ log w) (r : UInt64) :
    OwnedResolutions r log ∧ AtMostOnce r log ∧
    (∀ (p q : List (ReportCall × ℤ)) (w₁ : World), log = p ++ q →
      (∃ o, (ReportCall.resolve r o, 1) ∈ p) → Run ReportCall.run e w₀ p w₁ →
      Run ReportCall.run e w₁ q w → ∃ x x', selectReportsById r w₁.db = [x] ∧
        selectReportsById r w.db = [x'] ∧ OnlyFeedback x x') ∧
    ReleasedBetween r log ∧
    (∀ (k : ReportCall) (x : ReportRow) (rc : ℤ) (w' : World), selectReportsById r w.db = [x] →
      x.status = 2 →
      (∃ r' o, k = ReportCall.assign r' o ∨ k = ReportCall.reject r' o ∨ k = ReportCall.reset r') →
      k.run e w = (rc, w') → selectReportsById r w'.db = [x]) := by
  have hh := histories h₀ hrun
  refine ⟨?_, ⟨?_, ?_⟩, ?_, ?_, ?_⟩
  · intro p q o hlog
    obtain ⟨p₁, p₂, p₃, rfl, hp₂, hp₃⟩ := resolved_by_owner r hh hlog
    exact ⟨p₁, p₂, p₃, rfl, keptBetween_of_eventsOf (by rw [eventsOf_append, hp₂, hp₃]; rfl)⟩
  · intro p q s o o'
    exact resolved_once r hh
  · intro p q s a a' n n'
    exact rated_once r hh
  · rintro p q w₁ - ⟨o, ho⟩ hp hq
    have hh₁ := histories h₀ hp
    obtain ⟨p₁, p₂, hsplit⟩ := List.append_of_mem ho
    have hdone : ∃ rated, Phase.free.after (eventsOf r p) = some (.done o rated) := by
      rcases after_resolution r hh₁ hsplit with ⟨-, hph⟩ | ⟨-, hph⟩
      · exact ⟨false, hph⟩
      · exact ⟨true, hph⟩
    obtain ⟨rated, hph⟩ := hdone
    obtain ⟨x, hx, hm⟩ := hh₁.row hph (by simp)
    obtain ⟨x', hx', hxx'⟩ := resolved_final hh₁ hx hm.1 hq
    exact ⟨x, x', hx, hx', hxx'⟩
  · intro p q s o o' hlog
    exact reassigned_after_release r hh hlog
  · intro k x rc w' hx hst hk h
    exact working_kept hx hst hk h

end platform

theorem ownership_and_finality_sampleCalls :
    letI := samplePlatform
    let log := (Run.exec ReportCall.run sampleEnv sampleWorld sampleCalls).1
    eventsOf 1 log = [.assign 2, .reject 2, .assign 3, .reset, .assign 2, .accept 2, .resolve 2,
      .rate] ∧ OwnedResolutions 1 log ∧ AtMostOnce 1 log ∧ ReleasedBetween 1 log :=
  letI := samplePlatform
  have h := @ownership_and_finality samplePlatform sampleEnv sampleWorld _ rfl _
    (Run.of_exec _ _ _ sampleCalls) 1
  ⟨by decide +kernel, h.1, h.2.1, h.2.2.2.1⟩

end Segnalacity
