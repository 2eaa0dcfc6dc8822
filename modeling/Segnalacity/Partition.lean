import Segnalacity.Completeness

/-! # Active and archived lists

The four queries of the two lists have `WHERE` clauses that split the reports of a user by
status.  For a citizen the clauses `status < 3` and `status = 3` do; for an operator the clauses
`status IN (1, 2)` and `status = 3` do because a report with an operator is never open
(`AssignedTaken`).  With fresh slots the two answers are the texts of the two parts:
`lists_partition`. -/

namespace Segnalacity

open CStr StateProg Sql Http HashTable

section platform

variable [Platform]

/-- What is assumed of `ORDER BY`: it reorders the rows. -/
def OrdersRows : Prop :=
  ∀ (key : ReportRow → Option ℤ) (rows : List ReportRow), (Platform.orderDesc key rows).Perm rows

/-! ### A report with an operator is not open -/

def AssignedTaken (reports : List ReportRow) : Prop :=
  ∀ x ∈ reports, x.assignedTo ≠ none → x.status ≠ 0

theorem ReportCall.Changed.taken {k : ReportCall} {x x' : ReportRow} (h : k.Changed x x')
    (hx : x.assignedTo ≠ none → x.status ≠ 0) : x'.assignedTo ≠ none → x'.status ≠ 0 := by
  cases h with
  | rate => exact hx
  | _ => simp [unassign]

theorem AssignedTaken.updated {reports : List ReportRow} {g : ReportRow → Tri}
    {f : ReportRow → ReportRow} (h : AssignedTaken reports)
    (hf : ∀ x, holds (g x) = true → ∃ k : ReportCall, k.Changed x (f x)) :
    AssignedTaken (update g f reports) := by
  intro x' hx'
  obtain ⟨x, hx, rfl⟩ := mem_update.mp hx'
  split_ifs with hg
  · obtain ⟨k, hk⟩ := hf x hg
    exact hk.taken (h x hx)
  · exact h x hx

theorem AssignedTaken.step {e : Env} {w w' : World} {req : HttpRequest}
    {resp resp' : HttpResponse} (h : AssignedTaken w.db.reports) (hw : Consistent w)
    (hrun : handleRequest req resp e w = (resp', w')) : AssignedTaken w'.db.reports := by
  cases (handleRequest_effect hw.wf hrun).2 with
  | same hdb => rwa [hdb]
  | listed _ _ _ _ _ _ _ _ hdb => rwa [hdb]
  | registered username hash city salt role _ _ _ hins =>
      obtain ⟨-, id, -, hdb⟩ := insertUser_eq_some hins
      rwa [hdb]
  | submitted u lat lon category desc t _ _ _ hins =>
      obtain ⟨-, hdb⟩ := insertReport_eq_some hins
      rw [hdb]
      intro x hx
      rcases List.mem_append.mp hx with hx | hx
      · exact h x hx
      · rw [List.mem_singleton.mp hx]
        exact fun hsome => absurd rfl hsome
  | wrote ep u w₁ rc _ _ hdb _ hacted =>
      have hst : StatusInRange w₁ := by
        rw [StatusInRange, hdb]
        exact hw.status
      rw [← hdb] at h
      cases (hacted.rows hst).2 with
      | same _ hrows => rwa [hrows]
      | done g f _ _ hrows hf =>
          rw [hrows]
          exact h.updated fun x hx => ⟨_, (hf x hx).2⟩
      | torn _ _ _ _ _ _ hrows =>
          rw [hrows]
          exact h.updated fun x hx => ⟨_, .reset (namedReport req) x (holds_resetGuard.mp hx).2⟩

/-! ### The two parts -/

/-- The statuses that a list shows. -/
def Shown (isArchived isOperator : Bool) (status : ℤ) : Prop :=
  if isArchived then status = 3 else if isOperator then status = 1 ∨ status = 2 else status < 3

theorem mem_listQuery (horder : OrdersRows) {isArchived : Bool} {userId : UInt64}
    {isOperator : Bool} {db : Database} {x : ReportRow} :
    x ∈ listQuery isArchived userId isOperator db ↔
      x ∈ db.reports ∧ Concerns userId isOperator x ∧ Shown isArchived isOperator x.status := by
  have hperm : ∀ (key : ReportRow → Option ℤ) (q : ReportRow → Tri),
      x ∈ Platform.orderDesc key (select q db.reports) ↔ x ∈ db.reports ∧ holds (q x) = true :=
    fun key q => ((horder key _).mem_iff).trans List.mem_filter
  have hto : (∃ v, x.assignedTo = some v ∧ some (i64 userId) = some v) ↔
      x.assignedTo = some (i64 userId) := by
    constructor
    · rintro ⟨v, hv, hv'⟩
      rw [hv, hv']
    · exact fun h => ⟨_, h, rfl⟩
  have hst : ∀ k : ℤ, (∃ v, some x.status = some v ∧ some k = some v) ↔ x.status = k := by
    intro k
    simp [eq_comm]
  have hlt : (∃ v v', some x.status = some v ∧ some 3 = some v' ∧ v < v') ↔ x.status < 3 := by
    simp
  cases isArchived with
  | false =>
      show x ∈ selectActive userId isOperator db ↔ _
      cases isOperator with
      | false =>
          refine (hperm _ _).trans ?_
          simp only [holds_and3, holds_lt3, holds_key, hlt]
          rfl
      | true =>
          refine (hperm _ _).trans ?_
          simp only [holds_and3, holds_or3, holds_eq3, hto, hst]
          rfl
  | true =>
      show x ∈ selectArchived userId isOperator db ↔ _
      cases isOperator with
      | false =>
          refine (hperm _ _).trans ?_
          simp only [holds_and3, holds_key]
          rfl
      | true =>
          refine (hperm _ _).trans ?_
          simp only [holds_and3, holds_eq3, hto, hst]
          rfl

omit [Platform] in
theorem shown_disjoint {isOperator : Bool} {status : ℤ} (h : Shown false isOperator status)
    (h' : Shown true isOperator status) : False := by
  have h3 : status = 3 := h'
  subst h3
  cases isOperator <;> simp [Shown] at h

/-- Every report of the user is shown by one of the lists. -/
theorem shown_cover {reports : List ReportRow} {x : ReportRow} {userId : UInt64}
    {isOperator : Bool} (htaken : AssignedTaken reports) (hx : x ∈ reports)
    (hst : 0 ≤ x.status ∧ x.status ≤ 3) (hc : Concerns userId isOperator x) :
    Shown false isOperator x.status ∨ Shown true isOperator x.status := by
  cases isOperator with
  | false =>
      show x.status < 3 ∨ x.status = 3
      omega
  | true =>
      have hto : x.assignedTo = some (i64 userId) := hc
      have h0 := htaken x hx (by rw [hto]; simp)
      show (x.status = 1 ∨ x.status = 2) ∨ x.status = 3
      omega

theorem nodup_listQuery (horder : OrdersRows) {db : Database}
    (hkeys : (db.reports.map ReportRow.id).Nodup) (isArchived : Bool) (userId : UInt64)
    (isOperator : Bool) : (listQuery isArchived userId isOperator db).Nodup := by
  have hq : ∀ (key : ReportRow → Option ℤ) (q : ReportRow → Tri),
      (Platform.orderDesc key (select q db.reports)).Nodup :=
    fun key q => (horder key _).nodup_iff.mpr (hkeys.of_map.filter _)
  cases isArchived <;> cases isOperator <;> exact hq _ _

/-- The two lists together have every report of the user exactly once. -/
theorem listQuery_split (horder : OrdersRows) {w : World} (hw : Consistent w)
    (htaken : AssignedTaken w.db.reports) (userId : UInt64) (isOperator isArchived : Bool) :
    ((listQuery isArchived userId isOperator w.db ++
      listQuery (!isArchived) userId isOperator w.db).map ReportRow.id).Nodup ∧
    ∀ x, x ∈ listQuery isArchived userId isOperator w.db ++
        listQuery (!isArchived) userId isOperator w.db ↔
      x ∈ w.db.reports ∧ Concerns userId isOperator x := by
  have hkeys : (w.db.reports.map ReportRow.id).Nodup := hw.reportKeys.sorted.imp fun h => h.ne
  have hmem : ∀ x, x ∈ listQuery isArchived userId isOperator w.db ++
        listQuery (!isArchived) userId isOperator w.db ↔
      x ∈ w.db.reports ∧ Concerns userId isOperator x := by
    intro x
    rw [List.mem_append, mem_listQuery horder, mem_listQuery horder]
    constructor
    · rintro (⟨hx, hc, -⟩ | ⟨hx, hc, -⟩)
      · exact ⟨hx, hc⟩
      · exact ⟨hx, hc⟩
    · rintro ⟨hx, hc⟩
      have hcover := shown_cover htaken hx (hw.status x hx) hc
      cases isArchived with
      | false => exact hcover.imp (fun h => ⟨hx, hc, h⟩) fun h => ⟨hx, hc, h⟩
      | true => exact hcover.symm.imp (fun h => ⟨hx, hc, h⟩) fun h => ⟨hx, hc, h⟩
  refine ⟨List.Nodup.map_on (fun x hx y hy hxy => ?_) ?_, hmem⟩
  · exact List.inj_on_of_nodup_map hkeys ((hmem x).mp hx).1 ((hmem y).mp hy).1 hxy
  · refine (nodup_listQuery horder hkeys _ _ _).append (nodup_listQuery horder hkeys _ _ _) ?_
    intro x hx hx'
    have hs := ((mem_listQuery horder).mp hx).2.2
    have hs' := ((mem_listQuery horder).mp hx').2.2
    cases isArchived with
    | false => exact shown_disjoint hs hs'
    | true => exact shown_disjoint hs' hs

/-! ### The two answers -/

/-- The list that a handler asks for. -/
def userList (isArchived : Bool) (buf : Bytes) (u : User) : App (ℕ × Bytes) :=
  if isArchived then
    reportGetArchivedJson buf responseBufferSize u.userId u.city (userIsOperator u)
  else reportGetActiveJson buf responseBufferSize u.userId u.city (userIsOperator u)

/-- The reports of a user: those assigned to an operator, those written by anybody else. -/
def Mine (row : UserRow) (x : ReportRow) : Prop :=
  if row.role = 1 then x.assignedTo = some row.id else x.authorId = row.id

/-- The two answers are arrays, and together they have every report that is `mine` exactly once
and no other. -/
def Splits (mine : ReportRow → Prop) (reports : List ReportRow) (r₁ r₂ : ℕ × Bytes) : Prop :=
  ∃ first second : List ReportRow,
    Platform.printPreallocated (first.map reportObject) responseBufferSize =
      some (r₁.2.take r₁.1) ∧
    Platform.printPreallocated (second.map reportObject) responseBufferSize =
      some (r₂.2.take r₂.1) ∧
    ((first ++ second).map ReportRow.id).Nodup ∧
    ∀ x, x ∈ first ++ second ↔ x ∈ reports ∧ mine x

theorem userList_eq (isArchived : Bool) (buf : Bytes) (u : User) :
    userList isArchived buf u = cachedList (listQuery isArchived) isArchived buf
      responseBufferSize u.userId u.city (userIsOperator u) := by
  cases isArchived <;> rfl

omit [Platform] in
theorem userIsOperator_iff {row : UserRow} (h : Enrolled row) :
    userIsOperator (cursorToUser row) = true ↔ row.role = 1 := by
  unfold userIsOperator
  rw [decide_eq_true_iff, ← h.snapshot_role]
  rcases h.snapshot_cases with hr | hr | hr
  · rw [hr]
    decide
  · rw [hr]
    decide
  · rw [hr]
    decide

theorem concerns_cursorToUser {w : World} (hw : Consistent w) {row : UserRow}
    (hrow : row ∈ w.db.users) (x : ReportRow) :
    Concerns (cursorToUser row).userId (userIsOperator (cursorToUser row)) x ↔ Mine row x := by
  have hrange := hw.userKeys.range row.id (List.mem_map_of_mem hrow)
  have hseq := hw.userKeys.bounds
  have hid : i64 (cursorToUser row).userId = row.id := i64_u64 (by omega) (by omega)
  unfold Concerns Mine
  rw [hid]
  simp only [userIsOperator_iff (hw.enrolled row hrow)]

/-- A list call of a user, with fresh slots: the text of its rows, fresh slots again, and the
same tables. -/
theorem userList_fresh {e : Env} (he : Unfailing e) {w w' : World} (hw : Consistent w)
    (hfresh : CacheFresh w.db w.cache) {row : UserRow} (hrow : row ∈ w.db.users)
    {isArchived : Bool} {buf : Bytes} {r : ℕ × Bytes}
    (hfit : (Platform.printPreallocated (listItems isArchived (cursorToUser row).userId
      (userIsOperator (cursorToUser row)) w.db) responseBufferSize).isSome)
    (h : userList isArchived buf (cursorToUser row) e w = (r, w')) :
    Platform.printPreallocated (listItems isArchived (cursorToUser row).userId
      (userIsOperator (cursorToUser row)) w.db) responseBufferSize = some (r.2.take r.1) ∧
    w'.db = w.db ∧ CacheFresh w'.db w'.cache := by
  rw [userList_eq] at h
  have hdb : w'.db = w.db := congrArg Prod.fst ((keeps_cachedList _ _ _ _ _ _ _).out h)
  obtain ⟨row', hrow', hid, -, hcity⟩ := hw.snapshot hrow
  have henr := hw.enrolled row hrow
  have hshort : Short (cursorToUser row).city := by
    rw [henr.snapshot_city]
    exact henr.city
  refine ⟨?_, hdb, ?_⟩
  · rw [hfresh.list he h]
    exact printArray_fits hfit
  · rw [hdb]
    exact hfresh.listed he h ⟨row', hrow', hid, hcity⟩ hshort

/-- The tables of every state reached hold no open report with an operator. -/
theorem assignedTaken {e : Env} {seed : UInt64} {tableOk poolOk : Bool}
    {sessions : HashTable Session} (h₀ : sessionInit seed tableOk poolOk = some sessions)
    {log : List ((HttpRequest × HttpResponse) × HttpResponse)} {w : World}
    (hrun : Run answer e (emptyWorld sessions) log w) : AssignedTaken w.db.reports := by
  refine (hrun.invariant (I := fun _ w => Consistent w ∧ AssignedTaken w.db.reports) ?_ ?_).2
  · exact ⟨sessionInit_consistent h₀, fun _ hx => absurd hx List.not_mem_nil⟩
  · rintro log w x resp' w' ⟨hw, htaken⟩ h
    exact ⟨hw.step h, htaken.step hw h⟩

/-- **Active and archived lists.**  After any requests, without failures, the active and the
archived list of a registered user, asked for in either order, split the reports of the user. -/
theorem lists_partition {e : Env} (he : Unfailing e) (horder : OrdersRows) {seed : UInt64}
    {tableOk poolOk : Bool} {sessions : HashTable Session}
    (h₀ : sessionInit seed tableOk poolOk = some sessions)
    {log : List ((HttpRequest × HttpResponse) × HttpResponse)} {w w₁ w₂ : World}
    (hrun : Run answer e (emptyWorld sessions) log w) {row : UserRow} (hrow : row ∈ w.db.users)
    (hfit : ∀ isArchived, (Platform.printPreallocated (listItems isArchived
      (cursorToUser row).userId (userIsOperator (cursorToUser row)) w.db)
        responseBufferSize).isSome)
    {isArchived : Bool} {buf₁ buf₂ : Bytes} {r₁ r₂ : ℕ × Bytes}
    (h₁ : userList isArchived buf₁ (cursorToUser row) e w = (r₁, w₁))
    (h₂ : userList (!isArchived) buf₂ (cursorToUser row) e w₁ = (r₂, w₂)) :
    Splits (Mine row) w.db.reports r₁ r₂ := by
  obtain ⟨hw, hfresh⟩ := consistent_fresh he h₀ hrun
  obtain ⟨htext₁, hdb, hfresh₁⟩ := userList_fresh he hw hfresh hrow (hfit isArchived) h₁
  have hw₁ : Consistent w₁ := by
    have hkeeps := (keeps_cachedList _ _ _ _ _ _ _).out (userList_eq isArchived buf₁ _ ▸ h₁)
    have hsessions : w₁.sessions = w.sessions := congrArg Prod.snd hkeeps
    refine ⟨hsessions ▸ hw.wf, hdb ▸ hw.userKeys, hdb ▸ hw.enrolled, ?_, hdb ▸ hw.reportKeys, ?_,
      hdb ▸ hw.owned⟩
    · rw [hsessions, hdb]
      exact hw.sessions
    · rw [StatusInRange, hdb]
      exact hw.status
  obtain ⟨htext₂, -, -⟩ := userList_fresh he hw₁ hfresh₁ (hdb ▸ hrow)
    (by rw [hdb]; exact hfit (!isArchived)) h₂
  rw [hdb] at htext₂
  obtain ⟨hnodup, hmem⟩ := listQuery_split horder hw (assignedTaken h₀ hrun)
    (cursorToUser row).userId (userIsOperator (cursorToUser row)) isArchived
  refine ⟨_, _, htext₁, htext₂, hnodup, fun x => (hmem x).trans ?_⟩
  rw [concerns_cursorToUser hw hrow x]

end platform

/-! ### A cached and a fresh list -/

theorem samplePlatform_orders : @OrdersRows samplePlatform :=
  fun _ rows => List.perm_insertionSort _ rows

/-- The account of the citizen of `listedRun`. -/
def adaRow : UserRow :=
  letI := samplePlatform
  listedRun.2.db.users.headD ⟨0, [], [], 0, [], []⟩

/-- The active list, which is in the cache. -/
def adaActive : (ℕ × Bytes) × @World samplePlatform :=
  @userList samplePlatform false [] (cursorToUser adaRow) townEnv listedRun.2

/-- The archived list, which is not. -/
def adaArchived : (ℕ × Bytes) × @World samplePlatform :=
  @userList samplePlatform true [] (cursorToUser adaRow) townEnv adaActive.2

theorem userList_adaActive :
    @userList samplePlatform false [] (cursorToUser adaRow) townEnv listedRun.2 =
      (adaActive.1, adaActive.2) := by
  unfold adaActive
  exact Prod.mk.eta.symm

theorem userList_adaArchived :
    @userList samplePlatform true [] (cursorToUser adaRow) townEnv adaActive.2 =
      (adaArchived.1, adaArchived.2) := by
  unfold adaArchived
  exact Prod.mk.eta.symm

theorem adaRow_facts :
    letI := samplePlatform
    (adaActive.1.1, adaArchived.1) = (209, 2, bytes "[]" ++ [0]) ∧
    adaRow ∈ listedRun.2.db.users ∧
    ∀ isArchived, (Platform.printPreallocated (listItems isArchived (cursorToUser adaRow).userId
      (userIsOperator (cursorToUser adaRow)) listedRun.2.db) responseBufferSize).isSome := by
  decide +kernel

theorem lists_partition_adaRow :
    letI := samplePlatform
    (adaActive.1.1, adaArchived.1) = (209, 2, bytes "[]" ++ [0]) ∧
    Splits (Mine adaRow) listedRun.2.db.reports adaActive.1 adaArchived.1 :=
  letI := samplePlatform
  have hsplit := lists_partition (e := townEnv) (w := listedRun.2) ⟨fun _ => rfl, fun _ => rfl⟩
    samplePlatform_orders sessionInit_noSessions run_listedRun adaRow_facts.2.1 adaRow_facts.2.2
    userList_adaActive userList_adaArchived
  ⟨adaRow_facts.1, hsplit⟩

/-! ### A report without memory -/

/-- The second allocation of `cJSON` fails. -/
def scarceEnv : @Env samplePlatform :=
  letI := samplePlatform
  { townEnv with allocFails := fun n => n = 1 }

def scarceRun : List ((HttpRequest × HttpResponse) × HttpResponse) × @World samplePlatform :=
  letI := samplePlatform
  Run.exec answer scarceEnv (emptyWorld noSessions) [
    formRequest "/register" "" "username=ada&password=secret1&city=Torino&role=0",
    formRequest "/login" "" "username=ada&password=secret1",
    formRequest "/submit" "aaaaaaaaaaaaaaaaaaaaaaaaaaaaaaa0" "description=via%20Po&lat=45.1&lon=7.6"]

def scarceActive : (ℕ × Bytes) × @World samplePlatform :=
  @userList samplePlatform false [] (cursorToUser adaRow) scarceEnv scarceRun.2

def scarceArchived : (ℕ × Bytes) × @World samplePlatform :=
  @userList samplePlatform true [] (cursorToUser adaRow) scarceEnv scarceActive.2

/-- Only an empty array of reports has so short a text. -/
theorem rows_of_samplePrint {rows : List (@ReportRow samplePlatform)}
    (h : (samplePrint (rows.map (@reportObject samplePlatform))).length = 2) : rows = [] := by
  let := samplePlatform
  have hnames : ∀ o ∈ rows.map reportObject, 97 ≤ (o.map fun f => f.1.length).sum := by
    intro o ho
    obtain ⟨row, -, rfl⟩ := List.mem_map.mp ho
    exact (reportFields_names (cursorToReport row)).ge
  have hlen := length_samplePrint hnames
  rw [List.length_map] at hlen
  exact List.length_eq_zero_iff.mp (by omega)

/-- Two empty arrays are not the lists of a citizen with a report. -/
theorem not_splits {reports : List (@ReportRow samplePlatform)} {row : UserRow} {r₁ r₂ : ℕ × Bytes}
    (hrow : (row.id, row.role) = (1, 0))
    (hauthors : reports.map (@ReportRow.authorId samplePlatform) = [1])
    (hlists : (r₁, r₂) = ((2, bytes "[]" ++ [0]), (2, bytes "[]" ++ [0]))) :
    letI := samplePlatform
    ¬ Splits (Mine row) reports r₁ r₂ := by
  let := samplePlatform
  obtain ⟨rfl, rfl⟩ := Prod.mk.inj hlists
  obtain ⟨hid, hrole⟩ := Prod.mk.inj hrow
  rintro ⟨first, second, hfirst, hsecond, -, hmem⟩
  have hempty : ∀ rows : List ReportRow, Platform.printPreallocated (rows.map reportObject)
      responseBufferSize = some (bytes "[]") → rows = [] := by
    intro rows hrows
    have htext := samplePrints.sound _ _ _ hrows
    exact rows_of_samplePrint (congrArg List.length htext.symm)
  obtain rfl := hempty first hfirst
  obtain rfl := hempty second hsecond
  have hone : (1 : ℤ) ∈ reports.map ReportRow.authorId := by
    rw [hauthors]
    exact List.mem_singleton_self 1
  obtain ⟨x, hx, hauthor⟩ := List.mem_map.mp hone
  refine absurd ((hmem x).mpr ⟨hx, ?_⟩) List.not_mem_nil
  unfold Mine
  rw [hrole, hid, if_neg (by decide)]
  exact hauthor

theorem scarce_facts :
    letI := samplePlatform
    adaRow ∈ scarceRun.2.db.users ∧ (adaRow.id, adaRow.role) = (1, 0) ∧
    scarceRun.2.db.reports.map ReportRow.authorId = [1] ∧
    (scarceActive.1, scarceArchived.1) = ((2, bytes "[]" ++ [0]), (2, bytes "[]" ++ [0])) ∧
    ∀ isArchived, (Platform.printPreallocated (listItems isArchived (cursorToUser adaRow).userId
      (userIsOperator (cursorToUser adaRow)) scarceRun.2.db) responseBufferSize).isSome := by
  decide +kernel

theorem run_scarceRun :
    Run (@answer samplePlatform) scarceEnv (@emptyWorld samplePlatform noSessions)
      scarceRun.1 scarceRun.2 := Run.of_exec _ _ _ _

/-- No call into the database fails and both arrays fit, but the report is in neither list. -/
theorem lists_dropped :
    letI := samplePlatform
    Run answer scarceEnv (emptyWorld noSessions) scarceRun.1 scarceRun.2 ∧
    (∀ n, scarceEnv.fails n = false) ∧ adaRow ∈ scarceRun.2.db.users ∧
    (∀ isArchived, (Platform.printPreallocated (listItems isArchived (cursorToUser adaRow).userId
      (userIsOperator (cursorToUser adaRow)) scarceRun.2.db) responseBufferSize).isSome) ∧
    ¬ Splits (Mine adaRow) scarceRun.2.db.reports scarceActive.1 scarceArchived.1 := by
  obtain ⟨hrow, hada, hauthors, hlists, hfit⟩ := scarce_facts
  exact ⟨run_scarceRun, fun _ => rfl, hrow, hfit, not_splits hada hauthors hlists⟩

end Segnalacity
