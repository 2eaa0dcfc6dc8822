import Segnalacity.AllOrNothing
import Segnalacity.ResponseBuffer

/-! # Submitted text

`route_post_submit` decodes the category into 16 bytes and the description into 128, and stores
what is left of them.  So a report reads back as it was sent exactly when the two decoded fields fit:
`submission_faithful_iff`. -/

namespace Segnalacity

open CStr StateProg Sql Http HashTable

/-! ### Decoded fields -/

/-- The field of a form, decoded as a whole. -/
def decodedField (src : Option Bytes) (paramName : Bytes) : Bytes :=
  match src.bind fun p => findField paramName true (cstr p) with
  | none => []
  | some v => urlDecode v.length v

theorem percentByte_length {s r : Bytes} {b : UInt8} (h : percentByte s = some (b, r)) :
    r.length < s.length := by
  unfold percentByte at h
  split at h
  · split_ifs at h
    obtain ⟨-, rfl⟩ := Prod.mk.inj (Option.some.inj h)
    simp only [List.length_cons]
    omega
  · cases h

theorem decodeStep_length {s r : Bytes} {b : UInt8} (h : decodeStep s = some (b, r)) :
    r.length < s.length := by
  cases s with
  | nil => cases h
  | cons c s =>
      cases hd : isDelimiter c with
      | true =>
          rw [decodeStep_delimiter s hd] at h
          cases h
      | false =>
          rw [decodeStep_cons s hd] at h
          cases hp : percentByte (c :: s) with
          | none =>
              rw [hp] at h
              obtain ⟨-, rfl⟩ := Prod.mk.inj (Option.some.inj h)
              exact Nat.lt_succ_self _
          | some br =>
              rw [hp] at h
              dsimp only at h
              split_ifs at h
              obtain ⟨-, rfl⟩ := Prod.mk.inj (Option.some.inj h)
              exact percentByte_length hp

/-- Every round of the decoder consumes a byte. -/
theorem urlDecode_length_source (room : ℕ) (s : Bytes) : (urlDecode room s).length ≤ s.length := by
  induction room generalizing s with
  | zero => exact Nat.zero_le _
  | succ room ih =>
      unfold urlDecode
      cases hs : decodeStep s with
      | none => exact Nat.zero_le _
      | some br =>
          have hshort := decodeStep_length hs
          have hrest := ih br.2
          show (br.1 :: urlDecode room br.2).length ≤ s.length
          rw [List.length_cons]
          omega

/-- `get_field` cuts the decoded field to the size of its buffer. -/
theorem getField_eq_take (src : Option Bytes) (paramName : Bytes) (max : ℕ) :
    getField src paramName max = (decodedField src paramName).take (max - 1) := by
  unfold getField decodedField
  cases src.bind fun p => findField paramName true (cstr p) with
  | none => exact List.take_nil.symm
  | some v =>
      show urlDecode (max - 1) v = (urlDecode v.length v).take (max - 1)
      rcases Nat.le_total (max - 1) v.length with hle | hge
      · exact urlDecode_take _ _ v hle
      · have hsource := urlDecode_length_source (max - 1) v
        have htake := urlDecode_take v.length (max - 1) v hge
        rw [List.take_of_length_le hsource] at htake
        rw [htake, List.take_of_length_le (hsource.trans hge)]

/-- The category that is to be stored. -/
def sentCategory (req : HttpRequest) : Bytes :=
  let category := decodedField req.bodyPtr (bytes "category=")
  if category = [] then bytes "Altro" else category

section platform

variable [Platform]

omit [Platform] in
theorem formDescription_iff {req : HttpRequest} :
    formDescription req = decodedField req.bodyPtr (bytes "description=") ↔
      (decodedField req.bodyPtr (bytes "description=")).length ≤ descLen - 1 := by
  unfold formDescription
  rw [getField_eq_take, List.take_eq_self_iff]

omit [Platform] in
theorem formCategory_iff {req : HttpRequest} : formCategory req = sentCategory req ↔
    (decodedField req.bodyPtr (bytes "category=")).length ≤ catLen - 1 := by
  unfold formCategory sentCategory
  rw [getField_eq_take]
  cases decodedField req.bodyPtr (bytes "category=") with
  | nil => simp
  | cons c cs =>
      have hcut : (c :: cs).take (catLen - 1) ≠ [] := by simp [catLen]
      dsimp only
      rw [if_neg hcut, if_neg (List.cons_ne_nil c cs), List.take_eq_self_iff]

/-! ### The report that is stored -/

section stored
variable {e : Env} {w w₁ w' : World} {req : HttpRequest} {resp resp' : HttpResponse} {u : User}

theorem submitError_status {msg : Bytes} (h : submitError resp u msg e w = (resp', w')) :
    resp'.statusCode ≠ 302 := by
  obtain ⟨mv, w₁, -, h₂⟩ := Prog.bind_run_iff.mp h
  exact respRenderTpl_status h₂

/-- A citizen who is redirected has inserted the report of the form. -/
theorem routePostSubmit_inserts (hu : getSessionUser req e w = (some u, w₁))
    (hcitizen : u.role = .citizen) (hstatus : resp'.statusCode = 302)
    (h : routePostSubmit req resp e w = (resp', w')) :
    ∃ rid, rid ≠ 0 ∧ reportInsert u.userId (formLat req) (formLon req) u.city (formCategory req)
      (formDescription req) e w₁ = (rid, w') := by
  obtain ⟨v, w₂, h₁, h₂⟩ := Prog.bind_run_iff.mp h
  obtain ⟨rfl, rfl⟩ := Prod.mk.inj (hu.symm.trans h₁)
  have hrole : (userIsOperator u || userIsAdmin u) = false := by
    simp [userIsOperator, userIsAdmin, hcitizen]
  rcases Prog.ite_run_iff.mp h₂ with ⟨hother, -⟩ | ⟨-, h₃⟩
  · rw [hrole] at hother
    cases hother
  rcases Prog.ite_run_iff.mp h₃ with ⟨-, h₄⟩ | ⟨-, h₄⟩
  · exact absurd hstatus (submitError_status h₄)
  obtain ⟨geo, w₂, h₅, h₆⟩ := Prog.bind_run_iff.mp h₄
  obtain ⟨-, rfl⟩ := geoLookup_run h₅
  rcases Prog.ite_run_iff.mp h₆ with ⟨-, h₇⟩ | ⟨-, h₇⟩
  · exact absurd hstatus (submitError_status h₇)
  obtain ⟨rid, w₃, h₈, h₉⟩ := Prog.bind_run_iff.mp h₇
  rcases Prog.ite_run_iff.mp h₉ with ⟨-, h₁₀⟩ | ⟨hrid, h₁₀⟩
  · exact absurd hstatus (submitError_status h₁₀)
  · obtain ⟨-, rfl⟩ := Prog.pure_run_iff.mp h₁₀
    exact ⟨rid, hrid, h₈⟩

/-- The row that a redirected citizen has added. -/
theorem routePostSubmit_row (hu : getSessionUser req e w = (some u, w₁)) (hcitizen : u.role = .citizen)
    (hstatus : resp'.statusCode = 302) (h : routePostSubmit req resp e w = (resp', w')) :
    nextRowid w₁.db.reportSeq = some (w₁.db.reportSeq + 1) ∧
      w'.db.reports = w₁.db.reports ++ [newReport (w₁.db.reportSeq + 1) u.userId (formLat req)
        (formLon req) u.city (formCategory req) (formDescription req) (e.clock w₁.ctr.ticks)] := by
  obtain ⟨rid, hne, hinsert⟩ := routePostSubmit_inserts hu hcitizen hstatus h
  rcases (reportInsert_run hinsert).2.2 with ⟨hzero, -⟩ | ⟨db, hdb, hw', -⟩
  · exact absurd hzero hne
  · obtain ⟨hid, hnew⟩ := insertReport_eq_some hdb
    exact ⟨hid, by rw [hw', hnew]⟩

/-- The report says what the form said, in the name and the city of the user. -/
structure Faithful (req : HttpRequest) (u : User) (r : Report) : Prop where
  description : r.description = decodedField req.bodyPtr (bytes "description=")
  category : r.category = sentCategory req
  city : r.city = u.city
  author : r.authorId = u.userId

/-- What the row of an inserted report reads back as. -/
theorem faithful_iff {id t : ℤ} (hcity : Short u.city) :
    Faithful req u (cursorToReport (newReport id u.userId (formLat req) (formLon req) u.city
      (formCategory req) (formDescription req) t)) ↔
    (decodedField req.bodyPtr (bytes "description=")).length ≤ descLen - 1 ∧
      (decodedField req.bodyPtr (bytes "category=")).length ≤ catLen - 1 := by
  -- the columns are at least as long as the buffers of the handler
  have hread : ∀ {s : Bytes} {n : ℕ}, (0 : UInt8) ∉ s → s.length ≤ n → strncpy (cstr s) n = s := by
    intro s n hzero hlen
    rw [cstr_eq_self hzero]
    exact strncpy_eq_self hzero hlen
  have hdescription : strncpy (cstr (formDescription req)) (descLen - 1) = formDescription req :=
    hread (zero_notMem_getField _ _ _) (getField_length_le _ _ _)
  have hcategory : strncpy (cstr (formCategory req)) (catLen - 1) = formCategory req := by
    unfold formCategory
    dsimp only
    split_ifs
    · decide
    · exact hread (zero_notMem_getField _ _ _) (getField_length_le _ _ _)
  rw [← formDescription_iff, ← formCategory_iff]
  constructor
  · intro h
    exact ⟨hdescription.symm.trans h.description, hcategory.symm.trans h.category⟩
  · rintro ⟨hd, hc⟩
    exact ⟨hdescription.trans hd, hcategory.trans hc, hread hcity.1 hcity.2, u64_i64 _⟩

/-- **Submitted text.** -/
theorem submission_faithful_iff {seed : UInt64} {tableOk poolOk : Bool}
    {sessions : HashTable Session} (h₀ : sessionInit seed tableOk poolOk = some sessions)
    {log : List ((HttpRequest × HttpResponse) × HttpResponse)}
    (hrun : Run answer e (emptyWorld sessions) log w) (hu : getSessionUser req e w = (some u, w₁))
    (hcitizen : u.role = .citizen) (h : routePostSubmit req resp e w = (resp', w'))
    (hredirect : resp' = redirect resp (bytes "/home") none) :
    ∃ row, w'.db.reports = w.db.reports ++ [row] ∧
      ∀ e' : Env, e'.fails w'.ctr.calls = false → e'.fails (w'.ctr.calls + 1) = false →
        ∃ r, (reportGetById (u64 row.id) e' w').1 = some r ∧
          (Faithful req u r ↔
            (decodedField req.bodyPtr (bytes "description=")).length ≤ descLen - 1 ∧
              (decodedField req.bodyPtr (bytes "category=")).length ≤ catLen - 1) := by
  have hw : Consistent w := consistent h₀ hrun
  obtain ⟨hev, hlog⟩ := getSessionUser_loggedIn hw.wf hu
  have hw₁ : w₁.db = w.db := hev.data.db
  obtain ⟨-, -, hcity⟩ := hw.citizen (hlog u rfl) (by simp [userIsOperator, hcitizen])
    (by simp [userIsAdmin, hcitizen])
  have hstatus : resp'.statusCode = 302 := by rw [hredirect]; rfl
  obtain ⟨hid, hrows⟩ := routePostSubmit_row hu hcitizen hstatus h
  rw [hw₁] at hid hrows
  refine ⟨_, hrows, fun e' hopen hnext => ?_⟩
  have hkeys : Keyed (w'.db.reports.map ReportRow.id) (w.db.reportSeq + 1) := by
    rw [hrows, List.map_append]
    exact hw.reportKeys.append hid
  have hmem : newReport (w.db.reportSeq + 1) u.userId (formLat req) (formLon req) u.city
      (formCategory req) (formDescription req) (e.clock w₁.ctr.ticks) ∈ w'.db.reports := by
    rw [hrows]
    exact List.mem_append_right _ (List.mem_singleton_self _)
  have hbounds := hkeys.bounds
  have hkey : i64 (u64 (w.db.reportSeq + 1)) = w.db.reportSeq + 1 := i64_u64 (by omega) hbounds.2
  have hread := reportGetById_found Prod.mk.eta.symm hopen hnext hkeys hmem hkey.symm
  exact ⟨_, hread.1, faithful_iff hcity⟩

end stored

end platform

/-! ### Two categories of the form -/

/-- A citizen registers and logs in. -/
def loggedInRun : List ((HttpRequest × HttpResponse) × HttpResponse) × @World samplePlatform :=
  letI := samplePlatform
  Run.exec answer townEnv (emptyWorld noSessions) [
    formRequest "/register" "" "username=ada&password=secret1&city=Torino&role=0",
    formRequest "/login" "" "username=ada&password=secret1"]

theorem run_loggedInRun :
    Run (@answer samplePlatform) townEnv (@emptyWorld samplePlatform noSessions)
      loggedInRun.1 loggedInRun.2 := Run.of_exec _ _ _ _

def categoryRequest (category : String) : HttpRequest :=
  (formRequest "/submit" "aaaaaaaaaaaaaaaaaaaaaaaaaaaaaaa0"
    (category ++ "&description=via%20Po&lat=45.1&lon=7.6")).1

def categorySubmitted (category : String) : HttpResponse × @World samplePlatform :=
  @routePostSubmit samplePlatform (categoryRequest category) blankResponse townEnv loggedInRun.2

theorem routePostSubmit_category (category : String) :
    @routePostSubmit samplePlatform (categoryRequest category) blankResponse townEnv
      loggedInRun.2 = ((categorySubmitted category).1, (categorySubmitted category).2) := by
  unfold categorySubmitted
  exact Prod.mk.eta.symm

theorem illuminazione_facts :
    letI := samplePlatform
    (categorySubmitted "category=Illuminazione").1 =
      redirect blankResponse (bytes "/home") none ∧
    ((getSessionUser (categoryRequest "category=Illuminazione") townEnv loggedInRun.2).1.map
      User.role) = some .citizen ∧
    (decodedField (categoryRequest "category=Illuminazione").bodyPtr
      (bytes "description=")).length ≤ descLen - 1 ∧
    (decodedField (categoryRequest "category=Illuminazione").bodyPtr
      (bytes "category=")).length ≤ catLen - 1 := by decide +kernel

theorem submission_faithful_iff_illuminazione :
    letI := samplePlatform
    ∃ u row r, (categorySubmitted "category=Illuminazione").2.db.reports =
        loggedInRun.2.db.reports ++ [row] ∧
      (reportGetById (u64 row.id) townEnv (categorySubmitted "category=Illuminazione").2).1 =
        some r ∧ Faithful (categoryRequest "category=Illuminazione") u r := by
  let := samplePlatform
  obtain ⟨hredirect, hrole, hlengths⟩ := illuminazione_facts
  cases hu : getSessionUser (categoryRequest "category=Illuminazione") townEnv loggedInRun.2 with
  | mk u w₁ =>
      rw [hu] at hrole
      obtain ⟨u, rfl, hcitizen⟩ := Option.map_eq_some_iff.mp hrole
      obtain ⟨row, hrow, hread⟩ := submission_faithful_iff sessionInit_noSessions run_loggedInRun hu
        hcitizen (routePostSubmit_category "category=Illuminazione") hredirect
      obtain ⟨r, hr, hfaithful⟩ := hread townEnv rfl rfl
      exact ⟨u, row, r, hrow, hr, hfaithful.mpr hlengths⟩

theorem rifiuti_facts :
    letI := samplePlatform
    (categorySubmitted "category=Rifiuti+abbandonati").1 =
      redirect blankResponse (bytes "/home") none ∧
    sentCategory (categoryRequest "category=Rifiuti+abbandonati") = bytes "Rifiuti abbandonati" ∧
    ((reportGetById 1 townEnv (categorySubmitted "category=Rifiuti+abbandonati").2).1.map
      Report.category) = some (bytes "Rifiuti abbando") := by decide +kernel

/-- The form offers a category of 19 characters; it is stored without its last four. -/
theorem rifiuti_cut :
    letI := samplePlatform
    (categorySubmitted "category=Rifiuti+abbandonati").1 =
      redirect blankResponse (bytes "/home") none ∧
    ∃ r, (reportGetById 1 townEnv (categorySubmitted "category=Rifiuti+abbandonati").2).1 =
        some r ∧ r.category = bytes "Rifiuti abbando" ∧
      ∀ u, ¬ Faithful (categoryRequest "category=Rifiuti+abbandonati") u r := by
  let := samplePlatform
  obtain ⟨hredirect, hsent, hread⟩ := rifiuti_facts
  obtain ⟨r, hr, hcategory⟩ := Option.map_eq_some_iff.mp hread
  refine ⟨hredirect, r, hr, hcategory, fun u h => ?_⟩
  have hsame := hcategory.symm.trans (h.category.trans hsent)
  exact absurd hsame (by decide)

end Segnalacity
