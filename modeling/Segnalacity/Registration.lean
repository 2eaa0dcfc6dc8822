import Segnalacity.Authorization

/-! # Registration

Usernames are unique by a constraint of the table and every city has passed `geo_lookup`.  That a
city has one administrator is checked by a query before the insertion, and a query that fails
looks like one that finds nobody.  `registry_iff`: in a run of registrations, whatever calls
fail, these three properties hold if and only if no step was `Blind`. -/

namespace Segnalacity

open CStr StateProg Sql Http HashTable

section platform

variable [Platform]

/-! ### One registration -/

/-- The row that the form asks for. -/
def formRow (req : HttpRequest) (id : ℤ) (hash salt : Bytes) : UserRow :=
  ⟨id, formUsername req, hash, (formRole req).toInt, formCity req, salt⟩

def register (x : HttpRequest × HttpResponse) : App HttpResponse := routePostRegister x.1 x.2

section runs
variable {e : Env} {w w' : World} {req : HttpRequest} {resp resp' : HttpResponse}

/-- Somebody is registered as the administrator of the city. -/
def HasAdmin (db : Database) (city : Bytes) : Prop :=
  ∃ row ∈ db.users, row.role = 2 ∧ row.city = city

/-- The call that inserts the row, unless an administrator is found before. -/
inductive InsertCall (e : Env) (req : HttpRequest) (w : World) : ℕ → Prop
  | direct : formRole req ≠ .admin → InsertCall e req w w.ctr.calls
  | absent : formRole req = .admin → e.fails w.ctr.calls = false →
      e.fails (w.ctr.calls + 1) = false → ¬ HasAdmin w.db (formCity req) →
      InsertCall e req w (w.ctr.calls + 2)
  | openFailed : formRole req = .admin → e.fails w.ctr.calls = true →
      InsertCall e req w (w.ctr.calls + 1)
  | nextFailed : formRole req = .admin → e.fails w.ctr.calls = false →
      e.fails (w.ctr.calls + 1) = true → InsertCall e req w (w.ctr.calls + 2)

/-- The form is accepted and its row can be inserted. -/
structure Insertable (e : Env) (req : HttpRequest) (w : World) : Prop where
  form : Accepted e req
  free : ∀ row ∈ w.db.users, row.username ≠ formUsername req
  seq : w.db.userSeq < 2 ^ 63 - 1

/-- A registration inserts its row or changes no user. -/
inductive Registers (e : Env) (req : HttpRequest) (w w' : World) : Prop
  | refused : ¬ (Insertable e req w ∧ ∃ n, InsertCall e req w n ∧ e.fails n = false) →
      w'.db.users = w.db.users → Registers e req w w'
  | inserted (n : ℕ) (hash salt : Bytes) : Insertable e req w → InsertCall e req w n →
      e.fails n = false →
      w'.db.users = w.db.users ++ [formRow req (w.db.userSeq + 1) hash salt] →
      Registers e req w w'

theorem InsertCall.unique {m n : ℕ} (h : InsertCall e req w m) (h' : InsertCall e req w n) :
    m = n := by
  cases h <;> cases h' <;> simp_all

theorem userRegister_registers {w₀ : World} {rc : ℤ} (hform : Accepted e req)
    (hdb : w.db = w₀.db) (hcall : InsertCall e req w₀ w.ctr.calls)
    (h : userRegister (formUsername req) (formPassword req) (formCity req) (formRole req) e w =
      (rc, w')) : Registers e req w₀ w' := by
  obtain ⟨salt, w₁, h₁, h₂⟩ := Prog.bind_run_iff.mp h
  obtain ⟨-, hw₁⟩ := generateSalt_run h₁
  have hdb₁ : w₁.db = w₀.db := by rw [hw₁]; exact hdb
  have hcalls : w₁.ctr.calls = w.ctr.calls := by rw [hw₁]
  have hname : cstr (formUsername req) = formUsername req :=
    cstr_eq_self (short_getField req.bodyPtr (bytes "username=")).1
  have hcity : cstr (formCity req) = formCity req :=
    cstr_eq_self (short_getField req.bodyPtr (bytes "city=")).1
  rcases dbExec_run h₂ with ⟨-, rfl, hfail⟩ | ⟨-, hok, db, hins, rfl⟩
  · refine .refused ?_ (congrArg Database.users hdb₁)
    rintro ⟨hins, n, hn, hok⟩
    obtain rfl := hn.unique hcall
    rw [← hcalls] at hok
    rcases hfail with hf | hnone
    · rw [hf] at hok
      cases hok
    · rw [hdb₁] at hnone
      rcases insertUser_eq_none hnone with ⟨row, hrow, htaken⟩ | hseq
      · exact hins.free row hrow (htaken.trans hname)
      · exact hseq hins.seq
  · obtain ⟨hfree, id, hid, hnew⟩ := insertUser_eq_some hins
    rw [hdb₁] at hfree hid hnew
    rw [hname] at hfree hnew
    unfold nextRowid at hid
    split_ifs at hid with hseq
    obtain rfl := Option.some.inj hid
    rw [hcalls] at hok
    refine .inserted _ (cstr (hashPassword salt (formPassword req))) (cstr salt)
      ⟨hform, hfree, hseq⟩ hcall hok ?_
    show db.users = _
    rw [hnew, hcity]
    rfl

omit [Platform] in
theorem holds_selectAdmins {city : Bytes} {row : UserRow} :
    holds (and3 (eq3 (some row.role) (some 2)) (eq3 (some row.city) (some (cstr city)))) = true ↔
      row.role = 2 ∧ row.city = cstr city := by
  rw [holds_and3, holds_key, holds_key]

theorem userRegisterAdmin_registers {rc : ℤ} (hform : Accepted e req) (hrole : formRole req = .admin)
    (h : userRegisterAdmin (formUsername req) (formPassword req) (formCity req) e w = (rc, w')) :
    Registers e req w w' := by
  have hcity : cstr (formCity req) = formCity req :=
    cstr_eq_self (short_getField req.bodyPtr (bytes "city=")).1
  obtain ⟨found, w₁, h₁, h₂⟩ := Prog.bind_run_iff.mp h
  have hdb₁ := (firstRow_readsOnly h₁).db
  rcases Prog.ite_run_iff.mp h₂ with ⟨hsome, h₃⟩ | ⟨hnone, h₃⟩
  · obtain ⟨-, rfl⟩ := Prog.pure_run_iff.mp h₃
    obtain ⟨row, rfl⟩ := Option.isSome_iff_exists.mp hsome
    obtain ⟨hmem, hadmin⟩ := of_head?_select (firstRow_some h₁)
    have hok := firstRow_succeeded h₁
    refine .refused ?_ (congrArg Database.users hdb₁)
    rintro ⟨-, n, hn, -⟩
    have hok₀ : e.fails w.ctr.calls = false := hok.ok 0 (by omega)
    have hok₁ : e.fails (w.ctr.calls + 1) = false := hok.ok 1 (by omega)
    rw [holds_selectAdmins, hcity] at hadmin
    cases hn with
    | direct hne => exact hne hrole
    | absent _ _ _ hno => exact hno ⟨row, hmem, hadmin⟩
    | openFailed _ hf =>
        rw [hok₀] at hf
        cases hf
    | nextFailed _ _ hf =>
        rw [hok₁] at hf
        cases hf
  · rw [← hrole] at h₃
    refine userRegister_registers hform hdb₁ ?_ h₃
    rcases firstRow_run h₁ with ⟨rfl, hf, -⟩ | ⟨rfl, hf, hfound⟩
    · exact .openFailed hrole hf
    · cases hf' : e.fails (w.ctr.calls + 1) with
      | true => exact .nextFailed hrole hf hf'
      | false =>
          refine .absent hrole hf hf' ?_
          rintro ⟨row, hrow, hadmin⟩
          rw [hf', if_neg (by decide)] at hfound
          have hmem : row ∈ selectAdmins (formCity req) w.db :=
            mem_select.mpr ⟨hrow, holds_selectAdmins.mpr (by rw [hcity]; exact hadmin)⟩
          cases hsel : selectAdmins (formCity req) w.db with
          | nil =>
              rw [hsel] at hmem
              cases hmem
          | cons r rest =>
              rw [hsel] at hfound
              rw [hfound] at hnone
              exact hnone rfl

/-- What `route_post_register` does to the users. -/
theorem routePostRegister_registers (h : routePostRegister req resp e w = (resp', w')) :
    Registers e req w w' := by
  rcases routePostRegister_cases h with ⟨hno, rfl⟩ | ⟨hform, rc, ⟨hadmin, h₁⟩ | ⟨hother, h₁⟩⟩
  · exact .refused (fun hins => hno hins.1.form) rfl
  · exact userRegisterAdmin_registers hform hadmin h₁
  · exact userRegister_registers hform rfl (.direct hother) h₁

end runs

/-! ### The registry -/

/-- What is to hold of the table of users. -/
structure Registry (e : Env) (w : World) : Prop where
  admins : w.db.users.Pairwise fun u v => ¬ (u.role = 2 ∧ v.role = 2 ∧ u.city = v.city)
  usernames : w.db.users.Pairwise fun u v => u.username ≠ v.username
  cities : ∀ row ∈ w.db.users, (htGet e.cityTable (geoKey row.city)).isSome = true

/-- The city has an administrator whom the query does not show, because the cursor cannot be
opened or its first step fails, and the insertion after it succeeds. -/
structure Blind (e : Env) (req : HttpRequest) (w : World) : Prop where
  insertable : Insertable e req w
  role : formRole req = .admin
  taken : HasAdmin w.db (formCity req)
  calls : (e.fails w.ctr.calls = true ∧ e.fails (w.ctr.calls + 1) = false) ∨
    (e.fails w.ctr.calls = false ∧ e.fails (w.ctr.calls + 1) = true ∧
      e.fails (w.ctr.calls + 2) = false)

section steps
variable {e : Env} {w w' : World} {req : HttpRequest}

omit [Platform] in
theorem formRole_eq_admin : (formRole req).toInt = 2 ↔ formRole req = .admin := by
  unfold formRole
  rcases requestedRole_cases (getField req.bodyPtr (bytes "role=") 4) with h | h | h <;>
    simp [h, UserRole.toInt]

/-- A second administrator comes from a call that was blind. -/
theorem InsertCall.blind {n : ℕ} (hn : InsertCall e req w n) (hins : Insertable e req w)
    (hok : e.fails n = false) (hrole : formRole req = .admin)
    (htaken : HasAdmin w.db (formCity req)) : Blind e req w := by
  refine ⟨hins, hrole, htaken, ?_⟩
  cases hn with
  | direct hother => exact absurd hrole hother
  | absent _ _ _ hno => exact absurd htaken hno
  | openFailed _ hf => exact Or.inl ⟨hf, hok⟩
  | nextFailed _ hf hf' => exact Or.inr ⟨hf, hf', hok⟩

theorem Blind.insertCall (h : Blind e req w) : ∃ n, InsertCall e req w n ∧ e.fails n = false := by
  rcases h.calls with ⟨hf, hok⟩ | ⟨hf, hf', hok⟩
  · exact ⟨_, .openFailed h.role hf, hok⟩
  · exact ⟨_, .nextFailed h.role hf hf', hok⟩

/-- A registration that is not blind keeps the registry. -/
theorem Registers.registry (h : Registers e req w w') (hw : Registry e w)
    (hsees : ¬ Blind e req w) : Registry e w' := by
  cases h with
  | refused _ hsame => exact ⟨hsame ▸ hw.admins, hsame ▸ hw.usernames, hsame ▸ hw.cities⟩
  | inserted n hash salt hins hn hok hnew =>
      refine ⟨?_, ?_, ?_⟩
      · rw [hnew, List.pairwise_append]
        refine ⟨hw.admins, List.pairwise_singleton _ _, ?_⟩
        intro u hu v hv
        rw [List.mem_singleton.mp hv]
        rintro ⟨hadmin, hrole, hcity⟩
        have hrole' : formRole req = .admin := formRole_eq_admin.mp hrole
        exact hsees (hn.blind hins hok hrole' ⟨u, hu, hadmin, hcity⟩)
      · rw [hnew, List.pairwise_append]
        refine ⟨hw.usernames, List.pairwise_singleton _ _, ?_⟩
        intro u hu v hv
        rw [List.mem_singleton.mp hv]
        exact hins.free u hu
      · intro row hrow
        rw [hnew] at hrow
        rcases List.mem_append.mp hrow with hold | hadded
        · exact hw.cities row hold
        · rw [List.mem_singleton.mp hadded]
          exact hins.form.geo

/-- A blind registration makes a second administrator of the city. -/
theorem Registers.not_admins (h : Registers e req w w') (hblind : Blind e req w) :
    ¬ Registry e w' := by
  intro hw'
  cases h with
  | refused hno _ => exact hno ⟨hblind.insertable, hblind.insertCall⟩
  | inserted n hash salt _ _ _ hnew =>
      obtain ⟨row, hrow, hadmin, hcity⟩ := hblind.taken
      have hpairs := hw'.admins
      rw [hnew, List.pairwise_append] at hpairs
      refine hpairs.2.2 row hrow _ (List.mem_singleton_self _) ⟨hadmin, ?_, hcity⟩
      exact formRole_eq_admin.mpr hblind.role

/-- Users are never removed. -/
theorem Registers.kept (h : Registers e req w w') : w.db.users <+: w'.db.users := by
  cases h with
  | refused _ hsame => exact hsame ▸ List.prefix_rfl
  | inserted _ _ _ _ _ _ hnew => exact ⟨_, hnew.symm⟩

theorem Registry.of_kept (h : Registry e w') (hpre : w.db.users <+: w'.db.users) :
    Registry e w :=
  ⟨h.admins.sublist hpre.sublist, h.usernames.sublist hpre.sublist,
    fun row hrow => h.cities row (hpre.subset hrow)⟩

end steps

/-- Starting from a table in order, the table is in order after a run of registrations if and
only if none of them was blind. -/
theorem registry_iff {e : Env} {w₀ w : World}
    {log : List ((HttpRequest × HttpResponse) × HttpResponse)} (h₀ : Registry e w₀)
    (hrun : Run register e w₀ log w) :
    Registry e w ↔ ∀ p x q w₁, log = p ++ x :: q → Run register e w₀ p w₁ →
      ¬ Blind e x.1.1 w₁ := by
  induction hrun with
  | nil =>
      refine ⟨fun _ p x q w₁ hlog => ?_, fun _ => h₀⟩
      exact absurd hlog (by simp)
  | @snoc log w w' k a hrun hstep ih =>
      have hregisters := routePostRegister_registers hstep
      constructor
      · intro hw' p x q w₁ hlog hp
        have hw := hw'.of_kept hregisters.kept
        -- the blind step is the last one or lies in the run before it
        rcases List.eq_nil_or_concat q with rfl | ⟨q', y, rfl⟩
        · obtain ⟨rfl, hx⟩ := List.append_inj' hlog rfl
          obtain rfl := List.singleton_inj.mp hx
          obtain rfl := hp.unique hrun
          exact fun hblind => hregisters.not_admins hblind hw'
        · rw [List.concat_eq_append, ← List.cons_append, ← List.append_assoc] at hlog
          obtain ⟨hlog', -⟩ := List.append_inj' hlog rfl
          exact ih.mp hw p x q' w₁ hlog' hp
      · intro hsees
        refine hregisters.registry ?_ (hsees log (k, a) [] w rfl hrun)
        refine ih.mpr fun p x q w₁ hlog hp => ?_
        refine hsees p x (q ++ [(k, a)]) w₁ ?_ hp
        rw [hlog, List.append_assoc, List.cons_append]

end platform

/-! ### Two administrators of one city -/

/-- The second registration cannot open its cursor. -/
def blindEnv : @Env samplePlatform :=
  letI := samplePlatform
  { townEnv with fails := fun n => n = 3 }

def adminForms : List (HttpRequest × HttpResponse) := [
  formRequest "/register" "" "username=eva&password=secret3&city=Torino&role=2",
  formRequest "/register" "" "username=ugo&password=secret4&city=Torino&role=2"]

/-- The registrations when every call succeeds. -/
def seenRun : List ((HttpRequest × HttpResponse) × HttpResponse) × @World samplePlatform :=
  letI := samplePlatform
  Run.exec register townEnv (emptyWorld noSessions) adminForms

def blindRun : List ((HttpRequest × HttpResponse) × HttpResponse) × @World samplePlatform :=
  letI := samplePlatform
  Run.exec register blindEnv (emptyWorld noSessions) adminForms

theorem run_seenRun :
    Run (@register samplePlatform) townEnv (@emptyWorld samplePlatform noSessions)
      seenRun.1 seenRun.2 := Run.of_exec _ _ _ _

theorem run_blindRun :
    Run (@register samplePlatform) blindEnv (@emptyWorld samplePlatform noSessions)
      blindRun.1 blindRun.2 := Run.of_exec _ _ _ _

theorem registry_empty (e : @Env samplePlatform) :
    @Registry samplePlatform e (@emptyWorld samplePlatform noSessions) :=
  letI := samplePlatform
  ⟨List.Pairwise.nil, List.Pairwise.nil, fun _ h => absurd h List.not_mem_nil⟩

theorem registry_iff_seenRun :
    letI := samplePlatform
    seenRun.2.db.users.map (fun u => (u.role, u.city)) = [(2, bytes "Torino")] ∧
    (Registry townEnv seenRun.2 ↔ ∀ p x q w₁, seenRun.1 = p ++ x :: q →
      Run register townEnv (emptyWorld noSessions) p w₁ → ¬ Blind townEnv x.1.1 w₁) :=
  letI := samplePlatform
  ⟨by decide +kernel, registry_iff (registry_empty _) run_seenRun⟩

theorem two_admins :
    letI := samplePlatform
    Run register blindEnv (emptyWorld noSessions) blindRun.1 blindRun.2 ∧
    blindRun.2.db.users.map (fun u => (u.role, u.city)) =
      [(2, bytes "Torino"), (2, bytes "Torino")] ∧
    ¬ Registry blindEnv blindRun.2 := by
  let := samplePlatform
  have hrows : blindRun.2.db.users.map (fun u => (u.role, u.city)) =
      [(2, bytes "Torino"), (2, bytes "Torino")] := by decide +kernel
  refine ⟨run_blindRun, hrows, fun hreg => ?_⟩
  have hpairs : (blindRun.2.db.users.map fun u => (u.role, u.city)).Pairwise
      fun u v => ¬ (u.1 = 2 ∧ v.1 = 2 ∧ u.2 = v.2) := List.pairwise_map.mpr hreg.admins
  rw [hrows] at hpairs
  exact (List.pairwise_cons.mp hpairs).1 _ (List.mem_singleton_self _) ⟨rfl, rfl, rfl⟩

end Segnalacity
