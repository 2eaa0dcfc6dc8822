import Segnalacity.HashTable.Map
import Segnalacity.Lib.LittleEndian

/-! # Snapshots of the hash table

`ht_snapshot` and `ht_load`.  A file is the list of its bytes, and a `size_t` is written as 8 of them,
the lowest first.  The results of `fwrite` are not looked at in the source: `htSnapshot` is what is
handed to it.  The loop of `ht_load` drops the results of `ht_set`; `loadLoop` keeps its calls with
their results beside the table.

A record is read back from whatever file it stands in (`loadRecord_save`), so a snapshot gives the map
back to any empty table (`htLoad_snapshot`).  But `ht_load` reports success for any file that it
can open (`htLoad_reports_iff`). -/

namespace Segnalacity

open CStr LittleEndian HashTable StateProg

def maxKeyLen : ℕ := 2 ^ 12

def maxValueSize : ℕ := 2 ^ 20

/-- A key and its value. -/
abbrev Record := Bytes × Bytes

def saveRecord (r : Record) : Bytes :=
  leBytes 8 r.1.length ++ r.1 ++ leBytes 8 r.2.length ++ r.2

/-- `save_entry`. -/
def saveEntry (e : Entry Bytes) : Bytes := saveRecord (e.key, e.value)

/-- `ht_snapshot`: the file, unless `fopen` fails. -/
def htSnapshot (t : HashTable Bytes) (opened : Bool) : Option Bytes :=
  if opened then some (t.pool.foldl (fun f b => b.foldl (fun f e => f ++ saveEntry e) f) [])
  else none

/-! ### Loading -/

/-- `fread` of `n` bytes: what is read, and the rest of the file. -/
def fread (n : ℕ) (f : Bytes) : Bytes × Bytes := (f.take n, f.drop n)

/-- The same, when anything less counts as a failure. -/
def freadAll (n : ℕ) (f : Bytes) : Option (Bytes × Bytes) :=
  if (fread n f).1.length = n then some (fread n f) else none

/-- The allocations of one round of `ht_load`. -/
structure LoadAllocs where
  key : Bool
  value : Bool
  set : SetAllocs

/-- One round of the loop of `ht_load`: the table, the call of `ht_set` with its result, and the rest
of the file; `none` when the loop is left. -/
def loadRecord (m : LoadAllocs) (t : HashTable Bytes) (f : Bytes) :
    Option (HashTable Bytes × List (Record × Bool) × Bytes) := do
  let (keyLen, f) ← freadAll 8 f
  guard (leValue keyLen ≠ 0 ∧ leValue keyLen ≤ maxKeyLen)
  guard (m.key = true)
  let (key, f) ← freadAll (leValue keyLen) f
  let (valLen, f) ← freadAll 8 f
  guard (leValue valLen ≠ 0 ∧ leValue valLen ≤ maxValueSize)
  guard (m.value = true)
  let (val, f) := fread (leValue valLen) f
  if val.length = leValue valLen then
    let (ok, t) := htSet t key val m.set
    pure (t, [((key, val), ok)], f)
  else pure (t, [], f)

/-- The loop, from round `i`. -/
def loadLoop (allocs : ℕ → LoadAllocs) : ℕ → ℕ → HashTable Bytes → Bytes →
    HashTable Bytes × List (Record × Bool)
  | 0, _, t, _ => (t, [])
  | fuel + 1, i, t, f =>
      match loadRecord (allocs i) t f with
      | none => (t, [])
      | some (t, calls, f) =>
          let r := loadLoop allocs fuel (i + 1) t f
          (r.1, calls ++ r.2)

/-- `ht_load` of a file, `none` when it cannot be opened: the result, the table, and the calls of
`ht_set`.  A round reads 8 bytes at least. -/
def htLoad (t : HashTable Bytes) (file : Option Bytes) (allocs : ℕ → LoadAllocs) :
    ℤ × HashTable Bytes × List (Record × Bool) :=
  if t.size > 0 then (0, t, [])
  else
    match file with
    | none => (0, t, [])
    | some f => (1, loadLoop allocs f.length 0 t f)

theorem htLoad_refused {t : HashTable Bytes} {file : Option Bytes} {allocs : ℕ → LoadAllocs}
    (h : t.size ≠ 0 ∨ file = none) : htLoad t file allocs = (0, t, []) := by
  unfold htLoad
  by_cases hsize : t.size > 0
  · rw [if_pos hsize]
  · rw [if_neg hsize, h.resolve_left (by omega)]

theorem htLoad_opened {t : HashTable Bytes} {f : Bytes} {allocs : ℕ → LoadAllocs}
    (h : t.size = 0) : htLoad t (some f) allocs = (1, loadLoop allocs f.length 0 t f) :=
  if_neg (by omega)

/-! ### Records -/

/-- The lengths that `ht_load` takes. -/
def InLimits (r : Record) : Prop :=
  (r.1.length ≠ 0 ∧ r.1.length ≤ maxKeyLen) ∧ r.2.length ≠ 0 ∧ r.2.length ≤ maxValueSize

instance (r : Record) : Decidable (InLimits r) := inferInstanceAs (Decidable (_ ∧ _))

theorem freadAll_append {n : ℕ} {bs : Bytes} (h : bs.length = n) (f : Bytes) :
    freadAll n (bs ++ f) = some (bs, f) := by
  subst h
  unfold freadAll fread
  rw [List.take_left, List.drop_left, if_pos rfl]

/-- A size that is in limits is read as it was written. -/
theorem leValue_size {n : ℕ} (h : n ≤ maxValueSize) : leValue (leBytes 8 n) = n := by
  refine leValue_leBytes_of_lt (h.trans_lt ?_)
  decide

/-- A record is read back, whatever stands behind it. -/
theorem loadRecord_save {r : Record} (hr : InLimits r) (m : LoadAllocs) (t : HashTable Bytes)
    (f : Bytes) :
    loadRecord m t (saveRecord r ++ f) =
      if m.key = true ∧ m.value = true then
        some ((htSet t r.1 r.2 m.set).2, [(r, (htSet t r.1 r.2 m.set).1)], f)
      else none := by
  obtain ⟨hkey, hvalue⟩ := hr
  have hkeyLen : leValue (leBytes 8 r.1.length) = r.1.length :=
    leValue_size (hkey.2.trans (by decide))
  have hvalLen : leValue (leBytes 8 r.2.length) = r.2.length := leValue_size hvalue.2
  have hread : fread r.2.length (r.2 ++ f) = (r.2, f) := by
    unfold fread
    rw [List.take_left, List.drop_left]
  unfold loadRecord saveRecord
  simp only [List.append_assoc, freadAll_append (leBytes_length 8 _), Option.bind_eq_bind,
    Option.bind_some, hkeyLen, hvalLen, freadAll_append rfl, hread, guard, if_pos hkey,
    if_pos hvalue, if_true, Option.pure_def]
  by_cases hk : m.key = true
  · by_cases hv : m.value = true
    · rw [if_pos hk, if_pos hv, if_pos ⟨hk, hv⟩]
      rfl
    · have hnot : ¬ (m.key = true ∧ m.value = true) := fun h => hv h.2
      rw [if_pos hk, if_neg hv, if_neg hnot]
      rfl
  · have hnot : ¬ (m.key = true ∧ m.value = true) := fun h => hk h.1
    rw [if_neg hk, if_neg hnot]
    rfl

/-- What is read is a record, and inserted; or the file ends in the value of one. -/
theorem loadRecord_cases {m : LoadAllocs} {t t' : HashTable Bytes} {f f' : Bytes}
    {calls : List (Record × Bool)} (h : loadRecord m t f = some (t', calls, f')) :
    (∃ r, InLimits r ∧ f = saveRecord r ++ f' ∧ t' = (htSet t r.1 r.2 m.set).2 ∧
        calls = [(r, (htSet t r.1 r.2 m.set).1)]) ∨
      t' = t ∧ calls = [] ∧ f' = [] := by
  have hread : ∀ {n : ℕ} {f bs rest : Bytes}, freadAll n f = some (bs, rest) →
      f = bs ++ rest ∧ bs.length = n := by
    intro n f bs rest hread
    unfold freadAll fread at hread
    split_ifs at hread with hlen
    obtain ⟨rfl, rfl⟩ := Prod.mk.inj (Option.some.inj hread)
    exact ⟨(List.take_append_drop n f).symm, hlen⟩
  unfold loadRecord at h
  simp only [Option.bind_eq_bind, Option.bind_eq_some_iff, Prod.exists, guard, Option.pure_def]
    at h
  obtain ⟨keyLen, f₁, hkeyLen, _, hkey, _, -, key, f₂, hkey', valLen, f₃, hvalLen, _, hval, _, -,
    h⟩ := h
  obtain ⟨rfl, hkeyLen'⟩ := hread hkeyLen
  obtain ⟨rfl, hkeyLength⟩ := hread hkey'
  obtain ⟨rfl, hvalLen'⟩ := hread hvalLen
  have hguard : ∀ {p : Prop} [Decidable p] {u : Unit},
      (if p then some () else failure) = some u → p := by
    intro p _ u hsome
    by_contra hp
    rw [if_neg hp] at hsome
    exact absurd hsome nofun
  have hkeyIn := hguard hkey
  have hvalIn := hguard hval
  have hkeySize := leBytes_leValue keyLen
  have hvalSize := leBytes_leValue valLen
  unfold fread at h
  dsimp only at h
  by_cases hlen : (f₃.take (leValue valLen)).length = leValue valLen
  · rw [if_pos hlen] at h
    obtain ⟨rfl, rfl, rfl⟩ := h
    refine Or.inl ⟨(key, f₃.take (leValue valLen)), ⟨?_, ?_⟩, ?_, rfl, rfl⟩
    · rw [hkeyLength]
      exact hkeyIn
    · rw [hlen]
      exact hvalIn
    · unfold saveRecord
      dsimp only
      rw [hkeyLength, hlen, ← hkeyLen', hkeySize, hkeyLen', ← hvalLen', hvalSize, List.append_assoc,
        List.append_assoc, List.append_assoc, List.take_append_drop]
  · rw [if_neg hlen] at h
    obtain ⟨rfl, rfl, rfl⟩ := h
    refine Or.inr ⟨rfl, rfl, List.drop_eq_nil_of_le ?_⟩
    rw [List.length_take] at hlen
    omega

/-- The records of a file are all inserted, from round `i`. -/
def Inserted (allocs : ℕ → LoadAllocs) : ℕ → HashTable Bytes → List Record → Prop
  | _, _, [] => True
  | i, t, r :: rs => ((allocs i).key = true ∧ (allocs i).value = true) ∧
      (htSet t r.1 r.2 (allocs i).set).1 = true ∧
      Inserted allocs (i + 1) (htSet t r.1 r.2 (allocs i).set).2 rs

section load
variable {allocs : ℕ → LoadAllocs} {fuel i : ℕ} {t : HashTable Bytes} {rs : List Record}

theorem loadLoop_nil : loadLoop allocs fuel i t [] = (t, []) := by
  cases fuel with
  | zero => rfl
  | succ fuel => rfl

/-- The calls of `ht_set` for a file of records are those for all of them, and successful, when they
are all inserted. -/
theorem loadLoop_calls_iff (hrs : ∀ r ∈ rs, InLimits r) (hfuel : rs.length ≤ fuel) :
    (loadLoop allocs fuel i t (rs.flatMap saveRecord)).2 = rs.map (fun r => (r, true)) ↔
      Inserted allocs i t rs := by
  induction rs generalizing fuel i t with
  | nil =>
      rw [List.flatMap_nil, loadLoop_nil]
      exact ⟨fun _ => trivial, fun _ => rfl⟩
  | cons r rs ih =>
      obtain ⟨fuel, rfl⟩ := Nat.exists_eq_succ_of_ne_zero (Nat.ne_of_gt (Nat.zero_lt_of_lt hfuel))
      have hrest : (loadLoop allocs fuel (i + 1) (htSet t r.1 r.2 (allocs i).set).2
          (rs.flatMap saveRecord)).2 = rs.map (fun r => (r, true)) ↔
          Inserted allocs (i + 1) (htSet t r.1 r.2 (allocs i).set).2 rs :=
        ih (fun r' hr' => hrs r' (List.mem_cons_of_mem r hr')) (Nat.le_of_succ_le_succ hfuel)
      rw [List.flatMap_cons, loadLoop, loadRecord_save (hrs r List.mem_cons_self)]
      by_cases hm : (allocs i).key = true ∧ (allocs i).value = true
      · rw [if_pos hm]
        show (r, (htSet t r.1 r.2 (allocs i).set).1) ::
          (loadLoop allocs fuel (i + 1) (htSet t r.1 r.2 (allocs i).set).2
            (rs.flatMap saveRecord)).2 = (r, true) :: rs.map (fun r => (r, true)) ↔ _
        rw [List.cons.injEq, Prod.mk.injEq, hrest]
        exact ⟨fun h => ⟨hm, h.1.2, h.2⟩, fun h => ⟨⟨rfl, h.2.1⟩, h.2.2⟩⟩
      · rw [if_neg hm]
        exact ⟨fun h => absurd h nofun, fun h => absurd h.1 hm⟩

def putRecord (m : Bytes → Option Bytes) (r : Record) : Bytes → Option Bytes :=
  Function.update m r.1 (some r.2)

/-- A file of records that are all inserted: each one is put into the map. -/
theorem loadLoop_inserted (hw : t.WF) (hrs : ∀ r ∈ rs, InLimits r) (hfuel : rs.length ≤ fuel)
    (hins : Inserted allocs i t rs) :
    Follows t (loadLoop allocs fuel i t (rs.flatMap saveRecord)).1 ∧
      htGet (loadLoop allocs fuel i t (rs.flatMap saveRecord)).1 =
        rs.foldl putRecord (htGet t) := by
  induction rs generalizing fuel i t with
  | nil =>
      rw [List.flatMap_nil, loadLoop_nil]
      exact ⟨⟨hw, rfl, rfl⟩, rfl⟩
  | cons r rs ih =>
      obtain ⟨fuel, rfl⟩ := Nat.exists_eq_succ_of_ne_zero (Nat.ne_of_gt (Nat.zero_lt_of_lt hfuel))
      obtain ⟨hm, hok, hins'⟩ := hins
      obtain ⟨hfollows, hget⟩ := htSet_spec hw r.1 r.2 (allocs i).set
      obtain ⟨hfollows', hget'⟩ := ih hfollows.wf
        (fun r' hr' => hrs r' (List.mem_cons_of_mem r hr')) (Nat.le_of_succ_le_succ hfuel) hins'
      have hput : htGet (htSet t r.1 r.2 (allocs i).set).2 = putRecord (htGet t) r := by
        rw [hget, if_pos hok]
        rfl
      rw [List.flatMap_cons, loadLoop, loadRecord_save (hrs r List.mem_cons_self), if_pos hm,
        List.foldl_cons, ← hput]
      refine ⟨⟨hfollows'.wf, ?_, ?_⟩, hget'⟩
      · exact hfollows'.seed.trans hfollows.seed
      · exact hfollows'.hashFunction.trans hfollows.hashFunction

/-- Whatever the file: the loop inserts the records with which it begins, one after the other, and
keeps the invariant. -/
theorem loadLoop_spec (hw : t.WF) (f : Bytes) :
    Follows t (loadLoop allocs fuel i t f).1 ∧ ∃ rs rest, f = rs.flatMap saveRecord ++ rest ∧
      (∀ r ∈ rs, InLimits r) ∧ (loadLoop allocs fuel i t f).2.map Prod.fst = rs := by
  induction fuel generalizing i t f with
  | zero => exact ⟨⟨hw, rfl, rfl⟩, [], f, rfl, List.forall_mem_nil _, rfl⟩
  | succ fuel ih =>
      rw [loadLoop]
      cases hround : loadRecord (allocs i) t f with
      | none => exact ⟨⟨hw, rfl, rfl⟩, [], f, rfl, List.forall_mem_nil _, rfl⟩
      | some result =>
          obtain ⟨t', calls, f'⟩ := result
          dsimp only
          rcases loadRecord_cases hround with ⟨r, hr, hf, rfl, rfl⟩ | ⟨rfl, rfl, rfl⟩
          · obtain ⟨hfollows, -⟩ := htSet_spec hw r.1 r.2 (allocs i).set
            obtain ⟨hfollows', rs, rest, hf', hrs, hcalls⟩ := ih hfollows.wf f'
            refine ⟨⟨hfollows'.wf, hfollows'.seed.trans hfollows.seed,
              hfollows'.hashFunction.trans hfollows.hashFunction⟩, r :: rs, rest, ?_, ?_, ?_⟩
            · rw [hf, hf', List.flatMap_cons, List.append_assoc]
            · intro r' hr'
              rcases List.mem_cons.mp hr' with rfl | hr'
              · exact hr
              · exact hrs r' hr'
            · exact congrArg (r :: ·) hcalls
          · rw [loadLoop_nil]
            exact ⟨⟨hw, rfl, rfl⟩, [], f, rfl, List.forall_mem_nil _, rfl⟩

end load

/-! ### A snapshot is read back -/

theorem htSnapshot_eq (t : HashTable Bytes) :
    htSnapshot t true =
      some ((t.entries.map fun e => (e.key, e.value)).flatMap saveRecord) := by
  have hloop : ∀ (es : List (Entry Bytes)) (f : Bytes),
      es.foldl (fun f e => f ++ saveEntry e) f =
        f ++ (es.map fun e => (e.key, e.value)).flatMap saveRecord := by
    intro es
    induction es with
    | nil => exact fun f => (List.append_nil f).symm
    | cons e es ih =>
        intro f
        rw [List.foldl_cons, ih, List.map_cons, List.flatMap_cons, List.append_assoc]
        rfl
  have hfile := htForeach_eq t (fun k v (f : Bytes) => f ++ saveRecord (k, v)) []
  have hrecords := hloop t.entries []
  rw [List.nil_append] at hrecords
  exact congrArg some (hfile.trans hrecords)

/-- The map of records with distinct keys. -/
theorem foldl_putRecord {rs : List Record} (hnodup : (rs.map Prod.fst).Nodup)
    (m : Bytes → Option Bytes) (k v : Bytes) :
    rs.foldl putRecord m k = some v ↔ (k, v) ∈ rs ∨ k ∉ rs.map Prod.fst ∧ m k = some v := by
  induction rs generalizing m with
  | nil =>
      exact ⟨fun h => Or.inr ⟨List.not_mem_nil, h⟩, fun h => (h.resolve_left List.not_mem_nil).2⟩
  | cons r rs ih =>
      rw [List.map_cons, List.nodup_cons] at hnodup
      obtain ⟨hnot, hnodup'⟩ := hnodup
      rw [List.foldl_cons, ih hnodup' (putRecord m r), List.mem_cons, List.map_cons, List.mem_cons]
      by_cases hk : k = r.1
      · subst hk
        have hput : putRecord m r r.1 = some r.2 := Function.update_self _ _ _
        have hmem : (r.1, v) ∉ rs := fun h => hnot (List.mem_map.mpr ⟨_, h, rfl⟩)
        rw [hput]
        constructor
        · rintro (h | ⟨-, h⟩)
          · exact absurd h hmem
          · rw [← Option.some.inj h]
            exact Or.inl (Or.inl rfl)
        · rintro ((h | h) | ⟨h, -⟩)
          · rw [← h]
            exact Or.inr ⟨hnot, rfl⟩
          · exact absurd h hmem
          · exact absurd (Or.inl rfl) h
      · have hput : putRecord m r k = m k := Function.update_of_ne hk _ _
        have hne : (k, v) ≠ r := fun h => hk (congrArg Prod.fst h)
        rw [hput]
        constructor
        · rintro (h | ⟨h, hm⟩)
          · exact Or.inl (Or.inr h)
          · exact Or.inr ⟨fun hor => hor.elim hk h, hm⟩
        · rintro ((h | h) | ⟨h, hm⟩)
          · exact absurd h hne
          · exact Or.inl h
          · exact Or.inr ⟨fun hmem => h (Or.inr hmem), hm⟩

/-- Every allocation of a round succeeds. -/
def roundDelivered : LoadAllocs := ⟨true, true, allDelivered⟩

theorem inserted_delivered (i : ℕ) (t : HashTable Bytes) (rs : List Record) :
    Inserted (fun _ => roundDelivered) i t rs := by
  induction rs generalizing i t with
  | nil => trivial
  | cons r rs ih => exact ⟨⟨rfl, rfl⟩, htSet_allDelivered t r.1 r.2, ih _ _⟩

/-- A record has a byte at least, so a round for each byte of a file is enough. -/
theorem length_le_flatMap (rs : List Record) : rs.length ≤ (rs.flatMap saveRecord).length := by
  induction rs with
  | nil => exact Nat.zero_le _
  | cons r rs ih =>
      have hrecord : 8 ≤ (saveRecord r).length := by
        unfold saveRecord
        rw [List.length_append, List.length_append, List.length_append, leBytes_length]
        omega
      rw [List.flatMap_cons, List.length_append, List.length_cons]
      omega

/-- **A snapshot restores the table.** -/
theorem htLoad_snapshot {cap cap' : ℕ} {hash hash' : Bytes → UInt64 → UInt64} {seed seed' : UInt64}
    {t₀ t u₀ u : HashTable Bytes} {log log' : List (HtOp × HtAnswer)}
    (hc : htCreate cap hash seed true true = some t₀) (hr : Run HtOp.run () t₀ log t)
    (hc' : htCreate cap' hash' seed' true true = some u₀) (hr' : Run HtOp.run () u₀ log' u)
    (hempty : u.size = 0) (hlimits : ∀ e ∈ t.entries, InLimits (e.key, e.value)) :
    (htLoad u (htSnapshot t true) fun _ => roundDelivered).1 = 1 ∧
      htGet (htLoad u (htSnapshot t true) fun _ => roundDelivered).2.1 = htGet t := by
  have hw : t.WF := (run_mapRun hc hr).2.wf
  have hw' : u.WF := (run_mapRun hc' hr').2.wf
  have hnil : u.entries = [] := by
    rw [← List.length_eq_zero_iff, ← hw'.size_eq]
    exact hempty
  generalize hrs : (t.entries.map fun e => (e.key, e.value)) = rs
  have hlimits' : ∀ r ∈ rs, InLimits r := by
    rw [← hrs]
    intro r hr
    obtain ⟨e, he, rfl⟩ := List.mem_map.mp hr
    exact hlimits e he
  obtain ⟨-, hget⟩ := loadLoop_inserted hw' hlimits' (length_le_flatMap rs)
    (inserted_delivered 0 u rs)
  rw [htSnapshot_eq, hrs, htLoad_opened hempty]
  refine ⟨rfl, hget.trans ?_⟩
  have hnodup : (rs.map Prod.fst).Nodup := by
    rw [← hrs, List.map_map]
    exact hw.nodup
  funext k
  refine Option.ext fun v => ?_
  rw [foldl_putRecord hnodup, htGet_of_entries_nil hw' hnil, htGet_eq_some_iff hw, ← hrs,
    List.mem_map]
  constructor
  · rintro (⟨e, he, h⟩ | ⟨-, h⟩)
    · exact ⟨e, he, congrArg Prod.fst h, congrArg Prod.snd h⟩
    · exact absurd h nofun
  · rintro ⟨e, he, rfl, rfl⟩
    exact Or.inl ⟨e, he, rfl⟩

/-- From a table of one bucket, with two bindings, to one of 101. -/
theorem htLoad_snapshot_two : ∃ t u : HashTable Bytes, t.size = 2 ∧ u.capacity = 101 ∧
    (htLoad u (htSnapshot t true) fun _ => roundDelivered).1 = 1 ∧
    htGet (htLoad u (htSnapshot t true) fun _ => roundDelivered).2.1 = htGet t :=
  ⟨_, _, rfl, rfl, @htLoad_snapshot 1 0 (fun k _ => UInt64.ofNat k.length) (fun _ _ => 5) 7 8 _ _ _ _
    [(.set [1] [5, 6] allDelivered, .set true), (.set [2, 3] [7] allDelivered, .set true)] [] rfl
    (.snoc (.snoc .nil rfl) rfl) rfl .nil rfl (by decide)⟩

/-! ### What `ht_load` reports -/

/-- The table was empty, and the file is a sequence of records, which were all inserted. -/
def FullLoad (t : HashTable Bytes) (file : Option Bytes) (allocs : ℕ → LoadAllocs) : Prop :=
  t.size = 0 ∧ ∃ rs : List Record, file = some (rs.flatMap saveRecord) ∧ (∀ r ∈ rs, InLimits r) ∧
    (htLoad t file allocs).2.2 = rs.map fun r => (r, true)

/-- Success is reported for a full load, and after anything else the table is as it was. -/
def LoadReported (t : HashTable Bytes) (file : Option Bytes) (allocs : ℕ → LoadAllocs) : Prop :=
  ((htLoad t file allocs).1 = 1 ↔ FullLoad t file allocs) ∧
    (¬ FullLoad t file allocs →
      (htLoad t file allocs).1 = 0 ∧ htGet (htLoad t file allocs).2.1 = htGet t)

/-- No file breaks the table. -/
theorem htLoad_wf {t : HashTable Bytes} (hw : t.WF) (file : Option Bytes)
    (allocs : ℕ → LoadAllocs) : Follows t (htLoad t file allocs).2.1 := by
  by_cases hrefused : t.size ≠ 0 ∨ file = none
  · rw [htLoad_refused hrefused]
    exact ⟨hw, rfl, rfl⟩
  · obtain ⟨hsize, hfile⟩ := not_or.mp hrefused
    obtain ⟨f, rfl⟩ := Option.ne_none_iff_exists'.mp hfile
    rw [htLoad_opened (not_not.mp hsize)]
    exact (loadLoop_spec hw f).1

/-- `ht_load` reports success for every file that it can open. -/
theorem htLoad_reports_iff (t : HashTable Bytes) (file : Option Bytes) (allocs : ℕ → LoadAllocs) :
    LoadReported t file allocs ↔ t.size ≠ 0 ∨ file = none ∨
      ∃ rs : List Record, file = some (rs.flatMap saveRecord) ∧ (∀ r ∈ rs, InLimits r) ∧
        Inserted allocs 0 t rs := by
  by_cases hrefused : t.size ≠ 0 ∨ file = none
  · have hnot : ¬ FullLoad t file allocs := by
      rintro ⟨hsize, rs, hfile, -⟩
      rcases hrefused with h | h
      · exact h hsize
      · rw [h] at hfile
        exact absurd hfile nofun
    have hload : htLoad t file allocs = (0, t, []) := htLoad_refused hrefused
    refine ⟨fun _ => by tauto, fun _ => ⟨?_, fun _ => ?_⟩⟩
    · rw [hload]
      exact ⟨fun h => absurd h Int.zero_ne_one, fun h => absurd h hnot⟩
    · rw [hload]
      exact ⟨rfl, rfl⟩
  · obtain ⟨hsize, hfile⟩ := not_or.mp hrefused
    rw [not_not] at hsize
    obtain ⟨f, rfl⟩ := Option.ne_none_iff_exists'.mp hfile
    have hload : htLoad t (some f) allocs = (1, loadLoop allocs f.length 0 t f) :=
      htLoad_opened hsize
    -- the calls of `ht_set` tell whether all is inserted
    have hfull : FullLoad t (some f) allocs ↔ ∃ rs : List Record, some f = some (rs.flatMap saveRecord) ∧
        (∀ r ∈ rs, InLimits r) ∧ Inserted allocs 0 t rs := by
      unfold FullLoad
      rw [hload]
      constructor
      · rintro ⟨-, rs, hrs, hlimits, hcalls⟩
        obtain rfl := Option.some.inj hrs
        exact ⟨rs, rfl, hlimits, (loadLoop_calls_iff hlimits (length_le_flatMap rs)).mp hcalls⟩
      · rintro ⟨rs, hrs, hlimits, hins⟩
        obtain rfl := Option.some.inj hrs
        exact ⟨hsize, rs, rfl, hlimits,
          (loadLoop_calls_iff hlimits (length_le_flatMap rs)).mpr hins⟩
    rw [← hfull]
    constructor
    · intro h
      exact Or.inr (Or.inr (h.1.mp (congrArg Prod.fst hload)))
    · rintro (h | h | h)
      · exact absurd hsize h
      · exact absurd h nofun
      · exact ⟨⟨fun _ => h, fun _ => congrArg Prod.fst hload⟩, fun hnot => absurd h hnot⟩

def emptyTable : HashTable Bytes :=
  ⟨List.replicate 3 [], 0, 3, 7, fun key _ => UInt64.ofNat key.length⟩

/-- An empty value, which `ht_set` takes, is refused by the loop, and nothing is loaded. -/
theorem htLoad_emptyValue :
    ¬ LoadReported emptyTable (htSnapshot (htSet emptyTable [1] [] allDelivered).2 true)
      (fun _ => roundDelivered) := by
  have hfile : htSnapshot (htSet emptyTable [1] [] allDelivered).2 true =
      some [1, 0, 0, 0, 0, 0, 0, 0, 1, 0, 0, 0, 0, 0, 0, 0, 0] := by decide
  have hcalls : (htLoad emptyTable (some [1, 0, 0, 0, 0, 0, 0, 0, 1, 0, 0, 0, 0, 0, 0, 0, 0])
      fun _ => roundDelivered).2.2 = [] := by decide
  rw [hfile]
  rintro ⟨hone, -⟩
  obtain ⟨-, rs, hrs, -, hall⟩ := hone.mp rfl
  rw [hcalls] at hall
  obtain rfl := List.map_eq_nil_iff.mp hall.symm
  exact absurd hrs (by decide)

end Segnalacity
