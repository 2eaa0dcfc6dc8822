import Segnalacity.HashTable.Map
import Segnalacity.Geo
import Segnalacity.Session

/-! # Loading the municipalities

`geo_init`: every feature of the GeoJSON file that has a name and a geometry is put into the table
under its name and its name into the list of cities.  A later feature of the same name replaces the
earlier one and is counted and listed like any other, so the table has all the features that were
counted exactly when their names tell them apart: `none_lost_iff`.

`GeoPlatform` is what the loader uses of `double` arithmetic and of `cJSON`.  Integers stand for the
`int`s that count vertices and features; the tree of a file on which these wrap would take hundreds
of gigabytes. -/

namespace Segnalacity

open CStr StateProg

/-- `elements` are the items that `cJSON_ArrayForEach` visits; a NULL pointer is `none`. -/
class GeoPlatform [Platform] where
  dblMax : Double
  negDblMax : Double
  lt : Double → Double → Bool
  add : Double → Double → Double
  divInt : Double → ℤ → Double
  Item : Type
  parseWithLength : Bytes → Option Item
  getObjectItem : Option Item → Bytes → Option Item
  getArrayItem : Option Item → ℕ → Option Item
  elements : Option Item → List Item
  getStringValue : Option Item → Option Bytes
  valueDouble : Item → Double

export GeoPlatform (Item)

section platform

variable [Platform] [GeoPlatform]

/-! ### Geometries -/

/-- Bounds and sums of the vertices so far. -/
structure Extent where
  latMin : Double
  latMax : Double
  lonMin : Double
  lonMax : Double
  latSum : Double
  lonSum : Double
  count : ℤ

def noVertices : Extent where
  latMin := GeoPlatform.dblMax
  latMax := GeoPlatform.negDblMax
  lonMin := GeoPlatform.dblMax
  lonMax := GeoPlatform.negDblMax
  latSum := Platform.zero
  lonSum := Platform.zero
  count := 0

/-- One `[lon, lat]` pair; `none` is the access through a NULL pointer when there are fewer than two
coordinates. -/
def addVertex (x : Extent) (pair : Item) : Option Extent := do
  let lonItem ← GeoPlatform.getArrayItem (some pair) 0
  let latItem ← GeoPlatform.getArrayItem (some pair) 1
  let lon := GeoPlatform.valueDouble lonItem
  let lat := GeoPlatform.valueDouble latItem
  pure {
    latMin := if GeoPlatform.lt lat x.latMin then lat else x.latMin
    latMax := if GeoPlatform.lt x.latMax lat then lat else x.latMax
    lonMin := if GeoPlatform.lt lon x.lonMin then lon else x.lonMin
    lonMax := if GeoPlatform.lt x.lonMax lon then lon else x.lonMax
    latSum := GeoPlatform.add x.latSum lat
    lonSum := GeoPlatform.add x.lonSum lon
    count := x.count + 1 }

/-- The geometry, or false; `none` outside is a crash. -/
def parseGeometry (geometry : Item) : Option (Option CityGeo) :=
  let type := GeoPlatform.getStringValue
    (GeoPlatform.getObjectItem (some geometry) (bytes "type"))
  let coords := GeoPlatform.getObjectItem (some geometry) (bytes "coordinates")
  match type, coords with
  | some type, some coords =>
      let first := GeoPlatform.getArrayItem (some coords) 0
      let outerRing := if cstr type = bytes "MultiPolygon" then GeoPlatform.getArrayItem first 0
        else first
      match outerRing with
      | none => some none
      | some ring => do
          let x ← (GeoPlatform.elements (some ring)).foldlM addVertex noVertices
          if x.count = 0 then pure none
          else pure (some {
            latMin := x.latMin
            latMax := x.latMax
            lonMin := x.lonMin
            lonMax := x.lonMax
            centroidLat := GeoPlatform.divInt x.latSum x.count
            centroidLon := GeoPlatform.divInt x.lonSum x.count })
  | _, _ => some none

/-! ### Features -/

/-- Name and geometry of a feature, or that it is skipped; `none` outside is a crash. -/
def parseFeature (feature : Item) : Option (Option (Bytes × CityGeo)) :=
  let props := GeoPlatform.getObjectItem (some feature) (bytes "properties")
  let geometry := GeoPlatform.getObjectItem (some feature) (bytes "geometry")
  match GeoPlatform.getStringValue (GeoPlatform.getObjectItem props (bytes "comune")), geometry with
  | some name, some geometry => do
      let geo ← parseGeometry geometry
      pure (geo.map fun geo => (name, geo))
  | _, _ => some none

/-- What the loader meets: the file, if it can be opened and mapped, and the outcome of its
allocations and of writing the list of cities.  The allocations are numbered by the features
counted. -/
structure LoadEnv where
  data : Option Bytes
  citiesOut : Bool
  arrayOk : Bool
  allocs : ℤ → SetAllocs
  stringOk : ℤ → Bool
  printOk : Bool
  openOk : Bool

structure LoadState where
  table : HashTable CityGeo
  citiesArr : Option (List Bytes)
  loaded : ℤ
  skipped : ℤ

/-- The body of the loop. -/
def loadFeature (inp : LoadEnv) (s : LoadState) (feature : Item) : Option LoadState := do
  let parsed ← parseFeature feature
  match parsed with
  | none => pure { s with skipped := s.skipped + 1 }
  | some (name, geo) => pure { s with
      table := (htSet s.table (geoKey name) geo (inp.allocs s.loaded)).2
      citiesArr := s.citiesArr.map fun names =>
        if inp.stringOk s.loaded then names ++ [cstr name] else names
      loaded := s.loaded + 1 }

/-- What `load_geojson` returns, the table, and the names in the file of cities if it was
written. -/
structure Loaded where
  returned : ℤ
  table : HashTable CityGeo
  cities : Option (List Bytes)

def loadGeojson (inp : LoadEnv) (ht : HashTable CityGeo) : Option Loaded :=
  match inp.data with
  | none => some ⟨-1, ht, none⟩
  | some data =>
      match GeoPlatform.parseWithLength data with
      | none => some ⟨-1, ht, none⟩
      | some root => do
          let s ← (GeoPlatform.elements (GeoPlatform.getObjectItem (some root)
            (bytes "features"))).foldlM (loadFeature inp)
              ⟨ht, if inp.citiesOut && inp.arrayOk then some [] else none, 0, 0⟩
          pure ⟨s.loaded, s.table, if inp.printOk && inp.openOk then s.citiesArr else none⟩

/-- `geo_init`: the value returned, the table kept and the file of cities. -/
def geoInit (inp : LoadEnv) (hash : Bytes → UInt64 → UInt64) (seed : UInt64)
    (tableOk poolOk : Bool) : Option (ℤ × Option (HashTable CityGeo) × Option (List Bytes)) :=
  match htCreate 8192 hash seed tableOk poolOk with
  | none => some (-1, none, none)
  | some cityTable => do
      let r ← loadGeojson inp cityTable
      pure (r.returned, if r.returned < 0 then none else some r.table, r.cities)

/-! ### What is counted and what is inserted -/

/-- The features that are counted as loaded. -/
def countedFeatures (inp : LoadEnv) : List (Bytes × CityGeo) :=
  match inp.data.bind GeoPlatform.parseWithLength with
  | none => []
  | some root => (GeoPlatform.elements (GeoPlatform.getObjectItem (some root)
      (bytes "features"))).filterMap fun feature => (parseFeature feature).join

/-- A counted feature with the outcome of `ht_set` and of adding its name to the list. -/
structure Insertion where
  name : Bytes
  geo : CityGeo
  stored : Bool
  listed : Bool

/-- The insertions of the features, counted from `n`, into a table. -/
def insertions (inp : LoadEnv) : ℤ → HashTable CityGeo → List (Bytes × CityGeo) → List Insertion
  | _, _, [] => []
  | n, t, f :: fs =>
      ⟨f.1, f.2, (htSet t (geoKey f.1) f.2 (inp.allocs n)).1, inp.stringOk n⟩ ::
        insertions inp (n + 1) (htSet t (geoKey f.1) f.2 (inp.allocs n)).2 fs

def storedPairs (ins : List Insertion) : List (Bytes × CityGeo) :=
  (ins.filter Insertion.stored).map fun x => (geoKey x.name, x.geo)

def listedNames (ins : List Insertion) : List Bytes :=
  (ins.filter Insertion.listed).map fun x => cstr x.name

/-- The map after some pairs have been written one after the other. -/
def writes {κ V : Type} [DecidableEq κ] (m : κ → Option V) (ps : List (κ × V)) : κ → Option V :=
  ps.foldl (fun m p => Function.update m p.1 (some p.2)) m

omit [Platform] [GeoPlatform] in
theorem of_writes_eq_some {κ V : Type} [DecidableEq κ] {ps : List (κ × V)} {k : κ} {v : V}
    (h : writes (fun _ => none) ps k = some v) : (k, v) ∈ ps := by
  induction ps using List.reverseRecOn with
  | nil => cases h
  | append_singleton ps p ih =>
      unfold writes at h
      rw [List.foldl_append, List.foldl_cons, List.foldl_nil, Function.update_apply] at h
      split_ifs at h with hk
      · rw [hk, ← Option.some.inj h]
        exact List.mem_append_right _ (List.mem_singleton_self _)
      · exact List.mem_append_left _ (ih h)

omit [Platform] [GeoPlatform] in
theorem isSome_writes {κ V : Type} [DecidableEq κ] {ps : List (κ × V)} {k : κ} :
    (writes (fun _ => none) ps k).isSome ↔ k ∈ ps.map Prod.fst := by
  constructor
  · intro h
    obtain ⟨v, hv⟩ := Option.isSome_iff_exists.mp h
    exact List.mem_map.mpr ⟨_, of_writes_eq_some hv, rfl⟩
  · intro h
    induction ps using List.reverseRecOn with
    | nil => cases h
    | append_singleton ps p ih =>
        unfold writes
        rw [List.foldl_append, List.foldl_cons, List.foldl_nil, Function.update_apply]
        split_ifs with hk
        · rfl
        · rw [List.map_append, List.mem_append] at h
          exact ih (h.resolve_right fun h => hk (List.mem_singleton.mp h))

omit [GeoPlatform] in
theorem insertions_names (inp : LoadEnv) (n : ℤ) (t : HashTable CityGeo)
    (fs : List (Bytes × CityGeo)) :
    (insertions inp n t fs).map (fun x => (x.name, x.geo)) = fs := by
  induction fs generalizing n t with
  | nil => rfl
  | cons f fs ih => rw [insertions, List.map_cons, ih]

/-- The loop writes what is stored into the table and appends what is listed. -/
theorem foldlM_loadFeature {inp : LoadEnv} {features : List Item} {s s' : LoadState}
    (hw : s.table.WF) (h : features.foldlM (loadFeature inp) s = some s') :
    ∃ ins, ins = insertions inp s.loaded s.table
        (features.filterMap fun feature => (parseFeature feature).join) ∧
      s'.table.WF ∧ s'.loaded = s.loaded + ins.length ∧
      htGet s'.table = writes (htGet s.table) (storedPairs ins) ∧
      s'.citiesArr = s.citiesArr.map fun names => names ++ listedNames ins := by
  induction features generalizing s with
  | nil =>
      obtain rfl := Option.some.inj h
      refine ⟨[], rfl, hw, (add_zero _).symm, rfl, ?_⟩
      cases s.citiesArr <;> simp [listedNames]
  | cons feature features ih =>
      rw [List.foldlM_cons] at h
      obtain ⟨s₁, h₁, h₂⟩ := Option.bind_eq_some_iff.mp h
      obtain ⟨parsed, hparsed, hstep⟩ := Option.bind_eq_some_iff.mp h₁
      rw [List.filterMap_cons, hparsed]
      cases parsed with
      | none =>
          obtain rfl := Option.some.inj hstep
          exact ih (s := { s with skipped := s.skipped + 1 }) hw h₂
      | some f =>
          obtain ⟨name, geo⟩ := f
          obtain rfl := Option.some.inj hstep
          obtain ⟨hfollows, hget⟩ := HashTable.htSet_spec hw (geoKey name) geo (inp.allocs s.loaded)
          obtain ⟨ins, rfl, hw', hloaded, htable, hcities⟩ := ih hfollows.wf h₂
          show ∃ ins, ins = insertions inp s.loaded s.table ((name, geo) ::
            features.filterMap fun feature => (parseFeature feature).join) ∧ _
          refine ⟨_, rfl, hw', ?_, ?_, ?_⟩
          · rw [hloaded, insertions, List.length_cons]
            dsimp only
            omega
          · rw [htable, hget]
            simp only [insertions, storedPairs, writes, List.filter_cons]
            split_ifs <;> rfl
          · rw [hcities]
            simp only [insertions, listedNames, List.filter_cons]
            cases s.citiesArr with
            | none => rfl
            | some names => split_ifs <;> simp

/-- The file of cities is written. -/
def LoadEnv.writesCities (inp : LoadEnv) : Bool :=
  inp.citiesOut && inp.arrayOk && inp.printOk && inp.openOk

/-- The insertions of a loading that starts from the table `ht`. -/
def loadInsertions (inp : LoadEnv) (ht : HashTable CityGeo) : List Insertion :=
  insertions inp 0 ht (countedFeatures inp)

theorem loadGeojson_run {inp : LoadEnv} {ht : HashTable CityGeo} {r : Loaded} (hw : ht.WF)
    (h : loadGeojson inp ht = some r) (hn : 0 ≤ r.returned) :
    r.returned = (loadInsertions inp ht).length ∧
    htGet r.table = writes (htGet ht) (storedPairs (loadInsertions inp ht)) ∧
    r.cities = if inp.writesCities then some (listedNames (loadInsertions inp ht)) else none := by
  unfold loadGeojson at h
  unfold loadInsertions countedFeatures
  cases hdata : inp.data with
  | none =>
      rw [hdata] at h
      obtain rfl := Option.some.inj h
      exact absurd hn (show ¬ (0 : ℤ) ≤ -1 by decide)
  | some data =>
      rw [hdata] at h
      rw [Option.bind_some]
      dsimp only at h
      cases hroot : GeoPlatform.parseWithLength data with
      | none =>
          rw [hroot] at h
          obtain rfl := Option.some.inj h
          exact absurd hn (show ¬ (0 : ℤ) ≤ -1 by decide)
      | some root =>
          rw [hroot] at h
          obtain ⟨s, hloop, hlast⟩ := Option.bind_eq_some_iff.mp h
          obtain rfl := Option.some.inj hlast
          obtain ⟨ins, rfl, -, hloaded, htable, hcities⟩ := foldlM_loadFeature hw hloop
          refine ⟨?_, htable, ?_⟩
          · simp [hloaded]
          · rw [hcities, LoadEnv.writesCities]
            cases inp.citiesOut <;> cases inp.arrayOk <;> cases inp.printOk <;>
              cases inp.openOk <;> rfl

/-! ### No municipality is lost -/

/-- Every counted feature is found under its name with its own geometry, and the names in the file
of cities are those of the keys of the table, each once. -/
structure NoneLost (e : Env) (w : World) (loaded : List (Bytes × CityGeo)) (r : Loaded) : Prop where
  found : ∀ f ∈ loaded, (geoLookup f.1 { e with cityTable := r.table } w).1 = some f.2
  names : ∀ names ∈ r.cities, (names.map geoKey).Nodup ∧
    ∀ k, k ∈ names.map geoKey ↔ (htGet r.table k).isSome

/-- Features of one name have one geometry, one of them has been stored, and if the file of cities
is written, exactly one has been listed. -/
structure ToldApart (inp : LoadEnv) (ht : HashTable CityGeo) : Prop where
  agree : ∀ x ∈ loadInsertions inp ht, ∀ y ∈ loadInsertions inp ht, cstr x.name = cstr y.name →
    x.geo = y.geo
  stored : ∀ x ∈ loadInsertions inp ht, ∃ y ∈ loadInsertions inp ht, cstr y.name = cstr x.name ∧
    y.stored = true
  listed : inp.writesCities = true → (listedNames (loadInsertions inp ht)).Nodup ∧
    ∀ x ∈ loadInsertions inp ht, cstr x.name ∈ listedNames (loadInsertions inp ht)

omit [Platform] [GeoPlatform] in
theorem geoKey_eq_iff {a b : Bytes} : geoKey a = geoKey b ↔ cstr a = cstr b := by
  unfold geoKey
  rw [List.append_left_inj]

omit [Platform] [GeoPlatform] in
theorem geoKey_cstr (a : Bytes) : geoKey (cstr a) = geoKey a := by
  rw [geoKey_eq_iff, cstr_cstr]

section loaded
variable {inp : LoadEnv} {ht : HashTable CityGeo} {r : Loaded} {e : Env} {w : World}

theorem mem_countedFeatures {f : Bytes × CityGeo} :
    f ∈ countedFeatures inp ↔ ∃ x ∈ loadInsertions inp ht, (x.name, x.geo) = f := by
  conv_lhs => rw [← insertions_names inp 0 ht (countedFeatures inp)]
  exact List.mem_map

omit [GeoPlatform] in
theorem mem_storedPairs {ins : List Insertion} {k : Bytes} {geo : CityGeo} :
    (k, geo) ∈ storedPairs ins ↔
      ∃ x ∈ ins, x.stored = true ∧ geoKey x.name = k ∧ x.geo = geo := by
  simp only [storedPairs, List.mem_map, List.mem_filter, Prod.mk.injEq, and_assoc]

omit [GeoPlatform] in
theorem mem_listedNames {ins : List Insertion} {n : Bytes} :
    n ∈ listedNames ins ↔ ∃ x ∈ ins, x.listed = true ∧ cstr x.name = n := by
  simp only [listedNames, List.mem_map, List.mem_filter, and_assoc]

/-- The keys of the table after a loading into an empty one. -/
theorem isSome_loaded (htable : htGet r.table = writes (fun _ => none)
    (storedPairs (loadInsertions inp ht))) {k : Bytes} : (htGet r.table k).isSome ↔
      ∃ x ∈ loadInsertions inp ht, x.stored = true ∧ geoKey x.name = k := by
  rw [htable, isSome_writes, storedPairs, List.map_map]
  simp only [List.mem_map, List.mem_filter, Function.comp_apply, and_assoc]

theorem NoneLost.toldApart (h : NoneLost e w (countedFeatures inp) r)
    (htable : htGet r.table = writes (fun _ => none) (storedPairs (loadInsertions inp ht)))
    (hcities : r.cities = if inp.writesCities then some (listedNames (loadInsertions inp ht))
      else none) : ToldApart inp ht := by
  have hfound : ∀ x ∈ loadInsertions inp ht, htGet r.table (geoKey x.name) = some x.geo :=
    fun x hx => h.found _ (mem_countedFeatures.mpr ⟨x, hx, rfl⟩)
  refine ⟨fun x hx y hy hxy => ?_, fun x hx => ?_, fun hwrites => ?_⟩
  · have hx' := hfound x hx
    rw [geoKey_eq_iff.mpr hxy, hfound y hy] at hx'
    exact (Option.some.inj hx').symm
  · have hx' := hfound x hx
    rw [htable] at hx'
    obtain ⟨y, hy, hstored, hkey, -⟩ := mem_storedPairs.mp (of_writes_eq_some hx')
    exact ⟨y, hy, geoKey_eq_iff.mp hkey, hstored⟩
  · rw [if_pos hwrites] at hcities
    obtain ⟨hnodup, hkeys⟩ := h.names _ hcities
    refine ⟨hnodup.of_map, fun x hx => ?_⟩
    have hmem := (hkeys (geoKey x.name)).mpr (by rw [hfound x hx]; rfl)
    obtain ⟨n, hn, hkey⟩ := List.mem_map.mp hmem
    obtain ⟨y, hy, hlisted, rfl⟩ := mem_listedNames.mp hn
    rw [geoKey_cstr, geoKey_eq_iff] at hkey
    exact mem_listedNames.mpr ⟨y, hy, hlisted, hkey⟩

theorem ToldApart.noneLost (h : ToldApart inp ht)
    (htable : htGet r.table = writes (fun _ => none) (storedPairs (loadInsertions inp ht)))
    (hcities : r.cities = if inp.writesCities then some (listedNames (loadInsertions inp ht))
      else none) : NoneLost e w (countedFeatures inp) r := by
  constructor
  · intro f hf
    obtain ⟨x, hx, rfl⟩ : ∃ x ∈ loadInsertions inp ht, (x.name, x.geo) = f :=
      mem_countedFeatures.mp hf
    show htGet r.table (geoKey x.name) = some x.geo
    obtain ⟨y, hy, hyx, hstored⟩ := h.stored x hx
    obtain ⟨geo, hgeo⟩ := Option.isSome_iff_exists.mp
      ((isSome_loaded htable).mpr ⟨y, hy, hstored, geoKey_eq_iff.mpr hyx⟩)
    rw [hgeo]
    rw [htable] at hgeo
    obtain ⟨z, hz, -, hkey, rfl⟩ := mem_storedPairs.mp (of_writes_eq_some hgeo)
    rw [h.agree z hz x hx (geoKey_eq_iff.mp hkey)]
  · intro names hnames
    rw [hcities] at hnames
    split_ifs at hnames with hwrites
    · obtain rfl := Option.some.inj hnames
      obtain ⟨hnodup, hlisted⟩ := h.listed hwrites
      refine ⟨hnodup.map_on fun a ha b hb hab => ?_, fun k => ?_⟩
      · obtain ⟨x, -, -, rfl⟩ := mem_listedNames.mp ha
        obtain ⟨y, -, -, rfl⟩ := mem_listedNames.mp hb
        rwa [geoKey_cstr, geoKey_cstr, geoKey_eq_iff] at hab
      · rw [isSome_loaded htable, List.mem_map]
        constructor
        · rintro ⟨n, hn, rfl⟩
          obtain ⟨x, hx, -, rfl⟩ := mem_listedNames.mp hn
          obtain ⟨y, hy, hyx, hstored⟩ := h.stored x hx
          exact ⟨y, hy, hstored, by rw [geoKey_cstr, geoKey_eq_iff, hyx]⟩
        · rintro ⟨x, hx, -, rfl⟩
          exact ⟨_, hlisted x hx, geoKey_cstr _⟩
    · cases hnames

omit [GeoPlatform] in
theorem insertions_ok (hallocs : ∀ n, inp.allocs n = allDelivered)
    (hstrings : ∀ n, inp.stringOk n = true) (n : ℕ) (t : HashTable CityGeo)
    (fs : List (Bytes × CityGeo)) :
    ∀ x ∈ insertions inp n t fs, x.stored = true ∧ x.listed = true := by
  induction fs generalizing n t with
  | nil => simp [insertions]
  | cons f fs ih =>
      rw [insertions]
      intro x hx
      rcases List.mem_cons.mp hx with rfl | hx
      · rw [hallocs]
        exact ⟨htSet_allDelivered _ _ _, hstrings n⟩
      · exact ih _ _ x hx

/-- When memory suffices and the file of cities is written, the names must be distinct. -/
theorem toldApart_iff (hallocs : ∀ n, inp.allocs n = allDelivered)
    (hstrings : ∀ n, inp.stringOk n = true) (hwrites : inp.writesCities = true) :
    ToldApart inp ht ↔ ((countedFeatures inp).map fun f => cstr f.1).Nodup := by
  have hok : ∀ x ∈ loadInsertions inp ht, x.stored = true ∧ x.listed = true :=
    insertions_ok hallocs hstrings 0 ht (countedFeatures inp)
  have hlisted : listedNames (loadInsertions inp ht) =
      (loadInsertions inp ht).map fun x => cstr x.name := by
    unfold listedNames
    rw [List.filter_eq_self.mpr fun x hx => (hok x hx).2]
  have hcounted : ((countedFeatures inp).map fun f => cstr f.1) =
      (loadInsertions inp ht).map fun x => cstr x.name := by
    conv_lhs => rw [← insertions_names inp 0 ht (countedFeatures inp), List.map_map]
    rfl
  rw [hcounted]
  constructor
  · intro h
    rw [← hlisted]
    exact (h.listed hwrites).1
  · intro h
    refine ⟨fun x hx y hy hxy => ?_, fun x hx => ⟨x, hx, rfl, (hok x hx).1⟩, fun _ => ?_⟩
    · rw [List.inj_on_of_nodup_map h hx hy hxy]
    · rw [hlisted]
      exact ⟨h, fun x hx => List.mem_map_of_mem hx⟩

/-- **No municipality is lost.**  After `load_geojson` has counted `n` features, they are all
there with the names one to one if and only if they are told apart; when nothing fails, if and only
if their names are distinct. -/
theorem none_lost_iff {capacity : ℕ} {hash : Bytes → UInt64 → UInt64} {seed : UInt64}
    {tableOk poolOk : Bool} (hc : htCreate capacity hash seed tableOk poolOk = some ht)
    (hr : loadGeojson inp ht = some r) (hn : 0 ≤ r.returned) (e : Env) (w : World) :
    r.returned = (countedFeatures inp).length ∧
    (NoneLost e w (countedFeatures inp) r ↔ ToldApart inp ht) ∧
    ((∀ n, inp.allocs n = allDelivered) → (∀ n, inp.stringOk n = true) →
      inp.writesCities = true →
      (ToldApart inp ht ↔ ((countedFeatures inp).map fun f => cstr f.1).Nodup)) := by
  obtain ⟨hw, hnil⟩ := HashTable.htCreate_wf hc
  obtain ⟨hlen, htable, hcities⟩ := loadGeojson_run hw hr hn
  rw [HashTable.htGet_of_entries_nil hw hnil] at htable
  refine ⟨?_, ⟨fun h => h.toldApart htable hcities, fun h => h.noneLost htable hcities⟩,
    toldApart_iff⟩
  have hnames := congrArg List.length (insertions_names inp 0 ht (countedFeatures inp))
  rw [List.length_map] at hnames
  rw [hlen, ← hnames]
  rfl

end loaded

end platform

/-! ### Two municipalities of one name -/

inductive SampleJson where
  | number (z : ℤ)
  | string (s : Bytes)
  | array (items : List SampleJson)
  | object (fields : List (Bytes × SampleJson))

namespace SampleJson

def item : Option SampleJson → Bytes → Option SampleJson
  | some (object fields), name => (fields.find? fun f => f.1 = name).map Prod.snd
  | _, _ => none

def elements : Option SampleJson → List SampleJson
  | some (array items) => items
  | some (object fields) => fields.map Prod.snd
  | _ => []

def text : Option SampleJson → Option Bytes
  | some (string s) => some s
  | _ => none

def value : SampleJson → ℤ
  | number z => z
  | _ => 0

/-- A feature with a name and two vertices, in millionths of a degree. -/
def feature (name : String) (lon lat lon' lat' : ℤ) : SampleJson :=
  object [(bytes "properties", object [(bytes "comune", string (bytes name))]),
    (bytes "geometry", object [(bytes "type", string (bytes "Polygon")),
      (bytes "coordinates", array [array [
        array [number (lon * 10 ^ 6), number (lat * 10 ^ 6)],
        array [number (lon' * 10 ^ 6), number (lat' * 10 ^ 6)]]])])]

end SampleJson

/-- The text of `SampleJson.feature`. -/
def featureText (name : String) (lon lat lon' lat' : ℤ) : Bytes :=
  bytes "\x7b\"properties\":\x7b\"comune\":\"" ++ bytes name ++
    bytes "\"\x7d,\"geometry\":\x7b\"type\":\"Polygon\",\"coordinates\":[[[" ++
    (bytes ",").intercalate [showInt lon, showInt lat] ++ bytes "],[" ++
    (bytes ",").intercalate [showInt lon', showInt lat'] ++ bytes "]]]\x7d\x7d"

/-- A file with two features. -/
def mapText (first second : String) : Bytes :=
  bytes "\x7b\"features\":[" ++ featureText first 7 45 9 47 ++ bytes "," ++
    featureText second 11 46 13 48 ++ bytes "]\x7d"

def mapTree (first second : String) : SampleJson :=
  .object [(bytes "features", .array [.feature first 7 45 9 47, .feature second 11 46 13 48])]

/-- `cJSON` on the two files below. -/
@[reducible] def sampleGeoPlatform : @GeoPlatform samplePlatform :=
  letI := samplePlatform
  { dblMax := (2 ^ 1024 * 10 ^ 6 : ℤ)
    negDblMax := (-(2 ^ 1024 * 10 ^ 6) : ℤ)
    lt := fun (x y : ℤ) => decide (x < y)
    add := fun (x y : ℤ) => x + y
    divInt := fun (x n : ℤ) => x / n
    Item := SampleJson
    parseWithLength := fun data =>
      if data = mapText "Livo" "Lodi" then some (mapTree "Livo" "Lodi")
      else if data = mapText "Livo" "Livo" then some (mapTree "Livo" "Livo")
      else none
    getObjectItem := SampleJson.item
    getArrayItem := fun j i => (SampleJson.elements j)[i]?
    elements := SampleJson.elements
    getStringValue := SampleJson.text
    valueDouble := SampleJson.value }

def mapLoad (first second : String) : LoadEnv :=
  ⟨some (mapText first second), true, true, fun _ => allDelivered, fun _ => true, true, true⟩

def emptyCities : HashTable (@CityGeo samplePlatform) :=
  ⟨List.replicate 8192 [], 0, 8192, 7, hashKey⟩

theorem htCreate_emptyCities : htCreate 8192 hashKey 7 true true = some emptyCities := rfl

def lodiLoaded : Option (@Loaded samplePlatform) :=
  @loadGeojson samplePlatform sampleGeoPlatform (mapLoad "Livo" "Lodi") emptyCities

def livoLoaded : Option (@Loaded samplePlatform) :=
  @loadGeojson samplePlatform sampleGeoPlatform (mapLoad "Livo" "Livo") emptyCities

theorem none_lost_iff_lodi :
    letI := samplePlatform
    letI := sampleGeoPlatform
    ∃ r, lodiLoaded = some r ∧ r.returned = 2 ∧ ∀ e w,
      (NoneLost e w (countedFeatures (mapLoad "Livo" "Lodi")) r ↔
        ToldApart (mapLoad "Livo" "Lodi") emptyCities) := by
  let := samplePlatform
  let := sampleGeoPlatform
  have hr : lodiLoaded.map (fun r => r.returned) = some 2 := by decide +kernel
  obtain ⟨r, hload, hret⟩ := Option.map_eq_some_iff.mp hr
  refine ⟨r, hload, hret, fun e w => ?_⟩
  exact (none_lost_iff htCreate_emptyCities hload (by rw [hret]; decide) e w).2.1

/-- Two features of one name are counted, the table has the second one only, and the file of
cities has the name twice. -/
theorem livo_lost :
    letI := samplePlatform
    letI := sampleGeoPlatform
    ∃ r, livoLoaded = some r ∧ r.returned = 2 ∧ r.cities = some [bytes "Livo", bytes "Livo"] ∧
      (countedFeatures (mapLoad "Livo" "Livo")).map (fun f => (f.2.latMin : ℤ)) =
        [45000000, 46000000] ∧
      (htGet r.table (geoKey (bytes "Livo"))).map (fun g => (g.latMin : ℤ)) = some 46000000 ∧
      ∀ e w, ¬ NoneLost e w (countedFeatures (mapLoad "Livo" "Livo")) r := by
  let := samplePlatform
  let := sampleGeoPlatform
  have hr : livoLoaded.map (fun r => (r.returned, r.cities,
      (htGet r.table (geoKey (bytes "Livo"))).map fun g => (g.latMin : ℤ))) =
      some (2, some [bytes "Livo", bytes "Livo"], some 46000000) := by decide +kernel
  obtain ⟨r, hload, hfacts⟩ := Option.map_eq_some_iff.mp hr
  obtain ⟨hret, hfacts⟩ := Prod.mk.inj hfacts
  obtain ⟨hcities, hlat⟩ := Prod.mk.inj hfacts
  refine ⟨r, hload, hret, hcities, by decide +kernel, hlat, fun e w h => ?_⟩
  exact absurd (h.names _ hcities).1 (by decide)

end Segnalacity
