import Segnalacity.GeoLoad
import Segnalacity.Lib.Extremes
import Mathlib.Data.Rat.Floor

/-! # Geometries

`parse_geometry` scans one ring, the first of a polygon or of the first polygon of a
`MultiPolygon`.  Over exact coordinates its box is the smallest one around that ring, with the
centroid inside; it covers the municipality when no other polygon reaches beyond it:
`box_covers_iff`.  A vertex without two coordinates is read through a NULL pointer:
`malformed_rejected_iff`. -/

namespace Segnalacity

open CStr StateProg Extremes

section platform

variable [Platform] [GeoPlatform]

/-! ### The ring that is scanned -/

/-- Longitude and latitude of a vertex, when it has both. -/
def lonLat (pair : Item) : Option (Double × Double) := do
  let lonItem ← GeoPlatform.getArrayItem (some pair) 0
  let latItem ← GeoPlatform.getArrayItem (some pair) 1
  pure (GeoPlatform.valueDouble lonItem, GeoPlatform.valueDouble latItem)

def geometryType (geometry : Item) : Option Bytes :=
  GeoPlatform.getStringValue (GeoPlatform.getObjectItem (some geometry) (bytes "type"))

def coordinates (geometry : Item) : Option Item :=
  GeoPlatform.getObjectItem (some geometry) (bytes "coordinates")

/-- The ring that `parse_geometry` drills down to, if it gets there. -/
def scannedRing (geometry : Item) : Option Item :=
  match geometryType geometry, coordinates geometry with
  | some type, some coords =>
      let first := GeoPlatform.getArrayItem (some coords) 0
      if cstr type = bytes "MultiPolygon" then GeoPlatform.getArrayItem first 0 else first
  | _, _ => none

/-- The extent with one more vertex. -/
def Extent.grow (x : Extent) (v : Double × Double) : Extent where
  latMin := if GeoPlatform.lt v.2 x.latMin then v.2 else x.latMin
  latMax := if GeoPlatform.lt x.latMax v.2 then v.2 else x.latMax
  lonMin := if GeoPlatform.lt v.1 x.lonMin then v.1 else x.lonMin
  lonMax := if GeoPlatform.lt x.lonMax v.1 then v.1 else x.lonMax
  latSum := GeoPlatform.add x.latSum v.2
  lonSum := GeoPlatform.add x.lonSum v.1
  count := x.count + 1

/-- The box and the centroid of an extent. -/
def Extent.geo (x : Extent) : CityGeo where
  latMin := x.latMin
  latMax := x.latMax
  lonMin := x.lonMin
  lonMax := x.lonMax
  centroidLat := GeoPlatform.divInt x.latSum x.count
  centroidLon := GeoPlatform.divInt x.lonSum x.count

theorem addVertex_eq (x : Extent) (pair : Item) : addVertex x pair = (lonLat pair).map x.grow := by
  unfold addVertex lonLat
  cases GeoPlatform.getArrayItem (some pair) 0 with
  | none => rfl
  | some lonItem =>
      cases GeoPlatform.getArrayItem (some pair) 1 with
      | none => rfl
      | some latItem => rfl

/-- The loop reads every vertex or fails at one. -/
theorem foldlM_addVertex (pairs : List Item) (x : Extent) :
    pairs.foldlM addVertex x = (pairs.mapM lonLat).map fun vs => vs.foldl Extent.grow x := by
  induction pairs generalizing x with
  | nil => rfl
  | cons pair pairs ih =>
      rw [List.foldlM_cons, List.mapM_cons, addVertex_eq]
      cases lonLat pair with
      | none => rfl
      | some v =>
          show pairs.foldlM addVertex (x.grow v) = _
          rw [ih]
          cases pairs.mapM lonLat with
          | none => rfl
          | some vs => rfl

theorem grow_count (vs : List (Double × Double)) (x : Extent) :
    (vs.foldl Extent.grow x).count = x.count + vs.length := by
  induction vs generalizing x with
  | nil => exact (add_zero x.count).symm
  | cons v vs ih =>
      rw [List.foldl_cons, ih, List.length_cons]
      show x.count + 1 + vs.length = _
      omega

theorem parseGeometry_eq (geometry : Item) : parseGeometry geometry =
    match scannedRing geometry with
    | none => some none
    | some ring => ((GeoPlatform.elements (some ring)).mapM lonLat).map fun vs =>
        if vs = [] then none else some (vs.foldl Extent.grow noVertices).geo := by
  have hring : ∀ outerRing : Option Item, (match outerRing with
      | none => some none
      | some ring => do
          let x ← (GeoPlatform.elements (some ring)).foldlM addVertex noVertices
          if x.count = 0 then pure none else pure (some x.geo)) =
      match outerRing with
      | none => some none
      | some ring => ((GeoPlatform.elements (some ring)).mapM lonLat).map fun vs =>
          if vs = [] then none else some (vs.foldl Extent.grow noVertices).geo := by
    intro outerRing
    cases outerRing with
    | none => rfl
    | some ring =>
        show (GeoPlatform.elements (some ring)).foldlM addVertex noVertices >>= _ = _
        rw [foldlM_addVertex]
        dsimp only
        generalize (GeoPlatform.elements (some ring)).mapM lonLat = vertices
        cases vertices with
        | none => rfl
        | some vs =>
            have hcount : (vs.foldl Extent.grow noVertices).count = 0 ↔ vs = [] := by
              rw [grow_count, ← List.length_eq_zero_iff, ← Int.natCast_eq_zero]
              exact Iff.of_eq (congrArg (· = 0) (zero_add _))
            show (if (vs.foldl Extent.grow noVertices).count = 0 then pure none
              else pure (some (vs.foldl Extent.grow noVertices).geo)) = _
            rw [Option.map_some]
            by_cases hnil : vs = []
            · rw [if_pos (hcount.mpr hnil), if_pos hnil]
              rfl
            · rw [if_neg fun h => hnil (hcount.mp h), if_neg hnil]
              rfl
  unfold parseGeometry scannedRing geometryType coordinates
  cases GeoPlatform.getStringValue (GeoPlatform.getObjectItem (some geometry) (bytes "type")) with
  | none => rfl
  | some type =>
      cases GeoPlatform.getObjectItem (some geometry) (bytes "coordinates") with
      | none => rfl
      | some coords => exact hring _

/-! ### Malformed geometries -/

/-- Every vertex of the scanned ring has a longitude and a latitude. -/
def WholeVertices (geometry : Item) : Prop :=
  ∀ ring ∈ scannedRing geometry, ∀ pair ∈ GeoPlatform.elements (some ring), lonLat pair ≠ none

/-- What is to happen with any geometry; `none` is a crash and `some none` the result false. -/
structure Vetted (geometry : Item) : Prop where
  defined : parseGeometry geometry ≠ none
  missing : ¬ WholeVertices geometry → parseGeometry geometry = some none
  whole : WholeVertices geometry → ((∃ geo, parseGeometry geometry = some (some geo)) ↔
    ∃ ring ∈ scannedRing geometry, GeoPlatform.elements (some ring) ≠ [])

theorem mapM_lonLat_eq_none {pairs : List Item} :
    pairs.mapM lonLat = none ↔ ∃ pair ∈ pairs, lonLat pair = none := by
  induction pairs with
  | nil => simp
  | cons pair pairs ih =>
      rw [List.mapM_cons, List.exists_mem_cons_iff, ← ih]
      cases hpair : lonLat pair with
      | none => simp
      | some v =>
          cases pairs.mapM lonLat with
          | none => simp
          | some vs => simp

theorem mapM_lonLat_eq_some {pairs : List Item} {vs : List (Double × Double)}
    (h : pairs.mapM lonLat = some vs) : vs = pairs.filterMap lonLat := by
  induction pairs generalizing vs with
  | nil => exact (Option.some.inj h).symm
  | cons pair pairs ih =>
      rw [List.mapM_cons] at h
      obtain ⟨v, hv, hrest⟩ := Option.bind_eq_some_iff.mp h
      obtain ⟨rest, hvs, hcons⟩ := Option.bind_eq_some_iff.mp hrest
      rw [List.filterMap_cons, hv, ← ih hvs]
      exact (Option.some.inj hcons).symm

/-- **Malformed geometries.**  The geometry is dealt with as it should be exactly when no vertex of
the scanned ring lacks a coordinate. -/
theorem malformed_rejected_iff (geometry : Item) : Vetted geometry ↔ WholeVertices geometry := by
  constructor
  · intro h ring hring pair hpair hnone
    refine h.defined ?_
    rw [parseGeometry_eq, show scannedRing geometry = some ring from hring]
    exact Option.map_eq_none_iff.mpr (mapM_lonLat_eq_none.mpr ⟨pair, hpair, hnone⟩)
  · intro hwhole
    cases hring : scannedRing geometry with
    | none =>
        have hparse : parseGeometry geometry = some none := by rw [parseGeometry_eq, hring]
        refine ⟨by rw [hparse]; exact Option.some_ne_none _, fun h => absurd hwhole h, fun _ => ?_⟩
        rw [hparse]
        simp [hring]
    | some ring =>
        have hall := hwhole ring hring
        cases hvs : (GeoPlatform.elements (some ring)).mapM lonLat with
        | none =>
            obtain ⟨pair, hpair, hnone⟩ := mapM_lonLat_eq_none.mp hvs
            exact absurd hnone (hall pair hpair)
        | some vs =>
            have hparse : parseGeometry geometry = some (if vs = [] then none
                else some (vs.foldl Extent.grow noVertices).geo) := by
              rw [parseGeometry_eq, hring]
              dsimp only
              rw [hvs]
              rfl
            have hempty : vs = [] ↔ GeoPlatform.elements (some ring) = [] := by
              rw [mapM_lonLat_eq_some hvs, List.filterMap_eq_nil_iff]
              constructor
              · intro hnone
                refine List.eq_nil_iff_forall_not_mem.mpr fun pair hpair => ?_
                exact hall pair hpair (hnone pair hpair)
              · intro hnil
                simp [hnil]
            refine ⟨by rw [hparse]; exact Option.some_ne_none _, fun h => absurd hwhole h,
              fun _ => ?_⟩
            rw [hparse]
            constructor
            · rintro ⟨geo, hgeo⟩
              refine ⟨ring, hring, fun hnil => ?_⟩
              rw [if_pos (hempty.mpr hnil)] at hgeo
              cases hgeo
            · rintro ⟨ring', hring', hne⟩
              obtain rfl := Option.some.inj (hring.symm.trans hring')
              exact ⟨_, by rw [if_neg fun hnil => hne (hempty.mp hnil)]⟩

/-! ### Exact coordinates -/

/-- The arithmetic on coordinates is that of the rationals. -/
structure Exact (val : Double → ℚ) (bound : ℚ) : Prop where
  le : ∀ x y, Platform.le x y = decide (val x ≤ val y)
  lt : ∀ x y, GeoPlatform.lt x y = decide (val x < val y)
  zero : val Platform.zero = 0
  add : ∀ x y, val (GeoPlatform.add x y) = val x + val y
  divInt : ∀ x n, 0 < n → val (GeoPlatform.divInt x n) = val x / n
  dblMax : val GeoPlatform.dblMax = bound
  negDblMax : val GeoPlatform.negDblMax = -bound

section exact
variable {val : Double → ℚ} {bound : ℚ}

theorem Exact.lower (h : Exact val bound) (x y : Double) :
    val (if GeoPlatform.lt y x then y else x) = min (val x) (val y) := by
  rw [h.lt]
  by_cases hlt : val y < val x
  · rw [if_pos (decide_eq_true hlt), min_eq_right hlt.le]
  · rw [if_neg (by simpa using hlt), min_eq_left (not_lt.mp hlt)]

theorem Exact.upper (h : Exact val bound) (x y : Double) :
    val (if GeoPlatform.lt x y then y else x) = max (val x) (val y) := by
  rw [h.lt]
  by_cases hlt : val x < val y
  · rw [if_pos (decide_eq_true hlt), max_eq_right hlt.le]
  · rw [if_neg (by simpa using hlt), max_eq_left (not_lt.mp hlt)]

/-- One component of the extent after a ring. -/
theorem foldl_grow {K : Type} {f : Extent → K} {g : Double × Double → K} {op : K → K → K}
    (hstep : ∀ x v, f (x.grow v) = op (f x) (g v)) (vs : List (Double × Double)) (x : Extent) :
    f (vs.foldl Extent.grow x) = (vs.map g).foldl op (f x) := by
  rw [List.foldl_map]
  exact (List.foldl_hom f fun x v => (hstep x v).symm).symm

/-- The box and the centroid of a ring with at least one vertex. -/
theorem Exact.box (h : Exact val bound) {vs : List (Double × Double)} (hne : vs ≠ [])
    (hlat : ∀ q ∈ vs.map fun v => val v.2, -bound ≤ q ∧ q ≤ bound)
    (hlon : ∀ q ∈ vs.map fun v => val v.1, -bound ≤ q ∧ q ≤ bound) {geo : CityGeo}
    (hgeo : geo = (vs.foldl Extent.grow noVertices).geo) :
    (Spans (vs.map fun v => val v.2) (val geo.latMin) (val geo.latMax) ∧
      val geo.centroidLat = (vs.map fun v => val v.2).sum / (vs.map fun v => val v.2).length) ∧
    Spans (vs.map fun v => val v.1) (val geo.lonMin) (val geo.lonMax) ∧
      val geo.centroidLon = (vs.map fun v => val v.1).sum / (vs.map fun v => val v.1).length := by
  have hcount : (vs.foldl Extent.grow noVertices).count = vs.length :=
    (grow_count vs noVertices).trans (zero_add _)
  have hpos : 0 < (vs.length : ℤ) := Int.natCast_pos.mpr (List.length_pos_of_ne_nil hne)
  have hmap : ∀ g : Double × Double → ℚ, vs.map g ≠ [] :=
    fun g hnil => hne (List.map_eq_nil_iff.mp hnil)
  have hlatMin : val geo.latMin = (vs.map fun v => val v.2).foldl min bound := by
    rw [hgeo, ← h.dblMax]
    exact foldl_grow (f := fun x => val x.latMin) (fun x v => h.lower x.latMin v.2) vs noVertices
  have hlatMax : val geo.latMax = (vs.map fun v => val v.2).foldl max (-bound) := by
    rw [hgeo, ← h.negDblMax]
    exact foldl_grow (f := fun x => val x.latMax) (fun x v => h.upper x.latMax v.2) vs noVertices
  have hlonMin : val geo.lonMin = (vs.map fun v => val v.1).foldl min bound := by
    rw [hgeo, ← h.dblMax]
    exact foldl_grow (f := fun x => val x.lonMin) (fun x v => h.lower x.lonMin v.1) vs noVertices
  have hlonMax : val geo.lonMax = (vs.map fun v => val v.1).foldl max (-bound) := by
    rw [hgeo, ← h.negDblMax]
    exact foldl_grow (f := fun x => val x.lonMax) (fun x v => h.upper x.lonMax v.1) vs noVertices
  have hlatSum : val (vs.foldl Extent.grow noVertices).latSum = (vs.map fun v => val v.2).sum := by
    rw [List.sum_eq_foldl, ← h.zero]
    exact foldl_grow (f := fun x => val x.latSum) (fun x v => h.add x.latSum v.2) vs noVertices
  have hlonSum : val (vs.foldl Extent.grow noVertices).lonSum = (vs.map fun v => val v.1).sum := by
    rw [List.sum_eq_foldl, ← h.zero]
    exact foldl_grow (f := fun x => val x.lonSum) (fun x v => h.add x.lonSum v.1) vs noVertices
  rw [hlatMin, hlatMax, hlonMin, hlonMax, hgeo, List.length_map, List.length_map]
  refine ⟨⟨spans_foldl (hmap _) (fun q hq => (hlat q hq).2) fun q hq => (hlat q hq).1, ?_⟩,
    spans_foldl (hmap _) (fun q hq => (hlon q hq).2) fun q hq => (hlon q hq).1, ?_⟩
  · show val (GeoPlatform.divInt _ _) = _
    rw [hcount, h.divInt _ _ hpos, hlatSum, Int.cast_natCast]
  · show val (GeoPlatform.divInt _ _) = _
    rw [hcount, h.divInt _ _ hpos, hlonSum, Int.cast_natCast]

theorem Exact.geoContains_iff (h : Exact val bound) {geo : CityGeo} {lat lon : Double} :
    geoContains geo lat lon = true ↔ (val geo.latMin ≤ val lat ∧ val lat ≤ val geo.latMax) ∧
      (val geo.lonMin ≤ val lon ∧ val lon ≤ val geo.lonMax) := by
  unfold geoContains
  simp only [h.le, Bool.and_eq_true, decide_eq_true_eq, and_assoc]

/-! ### The territory -/

/-- What `cJSON` does with arrays. -/
structure CJsonArrays : Prop where
  item : ∀ j i, GeoPlatform.getArrayItem j i = (GeoPlatform.elements j)[i]?
  null : GeoPlatform.elements none = []

def ringVertices (ring : Item) : List (Double × Double) :=
  (GeoPlatform.elements (some ring)).filterMap lonLat

def polygons (geometry : Item) : List Item :=
  match geometryType geometry, coordinates geometry with
  | some type, some coords =>
      if cstr type = bytes "MultiPolygon" then GeoPlatform.elements (some coords) else [coords]
  | _, _ => []

def outerRings (geometry : Item) : List Item :=
  (polygons geometry).filterMap fun polygon => GeoPlatform.getArrayItem (some polygon) 0

/-- The vertices of the outer rings of all the polygons. -/
def territory (geometry : Item) : List (Double × Double) :=
  (outerRings geometry).flatMap ringVertices

theorem CJsonArrays.scanned_mem (hjson : CJsonArrays) {geometry ring : Item}
    (h : scannedRing geometry = some ring) : ring ∈ outerRings geometry := by
  unfold scannedRing at h
  unfold outerRings polygons
  cases htype : geometryType geometry with
  | none =>
      rw [htype] at h
      cases h
  | some type =>
      cases hcoords : coordinates geometry with
      | none =>
          rw [htype, hcoords] at h
          cases h
      | some coords =>
          rw [htype, hcoords] at h
          dsimp only at h ⊢
          split_ifs at h ⊢ with hmulti
          · cases hfirst : GeoPlatform.getArrayItem (some coords) 0 with
            | none =>
                rw [hfirst, hjson.item, hjson.null] at h
                cases h
            | some polygon =>
                rw [hfirst] at h
                rw [hjson.item] at hfirst
                exact List.mem_filterMap.mpr ⟨polygon, List.mem_of_getElem? hfirst, h⟩
          · exact List.mem_filterMap.mpr ⟨coords, List.mem_singleton_self coords, h⟩

/-- The box contains the territory, every box that does contains this one, and the centroid lies
inside. -/
structure BoxCovers (val : Double → ℚ) (geometry : Item) (geo : CityGeo) : Prop where
  contains : ∀ v ∈ territory geometry, geoContains geo v.2 v.1 = true
  smallest : ∀ box : CityGeo, (∀ v ∈ territory geometry, geoContains box v.2 v.1 = true) →
    (val box.latMin ≤ val geo.latMin ∧ val geo.latMax ≤ val box.latMax) ∧
      (val box.lonMin ≤ val geo.lonMin ∧ val geo.lonMax ≤ val box.lonMax)
  centroid : geoContains geo geo.centroidLat geo.centroidLon = true

/-- No vertex of the territory lies further north, south, east or west than the scanned ring. -/
def Surrounded (val : Double → ℚ) (geometry : Item) : Prop :=
  ∀ ring ∈ scannedRing geometry, ∀ v ∈ territory geometry,
    ((∃ a ∈ ringVertices ring, val a.2 ≤ val v.2) ∧ ∃ b ∈ ringVertices ring, val v.2 ≤ val b.2) ∧
      (∃ a ∈ ringVertices ring, val a.1 ≤ val v.1) ∧ ∃ b ∈ ringVertices ring, val v.1 ≤ val b.1

/-- **The bounding box.**  It is the box of the territory if and only if the other polygons do not
reach beyond the one that is scanned; with one polygon there is nothing to exceed. -/
theorem box_covers_iff (h : Exact val bound) (hjson : CJsonArrays) {geometry : Item}
    (hcoords : ∀ v ∈ territory geometry,
      (-bound ≤ val v.2 ∧ val v.2 ≤ bound) ∧ -bound ≤ val v.1 ∧ val v.1 ≤ bound)
    {geo : CityGeo} (hparse : parseGeometry geometry = some (some geo)) :
    (BoxCovers val geometry geo ↔ Surrounded val geometry) ∧
      ((outerRings geometry).length ≤ 1 → Surrounded val geometry) := by
  rw [parseGeometry_eq] at hparse
  cases hring : scannedRing geometry with
  | none =>
      rw [hring] at hparse
      cases hparse
  | some ring =>
      rw [hring] at hparse
      obtain ⟨vs, hvs, hgeo⟩ := Option.map_eq_some_iff.mp hparse
      obtain rfl : vs = ringVertices ring := mapM_lonLat_eq_some hvs
      split_ifs at hgeo with hne
      have hscanned : ∀ v ∈ ringVertices ring, v ∈ territory geometry := fun v hv =>
        List.mem_flatMap.mpr ⟨ring, hjson.scanned_mem hring, hv⟩
      obtain ⟨⟨hlat, hcentroidLat⟩, hlon, hcentroidLon⟩ := h.box hne
        (List.forall_mem_map.mpr fun v hv => (hcoords v (hscanned v hv)).1)
        (List.forall_mem_map.mpr fun v hv => (hcoords v (hscanned v hv)).2)
        (Option.some.inj hgeo).symm
      have hsurrounded : Surrounded val geometry ↔
          ∀ v ∈ territory geometry, geoContains geo v.2 v.1 = true := by
        unfold Surrounded
        simp only [hring, Option.mem_def, Option.some.injEq, forall_eq', h.geoContains_iff,
          hlat.between_iff, hlon.between_iff, List.mem_map, exists_exists_and_eq_and]
      constructor
      · rw [hsurrounded]
        refine ⟨fun hbox => hbox.contains, fun hall => ⟨hall, fun box hbox => ?_, ?_⟩⟩
        · have hbox' : ∀ v ∈ ringVertices ring, _ := fun v hv =>
            h.geoContains_iff.mp (hbox v (hscanned v hv))
          exact ⟨hlat.narrowest (List.forall_mem_map.mpr fun v hv => (hbox' v hv).1),
            hlon.narrowest (List.forall_mem_map.mpr fun v hv => (hbox' v hv).2)⟩
        · rw [h.geoContains_iff, hcentroidLat, hcentroidLon]
          exact ⟨hlat.mean, hlon.mean⟩
      · intro hsingle ring' hring' v hv
        obtain rfl := Option.some.inj (hring.symm.trans hring')
        have hrings : outerRings geometry = [ring] := by
          have hmem := hjson.scanned_mem hring
          cases hlist : outerRings geometry with
          | nil =>
              rw [hlist] at hmem
              cases hmem
          | cons first rest =>
              rw [hlist, List.length_cons] at hsingle
              obtain rfl : rest = [] := List.length_eq_zero_iff.mp (by omega)
              rw [hlist] at hmem
              rw [List.mem_singleton.mp hmem]
        rw [territory, hrings, List.flatMap_cons, List.flatMap_nil, List.append_nil] at hv
        exact ⟨⟨⟨v, hv, le_rfl⟩, v, hv, le_rfl⟩, ⟨v, hv, le_rfl⟩, v, hv, le_rfl⟩

end exact

end platform

/-! ### An island and a point -/

def toMillionths (o : JsonObject ℚ) : JsonObject ℤ :=
  o.map fun f => (f.1, match f.2 with
    | .number z => .number z
    | .real x => .real ⌊x * 10 ^ 6⌋
    | .string s => .string s)

/-- The sample platform with rational coordinates. -/
@[reducible] def exactPlatform : Platform where
  Double := ℚ
  zero := 0
  atof s := (sampleAtof s : ℚ) / 10 ^ 6
  isNaN _ := false
  le x y := decide (x ≤ y)
  fixed6 x := sampleFixed6 ⌊x * 10 ^ 6⌋
  orderDesc := samplePlatform.orderDesc
  orderText := samplePlatform.orderText
  printPreallocated items := samplePlatform.printPreallocated (items.map toMillionths)
  printResidue items := samplePlatform.printResidue (items.map toMillionths)

@[reducible] def exactGeoPlatform : @GeoPlatform exactPlatform :=
  letI := exactPlatform
  { dblMax := (2 ^ 1024 - 2 ^ 971 : ℚ)
    negDblMax := (-(2 ^ 1024 - 2 ^ 971) : ℚ)
    lt := fun (x y : ℚ) => decide (x < y)
    add := fun (x y : ℚ) => x + y
    divInt := fun (x : ℚ) (n : ℤ) => x / (n : ℚ)
    Item := SampleJson
    parseWithLength := sampleGeoPlatform.parseWithLength
    getObjectItem := SampleJson.item
    getArrayItem := fun j i => (SampleJson.elements j)[i]?
    elements := SampleJson.elements
    getStringValue := SampleJson.text
    valueDouble := fun j => (SampleJson.value j : ℚ) / 10 ^ 6 }

theorem exact_exactGeoPlatform :
    letI := exactPlatform
    letI := exactGeoPlatform
    Exact (fun x : ℚ => x) (2 ^ 1024 - 2 ^ 971) :=
  letI := exactPlatform
  letI := exactGeoPlatform
  ⟨fun _ _ => rfl, fun _ _ => rfl, rfl, fun _ _ => rfl, fun _ _ _ => rfl, rfl, rfl⟩

theorem cJsonArrays_exactGeoPlatform :
    letI := exactPlatform
    letI := exactGeoPlatform
    CJsonArrays :=
  letI := exactPlatform
  letI := exactGeoPlatform
  ⟨fun _ _ => rfl, rfl⟩

/-- A vertex, in degrees. -/
def SampleJson.vertex (lon lat : ℤ) : SampleJson :=
  .array [.number (lon * 10 ^ 6), .number (lat * 10 ^ 6)]

/-- A mainland and an island that lies south of it. -/
def mainland : SampleJson := .array [.array [.vertex 10 42, .vertex 11 42, .vertex 11 43, .vertex 10 42]]

def island : SampleJson := .array [.array [.vertex 10 40, .vertex 11 40, .vertex 11 41, .vertex 10 40]]

def multiPolygon (polygons : List SampleJson) : SampleJson :=
  .object [(bytes "type", .string (bytes "MultiPolygon")), (bytes "coordinates", .array polygons)]

theorem box_covers_iff_mainland :
    letI := exactPlatform
    letI := exactGeoPlatform
    ∃ geo, parseGeometry (multiPolygon [mainland]) = some (some geo) ∧
      BoxCovers (fun x : ℚ => x) (multiPolygon [mainland]) geo := by
  let := exactPlatform
  let := exactGeoPlatform
  have hparse : (parseGeometry (multiPolygon [mainland])).join.isSome = true := by decide +kernel
  obtain ⟨geo, hgeo⟩ := Option.isSome_iff_exists.mp hparse
  have hgeo' := Option.join_eq_some_iff.mp hgeo
  have hcoords : (territory (multiPolygon [mainland])).all (fun v =>
      decide ((-(2 ^ 1024 - 2 ^ 971) ≤ (show ℚ from v.2) ∧ (show ℚ from v.2) ≤ 2 ^ 1024 - 2 ^ 971) ∧
        -(2 ^ 1024 - 2 ^ 971) ≤ (show ℚ from v.1) ∧ (show ℚ from v.1) ≤ 2 ^ 1024 - 2 ^ 971)) =
      true := by decide +kernel
  have hlength : (outerRings (multiPolygon [mainland])).length ≤ 1 := by decide +kernel
  have h := box_covers_iff exact_exactGeoPlatform cJsonArrays_exactGeoPlatform
    (fun v hv => of_decide_eq_true (List.all_eq_true.mp hcoords v hv)) hgeo'
  exact ⟨geo, hgeo', h.1.mpr (h.2 hlength)⟩

/-- The island is outside the box of the municipality. -/
theorem island_refused :
    letI := exactPlatform
    letI := exactGeoPlatform
    ∃ geo, parseGeometry (multiPolygon [mainland, island]) = some (some geo) ∧
      ∃ v ∈ territory (multiPolygon [mainland, island]), geoContains geo v.2 v.1 = false := by
  let := exactPlatform
  let := exactGeoPlatform
  have hout : ((parseGeometry (multiPolygon [mainland, island])).join.any fun geo =>
      (territory (multiPolygon [mainland, island])).any fun v => !geoContains geo v.2 v.1) =
      true := by decide +kernel
  cases hparse : (parseGeometry (multiPolygon [mainland, island])).join with
  | none =>
      rw [hparse] at hout
      cases hout
  | some geo =>
      rw [hparse, Option.any_some] at hout
      obtain ⟨v, hv, hnot⟩ := List.any_eq_true.mp hout
      exact ⟨geo, Option.join_eq_some_iff.mp hparse, v, hv, by simpa using hnot⟩

/-- A polygon of one vertex without a latitude. -/
def pointGeometry : SampleJson :=
  .object [(bytes "type", .string (bytes "Polygon")),
    (bytes "coordinates", .array [.array [.array [.number (7 * 10 ^ 6)]]])]

theorem pointGeometry_not_vetted :
    letI := samplePlatform
    letI := sampleGeoPlatform
    ¬ Vetted pointGeometry := by
  let := samplePlatform
  let := sampleGeoPlatform
  have hnone : parseGeometry pointGeometry = none := by decide +kernel
  exact fun h => h.defined hnone

end Segnalacity
