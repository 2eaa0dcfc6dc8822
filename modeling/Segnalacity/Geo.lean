import Segnalacity.World

/-! # Municipalities

`geo.c` after startup: lookups in the table of municipalities and the texts for the map. -/

namespace Segnalacity

open CStr StateProg

variable [Platform]

def geoKey (city : Bytes) : Bytes := cstr city ++ [0]

def geoLookup (city : Bytes) : App (Option CityGeo) :=
  Prog.ask fun e => htGet e.cityTable (geoKey city)

def geoContains (geo : CityGeo) (lat lon : Double) : Bool :=
  Platform.le geo.latMin lat && Platform.le lat geo.latMax &&
    Platform.le geo.lonMin lon && Platform.le lon geo.lonMax

def coordinateStrLen : ℕ := 32

structure MapVars where
  lat : Bytes
  lon : Bytes
  bounds : Bytes
deriving DecidableEq, Repr

/-- The bounds as `[[sw],[ne]]`; Rome when the city is not in the table. -/
def buildMapVars (cityName : Bytes) : App MapVars := do
  let geo ← geoLookup cityName
  match geo with
  | some geo => pure {
      lat := snprintf coordinateStrLen (Platform.fixed6 geo.centroidLat)
      lon := snprintf coordinateStrLen (Platform.fixed6 geo.centroidLon)
      bounds := snprintf (coordinateStrLen * 4) (bytes "[[" ++ Platform.fixed6 geo.latMin ++
        bytes "," ++ Platform.fixed6 geo.lonMin ++ bytes "],[" ++ Platform.fixed6 geo.latMax ++
        bytes "," ++ Platform.fixed6 geo.lonMax ++ bytes "]]") }
  | none => pure ⟨bytes "41.9", bytes "12.5", bytes "null"⟩

theorem geoLookup_run {e : Env} {w w' : World} {city : Bytes} {g : Option CityGeo}
    (h : geoLookup city e w = (g, w')) : g = htGet e.cityTable (geoKey city) ∧ w' = w :=
  Prog.ask_run_iff.mp h

theorem buildMapVars_run {e : Env} {w w' : World} {city : Bytes} {mv : MapVars}
    (h : buildMapVars city e w = (mv, w')) : w' = w := by
  obtain ⟨g, w₁, h₁, h₂⟩ := Prog.bind_run_iff.mp h
  obtain ⟨rfl, rfl⟩ := geoLookup_run h₁
  cases hg : htGet e.cityTable (geoKey city) with
  | none =>
      rw [hg] at h₂
      exact (Prog.pure_run_iff.mp h₂).2
  | some geo =>
      rw [hg] at h₂
      exact (Prog.pure_run_iff.mp h₂).2

end Segnalacity
