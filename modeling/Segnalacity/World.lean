import Mathlib.Algebra.Order.Group.Int
import Mathlib.Data.List.Sort
import Segnalacity.HashTable.Table
import Segnalacity.Lib.Sql
import Segnalacity.Lib.StateProg

/-! # The application state

What the route handlers read and write: the two tables of the database, the session table and
the report cache.  `Env` fixes what a run cannot influence: the readings of the clock, the
outcome of every database call and allocation, the random bytes, and the two tables loaded at startup.
Each reading is taken at a counter kept in the state, so no two calls share one.

`Platform` is the part of the program's environment whose source is not in the repository:
`double` arithmetic, the order in which SQLite sorts rows, and `cJSON_PrintPreallocated`. -/

namespace Segnalacity

open CStr StateProg

/-! ### Machine integers -/

/-- `(int64_t)u`. -/
def i64 (u : UInt64) : ℤ := u.toInt64.toInt

/-- `(uint64_t)z`. -/
def u64 (z : ℤ) : UInt64 := (Int64.ofInt z).toUInt64

theorem u64_i64 (u : UInt64) : u64 (i64 u) = u := by
  unfold u64 i64
  rw [Int64.ofInt_toInt]
  simp

theorem i64_inj {u v : UInt64} (h : i64 u = i64 v) : u = v := by
  rw [← u64_i64 u, ← u64_i64 v, h]

theorem i64_u64 {z : ℤ} (h0 : -2 ^ 63 ≤ z) (h1 : z < 2 ^ 63) : i64 (u64 z) = z := by
  show (Int64.ofInt z).toInt = z
  have hsize : Int64.size = 2 ^ 64 := rfl
  rw [Int64.toInt_ofInt, hsize]
  exact Int.bmod_eq_of_le (by omega) (by omega)

/-! ### Random hex strings -/

/-- Lower-case hex digits of 32 random nibbles. -/
def hexString (nibbles : Fin 32 → Fin 16) : Bytes :=
  (List.finRange 32).map fun i => (bytes "0123456789abcdef").getD (nibbles i).val 0

theorem hexDigit_ne_zero (n : Fin 16) : (bytes "0123456789abcdef").getD n.val 0 ≠ 0 := by
  revert n
  decide

theorem hexString_length (f : Fin 32 → Fin 16) : (hexString f).length = 32 := by
  simp [hexString]

theorem zero_notMem_hexString (f : Fin 32 → Fin 16) : (0 : UInt8) ∉ hexString f := by
  intro h
  obtain ⟨i, -, hi⟩ := List.mem_map.mp h
  exact hexDigit_ne_zero (f i) hi

/-! ### JSON values -/

/-- A value added to a `cJSON` object; an integer is added through a cast to `double`. -/
inductive JsonValue (D : Type) where
  | number (z : ℤ)
  | real (x : D)
  | string (s : Bytes)
deriving DecidableEq, Repr

/-- A `cJSON` object: its fields in the order of addition. -/
abbrev JsonObject (D : Type) := List (Bytes × JsonValue D)

/-! ### The platform -/

/-- `isNaN`: SQLite binds the value as NULL.  `fixed6` is `%.6f`.  `orderDesc` and `orderText`
are `ORDER BY … DESC` on an integer column and `ORDER BY` on a text column of the selected rows.
`printPreallocated` is the text of a JSON array of objects, when it fits the given size;
`printResidue` is what a print that does not fit leaves in the buffer. -/
class Platform where
  Double : Type
  zero : Double
  atof : Bytes → Double
  isNaN : Double → Bool
  le : Double → Double → Bool
  fixed6 : Double → Bytes
  orderDesc : {α : Type} → (α → Option ℤ) → List α → List α
  orderText : {α : Type} → (α → Bytes) → List α → List α
  printPreallocated : List (JsonObject Double) → ℕ → Option Bytes
  printResidue : List (JsonObject Double) → ℕ → Bytes → Bytes

export Platform (Double)

/-! ### Tables -/

def cityLen : ℕ := 32
def usernameLen : ℕ := 32
def pwdHashLen : ℕ := 32
def pwdPlainLen : ℕ := 128
def saltHexLen : ℕ := 32
def catLen : ℕ := 16
def descLen : ℕ := 128

structure UserRow where
  id : ℤ
  username : Bytes
  passwordHash : Bytes
  role : ℤ
  city : Bytes
  salt : Bytes
deriving DecidableEq, Repr

/-- A row of `reports`; `none` is NULL. -/
structure ReportRow [Platform] where
  id : ℤ
  authorId : ℤ
  assignedTo : Option ℤ
  lat : Double
  lon : Double
  city : Bytes
  category : Bytes
  description : Bytes
  status : ℤ
  createdAt : ℤ
  assignedAt : Option ℤ
  resolvedAt : Option ℤ
  feedback : Option ℤ

/-- The tables in rowid order with their `AUTOINCREMENT` sequences, and what
`sqlite3_last_insert_rowid` and `sqlite3_changes` report. -/
structure Database [Platform] where
  users : List UserRow
  userSeq : ℤ
  reports : List ReportRow
  reportSeq : ℤ
  lastInsertRowid : ℤ
  changes : ℕ

/-! ### In-memory records -/

inductive UserRole where
  | citizen
  | operator
  | admin
  | other (code : ℤ)
deriving DecidableEq, Repr

/-- The cast of a column value to the enumeration. -/
def UserRole.ofInt (z : ℤ) : UserRole :=
  match z % 4294967296 with
  | 0 => .citizen
  | 1 => .operator
  | 2 => .admin
  | code => .other code

def UserRole.toInt : UserRole → ℤ
  | .citizen => 0
  | .operator => 1
  | .admin => 2
  | .other code => code

inductive ReportStatus where
  | active
  | assigned
  | inProgress
  | resolved
  | other (code : ℤ)
deriving DecidableEq, Repr

def ReportStatus.ofInt (z : ℤ) : ReportStatus :=
  match z % 4294967296 with
  | 0 => .active
  | 1 => .assigned
  | 2 => .inProgress
  | 3 => .resolved
  | code => .other code

def ReportStatus.toInt : ReportStatus → ℤ
  | .active => 0
  | .assigned => 1
  | .inProgress => 2
  | .resolved => 3
  | .other code => code

structure User where
  userId : UInt64
  username : Bytes
  passwordHash : Bytes
  salt : Bytes
  city : Bytes
  role : UserRole
deriving DecidableEq, Repr

structure Report [Platform] where
  reportId : UInt64
  authorId : UInt64
  assignedTo : UInt64
  lat : Double
  lon : Double
  createdAt : ℤ
  assignedAt : ℤ
  resolvedAt : ℤ
  city : Bytes
  category : Bytes
  status : ReportStatus
  feedback : ℤ
  description : Bytes

structure Session where
  user : User
  createdAt : ℤ
deriving DecidableEq, Repr

/-- A slot of `g_cache`, free when `cachedAt` is 0; `json` is the stored text, whose length is
`jsonLen`. -/
structure CacheEntry where
  city : Bytes
  userId : UInt64
  isOperator : Bool
  isArchived : Bool
  cachedAt : ℤ
  json : Bytes
deriving DecidableEq, Repr

structure CityGeo [Platform] where
  latMin : Double
  latMax : Double
  lonMin : Double
  lonMax : Double
  centroidLat : Double
  centroidLon : Double

inductive FragType where
  | literal
  | variable
deriving DecidableEq, Repr

/-- A piece of a template source; `ptr` is an offset into it. -/
structure Fragment where
  type : FragType
  ptr : ℕ
  len : ℕ
deriving DecidableEq, Repr

structure Template where
  path : Bytes
  src : Bytes
  fragments : List Fragment
deriving DecidableEq, Repr

/-! ### Environment and state -/

structure Env [Platform] where
  clock : ℕ → ℤ
  fails : ℕ → Bool
  allocFails : ℕ → Bool
  token : ℕ → Fin 32 → Fin 16
  salt : ℕ → Fin 32 → Fin 16
  setAllocs : ℕ → SetAllocs
  cityTable : HashTable CityGeo
  templates : List Template

/-- How many readings of each stream have been taken. -/
structure Counters where
  ticks : ℕ
  calls : ℕ
  allocs : ℕ
  tokens : ℕ
  salts : ℕ
  sets : ℕ
deriving DecidableEq, Repr

structure World [Platform] where
  db : Database
  sessions : HashTable Session
  cache : List CacheEntry
  ctr : Counters

/-- A program of the application. -/
abbrev App [Platform] (α : Type) := Prog Env World α

section platform

variable [Platform]

/-- The state after one more reading of the clock. -/
def World.tick (w : World) : World := { w with ctr := { w.ctr with ticks := w.ctr.ticks + 1 } }

/-- The state after one more call into the database. -/
def World.call (w : World) : World := { w with ctr := { w.ctr with calls := w.ctr.calls + 1 } }

/-- The state after one more allocation by `cJSON`. -/
def World.alloc (w : World) : World := { w with ctr := { w.ctr with allocs := w.ctr.allocs + 1 } }

/-- `time(NULL)`. -/
def now : App ℤ := do
  let t ← Prog.askAt fun e w => e.clock w.ctr.ticks
  Prog.update World.tick
  pure t

/-- A call into the database that may fail: whether it succeeded. -/
def attempt : App Bool := do
  let ok ← Prog.askAt fun e w => !e.fails w.ctr.calls
  Prog.update World.call
  pure ok

/-- An allocation by `cJSON`: whether it succeeded. -/
def attemptAlloc : App Bool := do
  let ok ← Prog.askAt fun e w => !e.allocFails w.ctr.allocs
  Prog.update World.alloc
  pure ok

/-- `generate_token`. -/
def generateToken : App Bytes := do
  let t ← Prog.askAt fun e w => hexString (e.token w.ctr.tokens)
  Prog.update fun w => { w with ctr := { w.ctr with tokens := w.ctr.tokens + 1 } }
  pure t

/-- `generate_salt`. -/
def generateSalt : App Bytes := do
  let s ← Prog.askAt fun e w => hexString (e.salt w.ctr.salts)
  Prog.update fun w => { w with ctr := { w.ctr with salts := w.ctr.salts + 1 } }
  pure s

/-- The outcome of the allocations of the next `ht_set`. -/
def nextSetAllocs : App SetAllocs := do
  let m ← Prog.askAt fun e w => e.setAllocs w.ctr.sets
  Prog.update fun w => { w with ctr := { w.ctr with sets := w.ctr.sets + 1 } }
  pure m

/-! ### What the readings leave behind -/

section runs
variable {e : Env} {w w' : World}

theorem now_run {t : ℤ} (h : now e w = (t, w')) :
    t = e.clock w.ctr.ticks ∧ w' = w.tick := by
  obtain ⟨rfl, rfl⟩ := Prod.mk.inj h
  exact ⟨rfl, rfl⟩

theorem attempt_run {ok : Bool} (h : attempt e w = (ok, w')) :
    ok = !e.fails w.ctr.calls ∧ w' = w.call := by
  obtain ⟨rfl, rfl⟩ := Prod.mk.inj h
  exact ⟨rfl, rfl⟩

theorem attemptAlloc_run {ok : Bool} (h : attemptAlloc e w = (ok, w')) :
    ok = !e.allocFails w.ctr.allocs ∧ w' = w.alloc := by
  obtain ⟨rfl, rfl⟩ := Prod.mk.inj h
  exact ⟨rfl, rfl⟩

theorem generateToken_run {t : Bytes} (h : generateToken e w = (t, w')) :
    t = hexString (e.token w.ctr.tokens) ∧
      w' = { w with ctr := { w.ctr with tokens := w.ctr.tokens + 1 } } := by
  obtain ⟨rfl, rfl⟩ := Prod.mk.inj h
  exact ⟨rfl, rfl⟩

theorem generateSalt_run {s : Bytes} (h : generateSalt e w = (s, w')) :
    s = hexString (e.salt w.ctr.salts) ∧
      w' = { w with ctr := { w.ctr with salts := w.ctr.salts + 1 } } := by
  obtain ⟨rfl, rfl⟩ := Prod.mk.inj h
  exact ⟨rfl, rfl⟩

theorem nextSetAllocs_run {m : SetAllocs} (h : nextSetAllocs e w = (m, w')) :
    m = e.setAllocs w.ctr.sets ∧ w' = { w with ctr := { w.ctr with sets := w.ctr.sets + 1 } } := by
  obtain ⟨rfl, rfl⟩ := Prod.mk.inj h
  exact ⟨rfl, rfl⟩

end runs

end platform

/-! ### A platform with values in millionths

It agrees with the real one on plain decimals of at most six places and on texts without
characters that JSON escapes. -/

/-- Decimal digits with the value they continue. -/
def millionthsFrac : ℕ → ℕ → Bytes → ℕ
  | 0, v, _ => v
  | places + 1, v, c :: s =>
      if isDigit c then millionthsFrac places (v * 10 + (c.toNat - 48)) s
      else v * 10 ^ (places + 1)
  | places + 1, v, [] => v * 10 ^ (places + 1)

def millionths : ℕ → Bytes → ℕ
  | v, [] => v * 10 ^ 6
  | v, c :: s =>
      if isDigit c then millionths (v * 10 + (c.toNat - 48)) s
      else if c = 46 then millionthsFrac 6 v s
      else v * 10 ^ 6

def sampleAtof (s : Bytes) : ℤ :=
  if s.head? = some 45 then -(millionths 0 s.tail) else millionths 0 s

def sampleFixed6 (x : ℤ) : Bytes :=
  let digits := showNat (x.natAbs % 10 ^ 6)
  (if x < 0 then bytes "-" else []) ++ showNat (x.natAbs / 10 ^ 6) ++ bytes "." ++
    List.replicate (6 - digits.length) 48 ++ digits

def showInt (z : ℤ) : Bytes := (if z < 0 then bytes "-" else []) ++ showNat z.natAbs

def samplePrintValue : JsonValue ℤ → Bytes
  | .number z => showInt z
  | .real x => sampleFixed6 x
  | .string s => bytes "\"" ++ s ++ bytes "\""

def samplePrintObject (o : JsonObject ℤ) : Bytes :=
  bytes "\x7b" ++ (bytes ",").intercalate (o.map fun f =>
    bytes "\"" ++ f.1 ++ bytes "\":" ++ samplePrintValue f.2) ++ bytes "\x7d"

def samplePrint (items : List (JsonObject ℤ)) : Bytes :=
  bytes "[" ++ (bytes ",").intercalate (items.map samplePrintObject) ++ bytes "]"

@[reducible] def samplePlatform : Platform where
  Double := ℤ
  zero := 0
  atof := sampleAtof
  isNaN _ := false
  le x y := x ≤ y
  fixed6 := sampleFixed6
  orderDesc key := List.insertionSort fun a b => (key b).getD (-2 ^ 63) ≤ (key a).getD (-2 ^ 63)
  orderText key := List.insertionSort fun a b => key a ≤ key b
  printPreallocated items max :=
    if (samplePrint items).length < max then some (samplePrint items) else none
  printResidue _ _ buf := buf

/-- Every call succeeds, the clock advances by one a reading and every token is new. -/
def sampleEnv : @Env samplePlatform :=
  letI := samplePlatform
  { clock := fun n => 1700000000 + n
    fails := fun _ => false
    allocFails := fun _ => false
    token := fun n i => if i.val = 31 then Fin.ofNat 16 n else 10
    salt := fun _ _ => 7
    setAllocs := fun _ => ⟨true, true, true, true, true⟩
    cityTable := ⟨List.replicate 101 [], 0, 101, 0, fun key _ => (key.headD 0).toUInt64⟩
    templates := [] }

theorem sampleClock_monotone : Monotone (@Env.clock samplePlatform sampleEnv) := by
  intro m n hmn
  show (1700000000 : ℤ) + m ≤ 1700000000 + n
  omega

/-- The state after startup on empty tables. -/
def emptyWorld [Platform] (sessions : HashTable Session) : World where
  db := ⟨[], 0, [], 0, 0, 0⟩
  sessions := sessions
  cache := List.replicate 32 ⟨[], 0, false, false, 0, []⟩
  ctr := ⟨0, 0, 0, 0, 0, 0⟩

end Segnalacity
