import Segnalacity.Lib.Buckets
import Segnalacity.Lib.CStr
import Segnalacity.HashTable.Prime

/-! # The hash table

The chained table of `hash_table.c`.  Keys are byte strings; the stored objects have a type
`V`, since `void *` with a size is how C writes a type variable (`htGet` copies the whole
object, `htGetBytes` is the call on raw bytes, which truncates to the destination).

* A bucket is the list of its entries from the head of the chain.
* `capacity` is a `size_t` below `2^61`, since `calloc` has delivered that many pointers; its
  arithmetic does not wrap.  The bucket number is an `unsigned int`: `bucketIndex` keeps the
  truncation.
* Every `malloc` and `calloc` may fail.  Each is reached at most once in a call, so a call
  takes one flag for each (`true`: memory was delivered). -/

namespace Segnalacity

open CStr Buckets

structure Entry (V : Type) where
  key : Bytes
  value : V
  hash : UInt64
deriving DecidableEq, Repr

structure HashTable (V : Type) where
  pool : List (List (Entry V))
  size : ℕ
  capacity : ℕ
  seed : UInt64
  hashFunction : Bytes → UInt64 → UInt64

/-- Outcome of the allocations of `ht_set`: the new value of a present key, the new bucket
array, and the three blocks of `create_entry`. -/
structure SetAllocs where
  newValue : Bool
  newPool : Bool
  entry : Bool
  entryKey : Bool
  entryValue : Bool
deriving DecidableEq, Repr

def htDefaultCapacity : ℕ := 101

/-- `unsigned int index = h % capacity`. -/
def bucketIndex (capacity : ℕ) (h : UInt64) : ℕ := h.toNat % capacity % 2 ^ 32

def keysEqual (a b : Bytes) : Bool := a.length = b.length ∧ a = b

variable {V : Type}

/-- `ht_create`, from the outcome of its two allocations and the generated seed. -/
def htCreate (initialCapacity : ℕ) (hashFunction : Bytes → UInt64 → UInt64) (seed : UInt64)
    (tableOk poolOk : Bool) : Option (HashTable V) :=
  let capacity := if initialCapacity > 0 then initialCapacity else htDefaultCapacity
  if tableOk ∧ poolOk then some ⟨List.replicate capacity [], 0, capacity, seed, hashFunction⟩
  else none

namespace HashTable

variable (t : HashTable V)

/-- All entries, bucket by bucket. -/
def entries : List (Entry V) := t.pool.flatten

/-- Hash of a key under the table's seed. -/
def hashOf (key : Bytes) : UInt64 := t.hashFunction key t.seed

def indexOf (key : Bytes) : ℕ := bucketIndex t.capacity (t.hashOf key)

/-- The chain searched for a key. -/
def chain (key : Bytes) : List (Entry V) := bucket t.pool (t.indexOf key)

end HashTable

/-- `create_entry`: `none` when one of its three allocations fails. -/
def createEntry (key : Bytes) (value : V) (hash : UInt64) (m : SetAllocs) : Option (Entry V) :=
  if m.entry ∧ m.entryKey ∧ m.entryValue then some ⟨key, value, hash⟩ else none

/-- `ht_resize`: the entries move, bucket by bucket from the heads, to the heads of the new
buckets named by their cached hashes. -/
def htResize (t : HashTable V) (newPool : Bool) : Option (HashTable V) :=
  let newCap := nextPrime (t.capacity * 2)
  if newPool then
    some { t with
      pool := redistribute (fun e => bucketIndex newCap e.hash) newCap t.entries
      capacity := newCap }
  else none

/-- The update loop of `ht_set`: the first entry with the key gets the new value. -/
def setValue (key : Bytes) (value : V) : List (Entry V) → List (Entry V)
  | [] => []
  | e :: es => if keysEqual e.key key then { e with value := value } :: es
      else e :: setValue key value es

/-- Insertion of a key that is not present: resize when the load would reach the capacity,
then put a fresh entry at the head of its bucket. -/
def htInsert (t : HashTable V) (key : Bytes) (value : V) (m : SetAllocs) : Bool × HashTable V :=
  let h := t.hashOf key
  match (if t.size + 1 ≥ t.capacity then htResize t m.newPool else some t) with
  | none => (false, t)
  | some t' =>
      match createEntry key value h m with
      | none => (false, t')
      | some e => (true, { t' with
          pool := pushFront t'.pool (bucketIndex t'.capacity h) e
          size := t'.size + 1 })

def htSet (t : HashTable V) (key : Bytes) (value : V) (m : SetAllocs) : Bool × HashTable V :=
  if (t.chain key).any (fun e => keysEqual e.key key) then
    if m.newValue then
      (true, { t with pool := t.pool.set (t.indexOf key) (setValue key value (t.chain key)) })
    else (false, t)
  else htInsert t key value m

/-- `ht_get` into an object of the stored type. -/
def htGet (t : HashTable V) (key : Bytes) : Option V :=
  ((t.chain key).find? (fun e => keysEqual e.key key)).map Entry.value

/-- `ht_get` on raw bytes: at most `destSize` of them are copied. -/
def htGetBytes (t : HashTable Bytes) (key : Bytes) (destSize : ℕ) : Option Bytes :=
  (htGet t key).map (List.take destSize)

def htDelete (t : HashTable V) (key : Bytes) : Bool × HashTable V :=
  if (t.chain key).any (fun e => keysEqual e.key key) then
    (true, { t with
      pool := t.pool.set (t.indexOf key) ((t.chain key).eraseP (fun e => keysEqual e.key key))
      size := t.size - 1 })
  else (false, t)

def htForeach {σ : Type} (t : HashTable V) (callback : Bytes → V → σ → σ) (userdata : σ) : σ :=
  t.pool.foldl (fun acc b => b.foldl (fun acc e => callback e.key e.value acc) acc) userdata

/-! ### The invariant -/

/-- The table invariant: the size counts the entries and stays below the capacity, no key
occurs twice, every entry sits in the bucket of its cached hash, which is the hash of its key. -/
structure HashTable.WF (t : HashTable V) : Prop where
  length : t.pool.length = t.capacity
  size_eq : t.size = t.entries.length
  size_lt : t.size < t.capacity
  nodup : (t.entries.map Entry.key).Nodup
  hash_eq : ∀ e ∈ t.entries, e.hash = t.hashOf e.key
  placed : Placed (fun e => bucketIndex t.capacity e.hash) t.pool

namespace HashTable

variable {t : HashTable V}

@[simp] theorem keysEqual_iff (a b : Bytes) : keysEqual a b = true ↔ a = b := by
  unfold keysEqual
  rw [decide_eq_true_iff]
  exact ⟨fun h => h.2, fun h => ⟨congrArg List.length h, h⟩⟩

theorem bucketIndex_lt {capacity : ℕ} (hc : 0 < capacity) (h : UInt64) :
    bucketIndex capacity h < capacity :=
  (Nat.mod_le _ _).trans_lt (Nat.mod_lt _ hc)

/-- Below `2^32` buckets the truncation to `unsigned int` does nothing. -/
theorem bucketIndex_eq_mod {capacity : ℕ} (h0 : 0 < capacity) (hc : capacity < 2 ^ 32) (h : UInt64) :
    bucketIndex capacity h = h.toNat % capacity :=
  Nat.mod_eq_of_lt ((Nat.mod_lt _ h0).trans hc)

theorem WF.capacity_pos (hw : t.WF) : 0 < t.capacity := Nat.zero_lt_of_lt hw.size_lt

theorem WF.indexOf_lt (hw : t.WF) (key : Bytes) : t.indexOf key < t.pool.length := by
  rw [hw.length]
  exact bucketIndex_lt hw.capacity_pos _

/-- An entry lies in the chain that its own key selects. -/
theorem WF.mem_chain_iff (hw : t.WF) {e : Entry V} : e ∈ t.chain e.key ↔ e ∈ t.entries := by
  constructor
  · exact mem_of_mem_bucket
  · intro h
    have := mem_bucket_of_mem hw.placed h
    rw [hw.hash_eq e h] at this
    exact this

theorem WF.any_chain_iff (hw : t.WF) (key : Bytes) :
    (t.chain key).any (fun e => keysEqual e.key key) = true ↔ key ∈ t.entries.map Entry.key := by
  simp only [List.any_eq_true, keysEqual_iff, List.mem_map]
  constructor
  · rintro ⟨e, he, hk⟩
    exact ⟨e, mem_of_mem_bucket he, hk⟩
  · rintro ⟨e, he, rfl⟩
    exact ⟨e, hw.mem_chain_iff.mpr he, rfl⟩

/-- `t` stores `value` under `key`. -/
def Binds (t : HashTable V) (key : Bytes) (value : V) : Prop :=
  ∃ e ∈ t.entries, e.key = key ∧ e.value = value

theorem entry_ext_of_key {l : List (Entry V)} (hn : (l.map Entry.key).Nodup) {e e' : Entry V}
    (he : e ∈ l) (he' : e' ∈ l) (hk : e.key = e'.key) : e = e' :=
  List.inj_on_of_nodup_map hn he he' hk

theorem htGet_eq_some_iff (hw : t.WF) {key : Bytes} {value : V} :
    htGet t key = some value ↔ t.Binds key value := by
  unfold htGet
  constructor
  · intro h
    obtain ⟨e, he, rfl⟩ := Option.map_eq_some_iff.mp h
    have hk : e.key = key := by simpa using List.find?_some he
    exact ⟨e, mem_of_mem_bucket (List.mem_of_find?_eq_some he), hk, rfl⟩
  · rintro ⟨e, he, rfl, rfl⟩
    cases hf : (t.chain e.key).find? (fun e' => keysEqual e'.key e.key) with
    | none =>
        have := List.find?_eq_none.mp hf e (hw.mem_chain_iff.mpr he)
        simp at this
    | some e' =>
        have hk : e'.key = e.key := by simpa using List.find?_some hf
        have := entry_ext_of_key hw.nodup (mem_of_mem_bucket (List.mem_of_find?_eq_some hf)) he hk
        rw [this, Option.map_some]

theorem htGet_isSome_iff (hw : t.WF) {key : Bytes} :
    (htGet t key).isSome = true ↔ key ∈ t.entries.map Entry.key := by
  rw [Option.isSome_iff_exists]
  simp only [htGet_eq_some_iff hw, Binds, List.mem_map]
  constructor
  · rintro ⟨_, e, he, hk, _⟩
    exact ⟨e, he, hk⟩
  · rintro ⟨e, he, hk⟩
    exact ⟨_, e, he, hk, rfl⟩

/-- Tables with the same content, up to order, answer alike. -/
theorem htGet_congr {t' : HashTable V} (hw : t.WF) (hw' : t'.WF) (hp : t'.entries.Perm t.entries) :
    htGet t' = htGet t := by
  funext key
  apply Option.ext
  intro v
  rw [htGet_eq_some_iff hw, htGet_eq_some_iff hw']
  simp only [Binds, hp.mem_iff]

end HashTable

end Segnalacity
