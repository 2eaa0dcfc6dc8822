import Segnalacity.HashTable.Map
import Segnalacity.Lib.Blocks

/-! # The hash table in memory

`hash_table.c` with its pointers: the table, the array of buckets, the entries, and the keys and
values that they own are blocks of a heap.  A program that follows a pointer to a block that is not
there, or frees such a block, has no outcome.  `Table` models the same functions on lists of
entries; `Refinement` shows that both agree.

The loops over a chain take fuel, since a chain could be a circle.  The lock is left out, as the
server has one thread. -/

namespace Segnalacity

open CStr

namespace InMemory

open Blocks Blocks.Cmd

/-- `Entry`; a NULL pointer is `none`. -/
structure EntryBlock where
  key : Option ℕ
  keySize : ℕ
  value : Option ℕ
  size : ℕ
  hash : UInt64
  next : Option ℕ

/-- `Hash_Table`. -/
structure TableBlock where
  pool : ℕ
  size : ℕ
  capacity : ℕ
  seed : UInt64
  hashFunction : Bytes → UInt64 → UInt64

inductive Block where
  | table (t : TableBlock)
  | pool (heads : List (Option ℕ))
  | entry (e : EntryBlock)
  | bytes (data : Bytes)

abbrev HtHeap := Heap Block

abbrev HtCmd (α : Type) := Cmd Block α

/-! ### Accesses -/

def Block.table? : Block → Option TableBlock
  | .table t => some t
  | _ => none

def Block.pool? : Block → Option (List (Option ℕ))
  | .pool heads => some heads
  | _ => none

def Block.entry? : Block → Option EntryBlock
  | .entry e => some e
  | _ => none

def Block.bytes? : Block → Option Bytes
  | .bytes data => some data
  | _ => none

def readTable (p : ℕ) : HtCmd TableBlock := do
  let b ← read p
  need b.table?

def readEntry (p : ℕ) : HtCmd EntryBlock := do
  let b ← read p
  need b.entry?

/-- The bytes behind a pointer that is not NULL. -/
def readBytes (p : Option ℕ) : HtCmd Bytes := do
  let p ← need p
  let b ← read p
  need b.bytes?

/-- `pool[i]`. -/
def readHead (pool i : ℕ) : HtCmd (Option ℕ) := do
  let b ← read pool
  let heads ← need b.pool?
  need heads[i]?

/-- `pool[i] = e`. -/
def writeHead (pool i : ℕ) (e : Option ℕ) : HtCmd Unit := do
  let b ← read pool
  let heads ← need b.pool?
  let _ ← need heads[i]?
  write pool (.pool (heads.set i e))

/-- `free`, which does nothing with a NULL pointer. -/
def freeMaybe : Option ℕ → HtCmd Unit
  | none => pure ()
  | some p => free p

/-! ### Entries -/

/-- The end of `create_entry` when one of its allocations has failed. -/
def rollback (e : ℕ) : HtCmd (Option ℕ) := do
  let entry ← readEntry e
  freeMaybe entry.key
  freeMaybe entry.value
  free e
  pure none

def createEntry (key value : Bytes) (hash : UInt64) (m : SetAllocs) : HtCmd (Option ℕ) :=
  if !m.entry then pure none
  else do
    let e ← alloc (.entry ⟨none, 0, none, 0, 0, none⟩)
    if !m.entryKey then rollback e
    else do
      let k ← alloc (.bytes key)
      write e (.entry ⟨some k, key.length, none, 0, 0, none⟩)
      if !m.entryValue then rollback e
      else do
        let v ← alloc (.bytes value)
        write e (.entry ⟨some k, key.length, some v, value.length, hash, none⟩)
        pure (some e)

/-- The three blocks of an entry are freed. -/
def freeEntry (e : ℕ) : HtCmd Unit := do
  let entry ← readEntry e
  freeMaybe entry.key
  freeMaybe entry.value
  free e

/-- `keys_equal` on the key of an entry. -/
def entryKeyEquals (entry : EntryBlock) (key : Bytes) : HtCmd Bool := do
  if entry.keySize = key.length then
    let k ← readBytes entry.key
    pure (decide (k.take entry.keySize = key))
  else pure false

/-! ### Chains -/

/-- The loops that look for a key: the entry and the one before it. -/
def findEntry (key : Bytes) : ℕ → Option ℕ → Option ℕ → HtCmd (Option ℕ × Option ℕ)
  | 0, _, _ => need none
  | _ + 1, prev, none => pure (prev, none)
  | fuel + 1, prev, some e => do
      let entry ← readEntry e
      if ← entryKeyEquals entry key then pure (prev, some e)
      else findEntry key fuel (some e) entry.next

/-- The inner loop of `ht_resize`. -/
def moveChain (newPool newCap : ℕ) : ℕ → Option ℕ → HtCmd Unit
  | 0, _ => need none
  | _ + 1, none => pure ()
  | fuel + 1, some e => do
      let entry ← readEntry e
      let newIndex := bucketIndex newCap entry.hash
      let head ← readHead newPool newIndex
      write e (.entry { entry with next := head })
      writeHead newPool newIndex (some e)
      moveChain newPool newCap fuel entry.next

/-- The inner loop of `ht_foreach`, with a callback that collects. -/
def visitChain : ℕ → Option ℕ → HtCmd (List (Bytes × Bytes))
  | 0, _ => need none
  | _ + 1, none => pure []
  | fuel + 1, some e => do
      let entry ← readEntry e
      let key ← readBytes entry.key
      let value ← readBytes entry.value
      let rest ← visitChain fuel entry.next
      pure ((key.take entry.keySize, value.take entry.size) :: rest)

/-- The inner loop of `ht_destroy`. -/
def freeChain : ℕ → Option ℕ → HtCmd Unit
  | 0, _ => need none
  | _ + 1, none => pure ()
  | fuel + 1, some e => do
      let entry ← readEntry e
      freeEntry e
      freeChain fuel entry.next

/-- `for (size_t i = 0; i < capacity; i++)` over the chains of a bucket array. -/
def forBuckets {α : Type} (pool : ℕ) (body : Option ℕ → HtCmd α) : List ℕ → HtCmd (List α)
  | [] => pure []
  | i :: is => do
      let e ← readHead pool i
      let a ← body e
      let rest ← forBuckets pool body is
      pure (a :: rest)

/-! ### The functions -/

def htCreate (initialCapacity : ℕ) (hashFunction : Bytes → UInt64 → UInt64) (seed : UInt64)
    (tableOk poolOk : Bool) : HtCmd (Option ℕ) :=
  if !tableOk then pure none
  else do
    let capacity := if initialCapacity > 0 then initialCapacity else htDefaultCapacity
    let table ← alloc (.table ⟨0, 0, capacity, 0, hashFunction⟩)
    if !poolOk then do
      free table
      pure none
    else do
      let pool ← alloc (.pool (List.replicate capacity none))
      write table (.table ⟨pool, 0, capacity, seed, hashFunction⟩)
      pure (some table)

def htResize (fuel table : ℕ) (poolOk : Bool) : HtCmd Bool := do
  let t ← readTable table
  let newCap := nextPrime (t.capacity * 2)
  if !poolOk then pure false
  else do
    let newPool ← alloc (.pool (List.replicate newCap none))
    let _ ← forBuckets t.pool (moveChain newPool newCap fuel) (List.range t.capacity)
    free t.pool
    write table (.table { t with pool := newPool, capacity := newCap })
    pure true

/-- The update of an entry that is present: the new value is allocated before the old one is
freed. -/
def setPresent (e : ℕ) (value : Bytes) (m : SetAllocs) : HtCmd Bool :=
  if !m.newValue then pure false
  else do
    let v ← alloc (.bytes value)
    let entry ← readEntry e
    freeMaybe entry.value
    write e (.entry { entry with value := some v, size := value.length })
    pure true

/-- The insertion of an entry at the head of its bucket. -/
def insertNew (table : ℕ) (key value : Bytes) (hash : UInt64) (m : SetAllocs) : HtCmd Bool := do
  let t ← readTable table
  let index := bucketIndex t.capacity hash
  match ← createEntry key value hash m with
  | none => pure false
  | some e => do
      let entry ← readEntry e
      let head ← readHead t.pool index
      write e (.entry { entry with next := head })
      writeHead t.pool index (some e)
      write table (.table { t with size := t.size + 1 })
      pure true

def htSet (fuel table : ℕ) (key value : Bytes) (m : SetAllocs) : HtCmd Bool := do
  let t ← readTable table
  let hash := t.hashFunction key t.seed
  let head ← readHead t.pool (bucketIndex t.capacity hash)
  match (← findEntry key fuel none head).2 with
  | some e => setPresent e value m
  | none => do
      let room ← if t.size + 1 ≥ t.capacity then htResize fuel table m.newPool else pure true
      if room then insertNew table key value hash m else pure false

def htGet (fuel table : ℕ) (key : Bytes) (destSize : ℕ) : HtCmd (Option Bytes) := do
  let t ← readTable table
  let head ← readHead t.pool (bucketIndex t.capacity (t.hashFunction key t.seed))
  match (← findEntry key fuel none head).2 with
  | none => pure none
  | some e => do
      let entry ← readEntry e
      let value ← readBytes entry.value
      pure (some (value.take (if entry.size < destSize then entry.size else destSize)))

/-- The entry behind `prev` is taken out of the chain; without one it is the head. -/
def unlink (pool index : ℕ) (prev next : Option ℕ) : HtCmd Unit :=
  match prev with
  | some q => do
      let before ← readEntry q
      write q (.entry { before with next := next })
  | none => writeHead pool index next

def htDelete (fuel table : ℕ) (key : Bytes) : HtCmd Bool := do
  let t ← readTable table
  let index := bucketIndex t.capacity (t.hashFunction key t.seed)
  let head ← readHead t.pool index
  match ← findEntry key fuel none head with
  | (_, none) => pure false
  | (prev, some e) => do
      let entry ← readEntry e
      unlink t.pool index prev entry.next
      freeEntry e
      write table (.table { t with size := t.size - 1 })
      pure true

def htForeach (fuel table : ℕ) : HtCmd (List (Bytes × Bytes)) := do
  let t ← readTable table
  let visited ← forBuckets t.pool (visitChain fuel) (List.range t.capacity)
  pure visited.flatten

/-- `ht_destroy` without a file to save the table to. -/
def htDestroy (fuel table : ℕ) : HtCmd Unit := do
  let t ← readTable table
  let _ ← forBuckets t.pool (freeChain fuel) (List.range t.capacity)
  free t.pool
  free table

/-! ### Runs -/

def runOp (fuel table : ℕ) : HtOp → HtCmd HtAnswer
  | .set key value allocs => do
      let ok ← htSet fuel table key value allocs
      pure (.set ok)
  | .get key destSize => do
      let found ← htGet fuel table key destSize
      pure (.get found)
  | .delete key => do
      let removed ← htDelete fuel table key
      pure (.delete removed)
  | .foreach => do
      let visited ← htForeach fuel table
      pure (.foreach visited)

def runOps (fuel table : ℕ) : List HtOp → HtCmd (List (HtOp × HtAnswer))
  | [] => pure []
  | op :: ops => do
      let a ← runOp fuel table op
      let rest ← runOps fuel table ops
      pure ((op, a) :: rest)

/-- A table from its creation to its end, with the answers that it has given. -/
def lifetime (fuel capacity : ℕ) (hashFunction : Bytes → UInt64 → UInt64) (seed : UInt64)
    (tableOk poolOk : Bool) (ops : List HtOp) : HtCmd (Option (List (HtOp × HtAnswer))) := do
  match ← htCreate capacity hashFunction seed tableOk poolOk with
  | none => pure none
  | some table => do
      let log ← runOps fuel table ops
      htDestroy fuel table
      pure (some log)

end InMemory

end Segnalacity
