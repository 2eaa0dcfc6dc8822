import Segnalacity.Lib.StateProg
import Segnalacity.HashTable.Table
import Mathlib.Data.Set.Card
import Mathlib.Logic.Function.Basic

/-! # The hash table is a finite map

Each operation keeps the table invariant and acts on the map `htGet t` as its name says:
`htSet_spec`, `htDelete_spec`, `htForeach_eq`.  `MapRun` is the finite map as an abstract
machine, with the answers it may give; `htRun_refines` relates every run of the table, under
any pattern of allocation failures, to a run of that machine. -/

namespace Segnalacity

open CStr Buckets StateProg

variable {V : Type}

namespace HashTable

variable {t t' : HashTable V} {key : Bytes} {value : V}

/-! ### The empty table -/

theorem htCreate_wf {cap : ℕ} {hash : Bytes → UInt64 → UInt64} {seed : UInt64} {a b : Bool}
    (h : htCreate cap hash seed a b = some t) : t.WF ∧ t.entries = [] := by
  unfold htCreate at h
  split_ifs at h with hab hc <;> obtain rfl := Option.some.inj h
  all_goals
    refine ⟨⟨by simp, by simp [entries], by simp [htDefaultCapacity]; try omega,
      by simp [entries], by simp [entries], placed_replicate _ _⟩, by simp [entries]⟩

theorem htGet_of_entries_nil (hw : t.WF) (h : t.entries = []) : htGet t = fun _ => none := by
  funext key
  rw [Option.eq_none_iff_forall_ne_some]
  intro v hv
  obtain ⟨e, he, _⟩ := (htGet_eq_some_iff hw).mp hv
  rw [h] at he
  cases he

/-! ### Resizing -/

theorem htResize_spec {ok : Bool} (hw : t.WF) (h : htResize t ok = some t') :
    t'.WF ∧ t'.entries.Perm t.entries ∧ t'.size = t.size ∧ 2 * t.capacity ≤ t'.capacity ∧
      t'.seed = t.seed ∧ t'.hashFunction = t.hashFunction := by
  unfold htResize at h
  split_ifs at h
  obtain rfl := Option.some.inj h
  have hcap : 2 * t.capacity ≤ nextPrime (t.capacity * 2) := by
    have := le_nextPrime (t.capacity * 2)
    omega
  have hpos := hw.capacity_pos
  have hidx : ∀ e ∈ t.entries, bucketIndex (nextPrime (t.capacity * 2)) e.hash <
      nextPrime (t.capacity * 2) := fun e _ => bucketIndex_lt (by omega) _
  have hperm := redistribute_perm hidx
  refine ⟨⟨redistribute_length hidx, ?_, ?_, ?_, ?_, redistribute_placed hidx⟩, hperm, rfl, hcap,
    rfl, rfl⟩
  · exact hw.size_eq.trans hperm.length_eq.symm
  · have := hw.size_lt
    show t.size < nextPrime (t.capacity * 2)
    omega
  · exact (hperm.map Entry.key).nodup_iff.mpr hw.nodup
  · intro e he
    exact hw.hash_eq e (hperm.mem_iff.mp he)

/-! ### Insertion of an absent key -/

/-- Insertion into a table with room for one more entry. -/
theorem pushFront_spec (value : V) (hw : t.WF) (hroom : t.size + 1 < t.capacity)
    (habs : key ∉ t.entries.map Entry.key) :
    let r : HashTable V := { t with
      pool := pushFront t.pool (bucketIndex t.capacity (t.hashOf key)) ⟨key, value, t.hashOf key⟩
      size := t.size + 1 }
    r.WF ∧ htGet r = Function.update (htGet t) key (some value) := by
  intro r
  have hlt : bucketIndex t.capacity (t.hashOf key) < t.pool.length := hw.indexOf_lt key
  have hperm : r.entries.Perm (⟨key, value, t.hashOf key⟩ :: t.entries) := pushFront_perm hlt _
  have hwr : r.WF := by
    refine ⟨?_, ?_, hroom, ?_, ?_, ?_⟩
    · exact (List.length_set ..).trans hw.length
    · rw [hperm.length_eq, List.length_cons, ← hw.size_eq]
    · rw [(hperm.map Entry.key).nodup_iff, List.map_cons, List.nodup_cons]
      exact ⟨habs, hw.nodup⟩
    · intro e he
      rcases List.mem_cons.mp (hperm.mem_iff.mp he) with rfl | he
      · rfl
      · exact hw.hash_eq e he
    · exact hw.placed.pushFront ⟨key, value, t.hashOf key⟩
  refine ⟨hwr, ?_⟩
  funext k
  apply Option.ext
  intro v
  rw [htGet_eq_some_iff hwr]
  unfold Binds
  simp only [hperm.mem_iff, List.mem_cons, Function.update_apply]
  split_ifs with hk
  · subst hk
    constructor
    · rintro ⟨e, rfl | he, hk, rfl⟩
      · rfl
      · exact absurd (List.mem_map.mpr ⟨e, he, hk⟩) habs
    · rintro h
      exact ⟨_, Or.inl rfl, rfl, Option.some.inj h⟩
  · rw [htGet_eq_some_iff hw]
    constructor
    · rintro ⟨e, rfl | he, he', rfl⟩
      · exact absurd he'.symm hk
      · exact ⟨e, he, he', rfl⟩
    · rintro ⟨e, he, he', rfl⟩
      exact ⟨e, Or.inr he, he', rfl⟩

/-- What every mutating operation leaves: the invariant and the hash function with its seed. -/
structure Follows (t r : HashTable V) : Prop where
  wf : r.WF
  seed : r.seed = t.seed
  hashFunction : r.hashFunction = t.hashFunction

theorem htInsert_spec (hw : t.WF) (habs : key ∉ t.entries.map Entry.key) (m : SetAllocs) :
    Follows t (htInsert t key value m).2 ∧
      htGet (htInsert t key value m).2 =
        if (htInsert t key value m).1 then Function.update (htGet t) key (some value)
        else htGet t := by
  -- the table into which the new entry goes
  have hroom : ∀ t', (if t.size + 1 ≥ t.capacity then htResize t m.newPool else some t) = some t' →
      t'.WF ∧ t'.entries.Perm t.entries ∧ t'.size + 1 < t'.capacity ∧ t'.seed = t.seed ∧
        t'.hashFunction = t.hashFunction := by
    intro t' h
    have hlt := hw.size_lt
    split_ifs at h with hc
    · obtain ⟨h1, h2, h3, h4, h5, h6⟩ := htResize_spec hw h
      exact ⟨h1, h2, by omega, h5, h6⟩
    · obtain rfl := Option.some.inj h
      exact ⟨hw, List.Perm.refl _, by omega, rfl, rfl⟩
  unfold htInsert
  cases hs : (if t.size + 1 ≥ t.capacity then htResize t m.newPool else some t) with
  | none => exact ⟨⟨hw, rfl, rfl⟩, rfl⟩
  | some t' =>
      obtain ⟨hw', hperm, hlt, hseed, hfun⟩ := hroom t' hs
      have hget := htGet_congr hw hw' hperm
      cases hce : createEntry key value (t.hashOf key) m with
      | none =>
          simp only [hce]
          exact ⟨⟨hw', hseed, hfun⟩, hget⟩
      | some e =>
          obtain rfl : ⟨key, value, t.hashOf key⟩ = e := by
            unfold createEntry at hce
            split_ifs at hce
            exact Option.some.inj hce
          have hh : t'.hashOf key = t.hashOf key := by
            unfold hashOf
            rw [hseed, hfun]
          have habs' : key ∉ t'.entries.map Entry.key := by
            rwa [(hperm.map Entry.key).mem_iff]
          obtain ⟨h1, h2⟩ := pushFront_spec value hw' hlt habs'
          rw [hh] at h1 h2
          rw [hget] at h2
          simp only [hce]
          exact ⟨⟨h1, hseed, hfun⟩, h2⟩

/-! ### Update and removal of a present key -/

theorem setValue_append {l₁ l₂ : List (Entry V)} {e : Entry V} (h : ∀ x ∈ l₁, x.key ≠ e.key) :
    setValue e.key value (l₁ ++ e :: l₂) = l₁ ++ { e with value := value } :: l₂ := by
  induction l₁ with
  | nil => simp [setValue]
  | cons x l₁ ih =>
      have hx : ¬ keysEqual x.key e.key = true := by
        rw [keysEqual_iff]
        exact h x List.mem_cons_self
      rw [List.cons_append, setValue, if_neg hx, ih fun y hy => h y (List.mem_cons_of_mem _ hy)]
      rfl

/-- The one entry with a present key, and the two ways of rewriting its chain. -/
theorem WF.split_present (hw : t.WF) (h : key ∈ t.entries.map Entry.key) (value : V) :
    ∃ l₁ e l₂, e.key = key ∧ t.entries = l₁ ++ e :: l₂ ∧
      (t.pool.set (t.indexOf key) (setValue key value (t.chain key))).flatten =
        l₁ ++ { e with value := value } :: l₂ ∧
      (t.pool.set (t.indexOf key)
        ((t.chain key).eraseP (fun e => keysEqual e.key key))).flatten = l₁ ++ l₂ := by
  obtain ⟨e₀, he₀, hk₀⟩ := List.mem_map.mp h
  have hmem : e₀ ∈ t.chain key := by
    rw [← hk₀]
    exact hw.mem_chain_iff.mpr he₀
  obtain ⟨e, c₁, c₂, hc₁, he, hchain, herase⟩ :=
    List.exists_of_eraseP (p := fun e => keysEqual e.key key) hmem ((keysEqual_iff _ _).mpr hk₀)
  obtain rfl := (keysEqual_iff _ _).mp he
  have hc₁' : ∀ x ∈ c₁, x.key ≠ e.key := fun x hx hxk => hc₁ x hx ((keysEqual_iff _ _).mpr hxk)
  obtain ⟨l₁, l₂, hp, hs⟩ := set_flatten (hw.indexOf_lt e.key)
  refine ⟨l₁ ++ c₁, e, c₂ ++ l₂, rfl, ?_, ?_, ?_⟩
  · have hb : bucket t.pool (t.indexOf e.key) = c₁ ++ e :: c₂ := hchain
    unfold entries
    rw [hp, hb]
    simp
  · rw [hs, hchain, setValue_append hc₁']
    simp
  · rw [hs, herase]
    simp

/-- The keys on both sides of an entry differ from its key. -/
theorem WF.key_notMem_sides (hw : t.WF) {l₁ l₂ : List (Entry V)} {e : Entry V}
    (h : t.entries = l₁ ++ e :: l₂) : e.key ∉ (l₁ ++ l₂).map Entry.key := by
  have hn := hw.nodup
  rw [h, List.map_append, List.map_cons, List.nodup_middle, List.nodup_cons] at hn
  rw [List.map_append]
  exact hn.1

theorem setValue_hash_key (key : Bytes) (value : V) (l : List (Entry V)) :
    (setValue key value l).map (fun e => (e.key, e.hash)) = l.map (fun e => (e.key, e.hash)) := by
  induction l with
  | nil => rfl
  | cons e es ih =>
      unfold setValue
      split_ifs
      · rfl
      · rw [List.map_cons, List.map_cons, ih]

theorem update_spec (hw : t.WF) (h : key ∈ t.entries.map Entry.key) :
    let r : HashTable V :=
      { t with pool := t.pool.set (t.indexOf key) (setValue key value (t.chain key)) }
    Follows t r ∧ htGet r = Function.update (htGet t) key (some value) := by
  intro r
  obtain ⟨l₁, e, l₂, rfl, ht, hr, _⟩ := hw.split_present h value
  have hr' : r.entries = l₁ ++ { e with value := value } :: l₂ := hr
  have hkeys : r.entries.map Entry.key = t.entries.map Entry.key := by
    rw [ht, hr']
    simp
  have hwr : r.WF := by
    refine ⟨(List.length_set ..).trans hw.length, ?_, hw.size_lt, ?_, ?_, ?_⟩
    · show t.size = r.entries.length
      rw [hw.size_eq, ht, hr']
      simp
    · rw [hkeys]
      exact hw.nodup
    · intro x hx
      show x.hash = t.hashOf x.key
      rw [hr'] at hx
      rcases List.mem_append.mp hx with hx | hx
      · exact hw.hash_eq x (by rw [ht]; exact List.mem_append_left _ hx)
      · rcases List.mem_cons.mp hx with rfl | hx
        · exact hw.hash_eq e (by rw [ht]; simp)
        · exact hw.hash_eq x (by rw [ht]; simp [hx])
    · refine hw.placed.set fun x hx => ?_
      have hmem := List.mem_map_of_mem (f := fun e => (e.key, e.hash)) hx
      rw [setValue_hash_key] at hmem
      obtain ⟨y, hy, hyx⟩ := List.mem_map.mp hmem
      show bucketIndex t.capacity x.hash = _
      rw [← (Prod.mk.inj hyx).2]
      exact hw.placed _ y hy
  refine ⟨⟨hwr, rfl, rfl⟩, ?_⟩
  have hside := hw.key_notMem_sides ht
  funext k
  apply Option.ext
  intro v
  rw [htGet_eq_some_iff hwr, Function.update_apply]
  unfold Binds
  rw [hr']
  split_ifs with hk
  · subst hk
    constructor
    · rintro ⟨x, hx, hxk, rfl⟩
      simp only [List.mem_append, List.mem_cons] at hx
      rcases hx with hx | rfl | hx
      · exact absurd (List.mem_map.mpr ⟨x, by simp [hx], hxk⟩) hside
      · rfl
      · exact absurd (List.mem_map.mpr ⟨x, by simp [hx], hxk⟩) hside
    · intro hv
      exact ⟨{ e with value := value }, by simp, rfl, Option.some.inj hv⟩
  · rw [htGet_eq_some_iff hw]
    unfold Binds
    rw [ht]
    constructor
    · rintro ⟨x, hx, hxk, rfl⟩
      simp only [List.mem_append, List.mem_cons] at hx
      rcases hx with hx | rfl | hx
      · exact ⟨x, by simp [hx], hxk, rfl⟩
      · exact absurd hxk.symm hk
      · exact ⟨x, by simp [hx], hxk, rfl⟩
    · rintro ⟨x, hx, hxk, rfl⟩
      simp only [List.mem_append, List.mem_cons] at hx
      rcases hx with hx | rfl | hx
      · exact ⟨x, by simp [hx], hxk, rfl⟩
      · exact absurd hxk.symm hk
      · exact ⟨x, by simp [hx], hxk, rfl⟩

/-! ### The operations -/

theorem htSet_spec (hw : t.WF) (key : Bytes) (value : V) (m : SetAllocs) :
    Follows t (htSet t key value m).2 ∧
      htGet (htSet t key value m).2 =
        if (htSet t key value m).1 then Function.update (htGet t) key (some value)
        else htGet t := by
  unfold htSet
  by_cases hp : (t.chain key).any (fun e => keysEqual e.key key) = true
  · rw [if_pos hp]
    by_cases hm : m.newValue = true
    · rw [if_pos hm]
      exact update_spec hw ((hw.any_chain_iff key).mp hp)
    · rw [if_neg hm]
      exact ⟨⟨hw, rfl, rfl⟩, rfl⟩
  · rw [if_neg hp]
    exact htInsert_spec hw (fun h => hp ((hw.any_chain_iff key).mpr h)) m

theorem htDelete_spec (hw : t.WF) (key : Bytes) :
    Follows t (htDelete t key).2 ∧ (htDelete t key).1 = (htGet t key).isSome ∧
      htGet (htDelete t key).2 = Function.update (htGet t) key none := by
  have hsome : (htGet t key).isSome ↔ key ∈ t.entries.map Entry.key := htGet_isSome_iff hw
  unfold htDelete
  split_ifs with hp
  · have hk := (hw.any_chain_iff key).mp hp
    obtain ⟨v, hv⟩ := Option.isSome_iff_exists.mp (hsome.mpr hk)
    obtain ⟨l₁, e, l₂, rfl, ht, _, hr⟩ := hw.split_present hk v
    generalize hrdef : ({ t with
      pool := t.pool.set (t.indexOf e.key) ((t.chain e.key).eraseP (fun x => keysEqual x.key e.key))
      size := t.size - 1 } : HashTable V) = r
    have hr' : r.entries = l₁ ++ l₂ := by
      rw [← hrdef]
      exact hr
    have hsub : r.entries.Sublist t.entries := by
      rw [hr', ht]
      exact (List.Sublist.refl l₁).append (List.sublist_cons_self e l₂)
    have hsize : t.size = (l₁ ++ l₂).length + 1 := by
      rw [hw.size_eq, ht]
      simp only [List.length_append, List.length_cons]
      omega
    have hcap : r.capacity = t.capacity := by rw [← hrdef]
    have hwr : r.WF := by
      refine ⟨?_, ?_, ?_, hw.nodup.sublist (hsub.map Entry.key), ?_, ?_⟩
      · rw [← hrdef]
        exact (List.length_set ..).trans hw.length
      · have e1 : r.size = t.size - 1 := by rw [← hrdef]
        rw [e1, hr', hsize]
        rfl
      · have e1 : r.size = t.size - 1 := by rw [← hrdef]
        have := hw.size_lt
        omega
      · intro x hx
        rw [← hrdef]
        exact hw.hash_eq x (hsub.subset hx)
      · rw [← hrdef]
        refine hw.placed.set fun x hx => ?_
        exact hw.placed _ x (List.mem_of_mem_eraseP hx)
    refine ⟨⟨hwr, by rw [← hrdef], by rw [← hrdef]⟩, by rw [hv]; rfl, ?_⟩
    have hside := hw.key_notMem_sides ht
    funext k
    apply Option.ext
    intro w
    rw [htGet_eq_some_iff hwr, Function.update_apply]
    unfold Binds
    rw [hr']
    split_ifs with hke
    · subst hke
      simp only [iff_false, not_exists, not_and]
      intro x hx hxk
      exact absurd (List.mem_map.mpr ⟨x, hx, hxk⟩) hside
    · rw [htGet_eq_some_iff hw]
      unfold Binds
      rw [ht]
      simp only [List.mem_append, List.mem_cons]
      constructor
      · rintro ⟨x, hx, hxk, rfl⟩
        exact ⟨x, by tauto, hxk, rfl⟩
      · rintro ⟨x, hx | rfl | hx, hxk, rfl⟩
        · exact ⟨x, Or.inl hx, hxk, rfl⟩
        · exact absurd hxk.symm hke
        · exact ⟨x, Or.inr hx, hxk, rfl⟩
  · have hnone : htGet t key = none := by
      rw [← Option.not_isSome_iff_eq_none]
      exact fun h => hp ((hw.any_chain_iff key).mpr (hsome.mp h))
    refine ⟨⟨hw, rfl, rfl⟩, by rw [hnone]; rfl, ?_⟩
    rw [← hnone, Function.update_eq_self]

/-- `ht_foreach` visits the entries one after the other. -/
theorem htForeach_eq {σ : Type} (t : HashTable V) (callback : Bytes → V → σ → σ) (s : σ) :
    htForeach t callback s = t.entries.foldl (fun acc e => callback e.key e.value acc) s := by
  unfold htForeach entries
  rw [List.foldl_flatten]

/-- The size is the number of keys with a value. -/
theorem WF.size_eq_ncard (hw : t.WF) : t.size = {k | (htGet t k).isSome = true}.ncard := by
  have hset : {k | (htGet t k).isSome = true} = ↑(t.entries.map Entry.key).toFinset := by
    ext k
    rw [Set.mem_ofPred_eq, htGet_isSome_iff hw, List.coe_toFinset, Set.mem_ofPred_eq]
  rw [hset, Set.ncard_coe_finset, List.toFinset_card_of_nodup hw.nodup, List.length_map, hw.size_eq]

end HashTable

/-- The outcome of the allocations when memory suffices. -/
def allDelivered : SetAllocs := ⟨true, true, true, true, true⟩

theorem htSet_allDelivered {V : Type} (t : HashTable V) (key : Bytes) (value : V) :
    (htSet t key value allDelivered).1 = true := by
  unfold htSet htInsert htResize createEntry allDelivered
  split
  · rfl
  · by_cases hfull : t.size + 1 ≥ t.capacity <;> simp [hfull]

/-! ### Runs -/

/-- A call of the table's interface, with the outcome of the allocations it makes. -/
inductive HtOp where
  | set (key value : Bytes) (allocs : SetAllocs)
  | get (key : Bytes) (destSize : ℕ)
  | delete (key : Bytes)
  | foreach
deriving DecidableEq, Repr

/-- What a call gives back: the return value, the bytes copied, the bindings visited. -/
inductive HtAnswer where
  | set (ok : Bool)
  | get (found : Option Bytes)
  | delete (removed : Bool)
  | foreach (visited : List (Bytes × Bytes))
deriving DecidableEq, Repr

def HtOp.run : HtOp → Prog Unit (HashTable Bytes) HtAnswer
  | .set key value allocs, _, t => (.set (htSet t key value allocs).1, (htSet t key value allocs).2)
  | .get key destSize, _, t => (.get (htGetBytes t key destSize), t)
  | .delete key, _, t => (.delete (htDelete t key).1, (htDelete t key).2)
  | .foreach, _, t => (.foreach (htForeach t (fun k v acc => acc ++ [(k, v)]) []), t)

/-- One step of a finite map from byte strings to byte strings.  A binding is refused only when an
allocation failed. -/
inductive MapStep (m : Bytes → Option Bytes) : HtOp → HtAnswer → (Bytes → Option Bytes) → Prop
  | set (key value allocs) :
      MapStep m (.set key value allocs) (.set true) (Function.update m key (some value))
  | setFails (key value) {allocs} (failed : allocs ≠ allDelivered) :
      MapStep m (.set key value allocs) (.set false) m
  | get (key destSize) : MapStep m (.get key destSize) (.get ((m key).map (List.take destSize))) m
  | delete (key) : MapStep m (.delete key) (.delete (m key).isSome) (Function.update m key none)
  | foreach {visited : List (Bytes × Bytes)} (once : (visited.map Prod.fst).Nodup)
      (all : ∀ k v, (k, v) ∈ visited ↔ m k = some v) : MapStep m .foreach (.foreach visited) m

/-- A run of the finite map from the empty map. -/
inductive MapRun : List (HtOp × HtAnswer) → (Bytes → Option Bytes) → Prop
  | nil : MapRun [] (fun _ => none)
  | snoc {log : List (HtOp × HtAnswer)} {m m' : Bytes → Option Bytes} {op : HtOp} {a : HtAnswer} :
      MapRun log m → MapStep m op a m' → MapRun (log ++ [(op, a)]) m'

namespace HashTable

theorem visited_eq (t : HashTable Bytes) :
    htForeach t (fun k v acc => acc ++ [(k, v)]) [] = t.entries.map (fun e => (e.key, e.value)) := by
  rw [htForeach_eq]
  have : ∀ (l : List (Entry Bytes)) (acc : List (Bytes × Bytes)),
      l.foldl (fun acc e => acc ++ [(e.key, e.value)]) acc =
        acc ++ l.map (fun e => (e.key, e.value)) := by
    intro l
    induction l with
    | nil => simp
    | cons e l ih =>
        intro acc
        rw [List.foldl_cons, ih]
        simp
  simpa using this t.entries []

/-- One call of the table is one step of the map it holds. -/
theorem run_mapStep {t t' : HashTable Bytes} (hw : t.WF) {op : HtOp} {a : HtAnswer}
    (h : op.run () t = (a, t')) : Follows t t' ∧ MapStep (htGet t) op a (htGet t') := by
  cases op with
  | set key value allocs =>
      obtain ⟨rfl, rfl⟩ := Prod.mk.inj h.symm
      obtain ⟨h1, h2⟩ := htSet_spec hw key value allocs
      refine ⟨h1, ?_⟩
      rw [h2]
      cases hok : (htSet t key value allocs).1 with
      | true => exact .set key value allocs
      | false =>
          apply MapStep.setFails key value
          rintro rfl
          rw [htSet_allDelivered] at hok
          exact Bool.noConfusion hok
  | get key destSize =>
      obtain ⟨rfl, rfl⟩ := Prod.mk.inj h.symm
      exact ⟨⟨hw, rfl, rfl⟩, .get key destSize⟩
  | delete key =>
      obtain ⟨rfl, rfl⟩ := Prod.mk.inj h.symm
      obtain ⟨h1, h2, h3⟩ := htDelete_spec hw key
      refine ⟨h1, ?_⟩
      rw [h2, h3]
      exact .delete key
  | foreach =>
      obtain ⟨rfl, rfl⟩ := Prod.mk.inj h.symm
      refine ⟨⟨hw, rfl, rfl⟩, ?_⟩
      rw [visited_eq]
      refine .foreach ?_ fun k v => ?_
      · rw [List.map_map]
        exact hw.nodup
      · rw [htGet_eq_some_iff hw, List.mem_map]
        simp only [Prod.mk.injEq, Binds]

/-- A run of a created table is a run of the map, and keeps the invariant. -/
theorem run_mapRun {cap : ℕ} {hash : Bytes → UInt64 → UInt64} {seed : UInt64}
    {tableOk poolOk : Bool} {t₀ t : HashTable Bytes} {log : List (HtOp × HtAnswer)}
    (hc : htCreate cap hash seed tableOk poolOk = some t₀) (hr : Run HtOp.run () t₀ log t) :
    MapRun log (htGet t) ∧ Follows t₀ t := by
  obtain ⟨hw₀, hnil⟩ := htCreate_wf hc
  refine hr.invariant (I := fun log t => MapRun log (htGet t) ∧ Follows t₀ t) ?_ ?_
  · refine ⟨?_, hw₀, rfl, rfl⟩
    rw [htGet_of_entries_nil hw₀ hnil]
    exact .nil
  · rintro log s op a s' ⟨hm, hf⟩ hs
    obtain ⟨h1, h2⟩ := run_mapStep hf.wf hs
    exact ⟨hm.snoc h2, h1.wf, h1.seed.trans hf.seed, h1.hashFunction.trans hf.hashFunction⟩

/-- **The table refines a finite map.**  Every run of a created table is a run of the map from
the empty map, answer by answer; and the table it leaves has as many entries as the map has
bindings, no key twice, every cached hash equal to the hash of its key, fewer entries than
buckets, and (below `2^32` buckets) every entry in the bucket `hash mod capacity`. -/
theorem htRun_refines {cap : ℕ} {hash : Bytes → UInt64 → UInt64} {seed : UInt64}
    {tableOk poolOk : Bool} {t₀ t : HashTable Bytes} {log : List (HtOp × HtAnswer)}
    (hc : htCreate cap hash seed tableOk poolOk = some t₀) (hr : Run HtOp.run () t₀ log t) :
    MapRun log (htGet t) ∧
      t.size = {k | (htGet t k).isSome = true}.ncard ∧
      (t.entries.map Entry.key).Nodup ∧
      (∀ e ∈ t.entries, e.hash = hash e.key seed) ∧
      t.size < t.capacity ∧
      (t.capacity < 2 ^ 32 → ∀ i, ∀ e ∈ bucket t.pool i, i = e.hash.toNat % t.capacity) := by
  have hseed : t₀.seed = seed ∧ t₀.hashFunction = hash := by
    unfold htCreate at hc
    split_ifs at hc <;> obtain rfl := Option.some.inj hc <;> exact ⟨rfl, rfl⟩
  obtain ⟨hm, hf⟩ := run_mapRun hc hr
  have hw := hf.wf
  refine ⟨hm, hw.size_eq_ncard, hw.nodup, ?_, hw.size_lt, ?_⟩
  · intro e he
    rw [hw.hash_eq e he]
    unfold hashOf
    rw [hf.seed, hf.hashFunction, hseed.1, hseed.2]
  · intro hcap i e he
    rw [← hw.placed i e he]
    exact bucketIndex_eq_mod hw.capacity_pos hcap e.hash

/-- A table of one bucket, which the first insertion resizes. -/
theorem htRun_refines_resize : ∃ t : HashTable Bytes, t.capacity = 3 ∧ t.size = 1 ∧
    MapRun [(.set [1] [5, 6] ⟨true, true, true, true, true⟩, .set true),
      (.get [1] 1, .get (some [5])), (.delete [2], .delete false)] (htGet t) :=
  ⟨_, rfl, rfl, (@htRun_refines 1 (fun k _ => UInt64.ofNat k.length) 7 true true _ _ _ rfl
    (.snoc (.snoc (.snoc .nil rfl) rfl) rfl)).1⟩

end HashTable
end Segnalacity
