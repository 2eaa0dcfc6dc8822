import Segnalacity.HashTable.Heap

/-! # Where the entries of a table lie

A `Cell` is an entry with the numbers of its three blocks.  `Rep h p t layout`: in the heap `h` the
block `p` is a table whose chains are, bucket by bucket, the cells of `layout`, and no block belongs
to two of them.  `owned` lists the blocks of such a table, `abstracted` forgets where they are.

`Rep.replace` is the frame rule: when one bucket is rewritten and the blocks of the others are left
alone, the table stays represented. -/

namespace Segnalacity

open CStr Buckets

namespace InMemory

open Blocks Blocks.Cmd

/-- An entry with the numbers of its blocks. -/
structure Cell where
  node : ℕ
  keyAt : ℕ
  valueAt : ℕ
  entry : Entry Bytes

def Cell.blocks (c : Cell) : List ℕ := [c.node, c.keyAt, c.valueAt]

def Cell.block (c : Cell) (next : Option ℕ) : EntryBlock :=
  ⟨some c.keyAt, c.entry.key.length, some c.valueAt, c.entry.value.length, c.entry.hash, next⟩

/-- The pointer to the first cell, or to what stands behind an empty list. -/
def headOr : List Cell → Option ℕ → Option ℕ
  | [], tail => tail
  | c :: _, _ => some c.node

/-- The pointer to the last cell, or to what stands before an empty list. -/
def lastOr : Option ℕ → List Cell → Option ℕ
  | before, [] => before
  | _, c :: cs => lastOr (some c.node) cs

structure CellAt (h : HtHeap) (c : Cell) (next : Option ℕ) : Prop where
  node : h.block c.node = some (.entry (c.block next))
  key : h.block c.keyAt = some (.bytes c.entry.key)
  value : h.block c.valueAt = some (.bytes c.entry.value)

/-- The cells are linked, and the last one leads to `tail`. -/
def SegAt (h : HtHeap) : List Cell → Option ℕ → Prop
  | [], _ => True
  | c :: cs, tail => CellAt h c (headOr cs tail) ∧ SegAt h cs tail

/-- The blocks of some cells. -/
def blocksOf (cs : List Cell) : List ℕ := cs.flatMap Cell.blocks

def owned (p : ℕ) (t : TableBlock) (layout : List (List Cell)) : List ℕ :=
  p :: t.pool :: blocksOf layout.flatten

structure Rep (h : HtHeap) (p : ℕ) (t : TableBlock) (layout : List (List Cell)) : Prop where
  table : h.block p = some (.table t)
  pool : h.block t.pool = some (.pool (layout.map fun cs => headOr cs none))
  chains : ∀ cs ∈ layout, SegAt h cs none
  nodup : (owned p t layout).Nodup

/-- The table without its places. -/
def abstracted (t : TableBlock) (layout : List (List Cell)) : HashTable Bytes where
  pool := layout.map (List.map Cell.entry)
  size := t.size
  capacity := t.capacity
  seed := t.seed
  hashFunction := t.hashFunction

/-- The heap holds the table in the blocks `own`. -/
def Holds (h : HtHeap) (p : ℕ) (own : List ℕ) (T : HashTable Bytes) : Prop :=
  ∃ t layout, Rep h p t layout ∧ own = owned p t layout ∧ T = abstracted t layout

variable {h h' : HtHeap} {p : ℕ} {t t' : TableBlock} {layout l₁ l₂ : List (List Cell)} {c d : Cell}
  {cs pre post old new : List Cell} {tail next : Option ℕ} {x : ℕ}

/-! ### Segments -/

@[simp] theorem blocksOf_nil : blocksOf [] = [] := rfl

@[simp] theorem blocksOf_cons : blocksOf (c :: cs) = c.blocks ++ blocksOf cs := rfl

@[simp] theorem blocksOf_append : blocksOf (pre ++ post) = blocksOf pre ++ blocksOf post := by
  simp [blocksOf]

@[simp] theorem lastOr_concat (before : Option ℕ) :
    lastOr before (pre ++ [c]) = some c.node := by
  induction pre generalizing before with
  | nil => rfl
  | cons d pre ih => exact ih (some d.node)

@[simp] theorem headOr_nil : headOr [] tail = tail := rfl

@[simp] theorem headOr_cons : headOr (c :: cs) tail = some c.node := rfl

theorem headOr_append : headOr (pre ++ post) tail = headOr pre (headOr post tail) := by
  cases pre <;> rfl

theorem segAt_append :
    SegAt h (pre ++ post) tail ↔ SegAt h pre (headOr post tail) ∧ SegAt h post tail := by
  induction pre with
  | nil => simp [SegAt]
  | cons c pre ih => simp [SegAt, headOr_append, ih, and_assoc]

theorem CellAt.congr (hc : CellAt h c next) (heq : ∀ x ∈ c.blocks, h'.block x = h.block x) :
    CellAt h' c next := by
  refine ⟨?_, ?_, ?_⟩
  · rw [heq c.node (by simp [Cell.blocks]), hc.node]
  · rw [heq c.keyAt (by simp [Cell.blocks]), hc.key]
  · rw [heq c.valueAt (by simp [Cell.blocks]), hc.value]

/-- A segment depends on its own blocks only. -/
theorem SegAt.congr (hseg : SegAt h cs tail) (heq : ∀ x ∈ blocksOf cs, h'.block x = h.block x) :
    SegAt h' cs tail := by
  induction cs with
  | nil => trivial
  | cons c cs ih =>
      obtain ⟨hc, hrest⟩ := hseg
      refine ⟨hc.congr fun x hx => heq x (by simp [hx]), ih hrest fun x hx => heq x (by simp [hx])⟩

theorem CellAt.allocated (hc : CellAt h c next) (hx : x ∈ c.blocks) : h.block x ≠ none := by
  simp only [Cell.blocks, List.mem_cons, List.not_mem_nil, or_false] at hx
  rcases hx with rfl | rfl | rfl
  · simp [hc.node]
  · simp [hc.key]
  · simp [hc.value]

theorem SegAt.allocated (hseg : SegAt h cs tail) (hx : x ∈ blocksOf cs) : h.block x ≠ none := by
  induction cs with
  | nil => simp at hx
  | cons c cs ih =>
      rw [blocksOf_cons, List.mem_append] at hx
      cases hx with
      | inl hx => exact hseg.1.allocated hx
      | inr hx => exact ih hseg.2 hx

theorem SegAt.cell (hseg : SegAt h (pre ++ c :: post) tail) : CellAt h c (headOr post tail) :=
  (segAt_append.mp hseg).2.1

/-! ### Tables -/

theorem Rep.allocated (hr : Rep h p t layout) (hx : x ∈ owned p t layout) :
    h.block x ≠ none := by
  simp only [owned, List.mem_cons] at hx
  rcases hx with rfl | rfl | hx
  · simp [hr.table]
  · simp [hr.pool]
  · obtain ⟨c, hc, hxc⟩ := List.mem_flatMap.mp hx
    obtain ⟨cs, hcs, hcc⟩ := List.mem_flatten.mp hc
    apply (hr.chains cs hcs).allocated
    exact List.mem_flatMap.mpr ⟨c, hcc, hxc⟩

/-- What belongs to the table besides one bucket. -/
def besides (p : ℕ) (t : TableBlock) (l₁ l₂ : List (List Cell)) : List ℕ :=
  p :: t.pool :: (blocksOf l₁.flatten ++ blocksOf l₂.flatten)

theorem owned_perm : (owned p t (l₁ ++ cs :: l₂)).Perm (blocksOf cs ++ besides p t l₁ l₂) := by
  have hflat : blocksOf (l₁ ++ cs :: l₂).flatten =
      blocksOf l₁.flatten ++ (blocksOf cs ++ blocksOf l₂.flatten) := by
    simp
  rw [owned, besides, hflat]
  refine List.Perm.trans ?_ List.perm_append_comm
  simp only [List.cons_append, List.append_assoc]
  apply List.Perm.cons
  apply List.Perm.cons
  apply List.Perm.append_left
  exact List.perm_append_comm

theorem mem_owned_iff :
    x ∈ owned p t (l₁ ++ cs :: l₂) ↔ x ∈ blocksOf cs ∨ x ∈ besides p t l₁ l₂ := by
  rw [owned_perm.mem_iff, List.mem_append]

/-- One bucket is rewritten, and the blocks of the others are left alone. -/
theorem Rep.replace (hr : Rep h p t (l₁ ++ old :: l₂)) (htable : h'.block p = some (.table t'))
    (hpool : t'.pool = t.pool)
    (hheads : h'.block t.pool = some (.pool ((l₁ ++ new :: l₂).map fun cs => headOr cs none)))
    (heq : ∀ x ∈ blocksOf l₁.flatten ++ blocksOf l₂.flatten, h'.block x = h.block x)
    (hnew : SegAt h' new none) (hnodup : (blocksOf new ++ besides p t l₁ l₂).Nodup) :
    Rep h' p t' (l₁ ++ new :: l₂) := by
  have hown : owned p t' (l₁ ++ new :: l₂) = owned p t (l₁ ++ new :: l₂) := by
    rw [owned, owned, hpool]
  refine ⟨htable, by rw [hpool, hheads], ?_, ?_⟩
  · intro cs hcs
    simp only [List.mem_append, List.mem_cons] at hcs
    have hother : ∀ cs ∈ l₁ ++ l₂, SegAt h' cs none := by
      intro cs hcs
      have hmem : cs ∈ l₁ ++ old :: l₂ := by
        simp only [List.mem_append, List.mem_cons] at hcs ⊢
        tauto
      apply (hr.chains cs hmem).congr
      intro x hx
      apply heq
      obtain ⟨c, hc, hxc⟩ := List.mem_flatMap.mp hx
      rcases List.mem_append.mp hcs with hl | hl
      · apply List.mem_append_left
        exact List.mem_flatMap.mpr ⟨c, List.mem_flatten.mpr ⟨cs, hl, hc⟩, hxc⟩
      · apply List.mem_append_right
        exact List.mem_flatMap.mpr ⟨c, List.mem_flatten.mpr ⟨cs, hl, hc⟩, hxc⟩
    rcases hcs with hl | rfl | hl
    · exact hother cs (List.mem_append_left _ hl)
    · exact hnew
    · exact hother cs (List.mem_append_right _ hl)
  · rw [hown, owned_perm.nodup_iff]
    exact hnodup

/-- A heap with the same blocks holds the same table. -/
theorem Rep.congr (hr : Rep h p t layout) (heq : h'.block = h.block) : Rep h' p t layout := by
  refine ⟨by rw [heq, hr.table], by rw [heq, hr.pool], ?_, hr.nodup⟩
  intro cs hcs
  exact (hr.chains cs hcs).congr fun x _ => by rw [heq]

/-- The bucket that a key selects, between the others. -/
theorem exists_bucket {i : ℕ} (hi : i < layout.length) :
    ∃ l₁ cs l₂, layout = l₁ ++ cs :: l₂ ∧ l₁.length = i ∧ ∀ b, layout.set i b = l₁ ++ b :: l₂ := by
  refine ⟨layout.take i, layout[i], layout.drop (i + 1), ?_, ?_, ?_⟩
  · rw [List.getElem_cons_drop, List.take_append_drop]
  · simp only [List.length_take]
    omega
  · intro b
    rw [List.set_eq_take_append_cons_drop, if_pos hi]

/-! ### Reading -/

section reading
variable {T : TableBlock} {e : EntryBlock} {data key : Bytes} {heads : List (Option ℕ)} {i pool : ℕ}
  {v : Option ℕ}

theorem ends_readTable {Q : TableBlock → HtHeap → Prop} (hb : h.block p = some (.table t))
    (hq : Q t h) : Ends (readTable p) h Q :=
  (ends_read hb (ends_need rfl hq)).bind

theorem ends_readEntry {Q : EntryBlock → HtHeap → Prop} (hb : h.block p = some (.entry e))
    (hq : Q e h) : Ends (readEntry p) h Q :=
  (ends_read hb (ends_need rfl hq)).bind

theorem ends_readBytes {Q : Bytes → HtHeap → Prop} (hb : h.block p = some (.bytes data))
    (hq : Q data h) : Ends (readBytes (some p)) h Q :=
  (ends_need rfl (ends_read hb (ends_need rfl hq)).bind).bind

theorem ends_readHead {Q : Option ℕ → HtHeap → Prop} (hb : h.block pool = some (.pool heads))
    (hi : heads[i]? = some v) (hq : Q v h) : Ends (readHead pool i) h Q :=
  (ends_read hb (ends_need rfl (ends_need hi hq)).bind).bind

theorem ends_writeHead {Q : Unit → HtHeap → Prop} (hs : h.Sound)
    (hb : h.block pool = some (.pool heads)) (hi : i < heads.length)
    (hq : ∀ h', Edit h h' pool (some (.pool (heads.set i v))) → Q () h') :
    Ends (writeHead pool i v) h Q := by
  refine (ends_read hb (ends_need rfl (ends_need (List.getElem?_eq_getElem hi) ?_).bind).bind).bind
  exact ends_write hs hb hq

theorem ends_entryKeyEquals {Q : Bool → HtHeap → Prop} (hc : CellAt h c next)
    (hq : Q (decide (c.entry.key = key)) h) : Ends (entryKeyEquals (c.block next) key) h Q := by
  unfold entryKeyEquals
  by_cases hlen : (c.block next).keySize = key.length
  · rw [if_pos hlen]
    refine (ends_readBytes hc.key (ends_pure ?_)).bind
    rw [Cell.block, List.take_length]
    exact hq
  · rw [if_neg hlen]
    have hne : c.entry.key ≠ key := fun heq => hlen (congrArg List.length heq)
    apply ends_pure
    rw [decide_eq_false hne] at hq
    exact hq

/-- The search ends at the first entry with the key, or at the end of the chain. -/
theorem ends_findEntry {fuel : ℕ} {prev : Option ℕ} (hseg : SegAt h cs none)
    (hfuel : cs.length < fuel) :
    Ends (findEntry key fuel prev (headOr cs none)) h fun r h' => h' = h ∧
      ((r.2 = none ∧ ∀ c ∈ cs, c.entry.key ≠ key) ∨
        ∃ pre c post, cs = pre ++ c :: post ∧ (∀ d ∈ pre, d.entry.key ≠ key) ∧
          c.entry.key = key ∧ r = (lastOr prev pre, some c.node)) := by
  induction cs generalizing fuel prev with
  | nil =>
      obtain ⟨fuel, rfl⟩ := Nat.exists_eq_add_of_lt hfuel
      exact ends_pure ⟨rfl, .inl ⟨rfl, by simp⟩⟩
  | cons c cs ih =>
      obtain ⟨fuel, rfl⟩ : ∃ n, fuel = n + 1 := ⟨fuel - 1, by omega⟩
      obtain ⟨hc, hrest⟩ := hseg
      refine (ends_readEntry hc.node (ends_entryKeyEquals hc ?_).bind).bind
      by_cases hkey : c.entry.key = key
      · rw [decide_eq_true hkey]
        exact ends_pure ⟨rfl, .inr ⟨[], c, cs, rfl, by simp, hkey, rfl⟩⟩
      · rw [decide_eq_false hkey]
        refine (ih hrest (by simpa using hfuel)).mono ?_
        rintro r h' ⟨rfl, hr⟩
        refine ⟨rfl, ?_⟩
        rcases hr with ⟨hnone, hall⟩ | ⟨pre, d, post, rfl, hpre, hd, rfl⟩
        · exact .inl ⟨hnone, by simpa [hkey] using hall⟩
        · exact .inr ⟨c :: pre, d, post, rfl, by simpa [hkey] using hpre, hd, rfl⟩

end reading

end InMemory

end Segnalacity
