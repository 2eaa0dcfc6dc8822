import Segnalacity.HashTable.Layout

/-! # The loops over all buckets

`ht_resize`, `ht_foreach` and `ht_destroy` walk over every chain of the table.  `ends_forBuckets` is
the rule for their outer loop: what one chain preserves is preserved by all of them.  Each inner
loop is followed by induction on the cells of its chain. -/

namespace Segnalacity

open CStr Buckets

namespace InMemory

open Blocks Blocks.Cmd

variable {h h' : HtHeap} {p q fuel newCap : ℕ} {t t' : TableBlock}
  {layout N l₁ l₂ : List (List Cell)} {c : Cell} {cs pre post : List Cell} {x : ℕ}

/-- What the walk over one chain preserves is preserved by the walk over the chains from `k` on. -/
theorem ends_forBuckets {α : Type} {pool k m : ℕ} {body : Option ℕ → HtCmd α} (done : List α)
    (I : ℕ → List α → HtHeap → Prop)
    (hstep : ∀ i done h, i < k + m → I i done h →
      Ends (readHead pool i) h fun e h₁ => Ends (body e) h₁ fun a h₂ => I (i + 1) (done ++ [a]) h₂)
    (h₀ : I k done h) :
    Ends (forBuckets pool body (List.range' k m)) h fun as h' => I (k + m) (done ++ as) h' := by
  induction m generalizing k done h with
  | zero =>
      apply ends_pure
      simpa using h₀
  | succ m ih =>
      refine (hstep k done h (by omega) h₀).andThen fun e h₁ hbody => ?_
      refine hbody.andThen fun a h₂ hnext => ?_
      have hrest := ih (done ++ [a]) (fun i done h hi hI => hstep i done h (by omega) hI) hnext
      refine hrest.andThen fun as h₃ hlast => ends_pure ?_
      rw [List.append_assoc, Nat.add_right_comm] at hlast
      exact hlast

/-! ### Moving the entries -/

/-- Where an entry goes. -/
def target (newCap : ℕ) (c : Cell) : ℕ := bucketIndex newCap c.entry.hash

/-- An array of buckets with the cells of its chains. -/
structure PoolAt (h : HtHeap) (q : ℕ) (N : List (List Cell)) : Prop where
  pool : h.block q = some (.pool (N.map fun cs => headOr cs none))
  chains : ∀ cs ∈ N, SegAt h cs none

theorem blocksOf_perm_of_perm {cs ds : List Cell} (hp : cs.Perm ds) :
    (blocksOf cs).Perm (blocksOf ds) := hp.flatMap_right _

theorem mem_blocksOf_flatten (hcs : cs ∈ N) (hx : x ∈ blocksOf cs) : x ∈ blocksOf N.flatten := by
  obtain ⟨c, hc, hxc⟩ := List.mem_flatMap.mp hx
  exact List.mem_flatMap.mpr ⟨c, List.mem_flatten.mpr ⟨cs, hcs, hc⟩, hxc⟩

theorem PoolAt.bucket (hN : PoolAt h q N) (i : ℕ) : SegAt h (bucket N i) none := by
  rcases Nat.lt_or_ge i N.length with hi | hi
  · rw [bucket_eq_getElem hi]
    exact hN.chains _ (List.getElem_mem hi)
  · rw [bucket_of_le hi]
    trivial

/-- What the first cell owns is apart from the array and from what the other cells own. -/
theorem cell_apart (hnodup : (blocksOf (c :: cs) ++ q :: blocksOf N.flatten).Nodup) :
    c.blocks.Nodup ∧ (∀ y ∈ c.blocks, y ≠ q ∧ y ∉ blocksOf cs ∧ y ∉ blocksOf N.flatten) ∧
      q ∉ blocksOf cs ∧ q ∉ blocksOf N.flatten := by
  obtain ⟨-, hq, hneq⟩ := List.nodup_append.mp hnodup
  rw [blocksOf_cons, List.append_assoc] at hnodup
  obtain ⟨hown, -, hne⟩ := List.nodup_append.mp hnodup
  refine ⟨hown, fun y hy => ⟨hne y hy q (by simp), fun hx => ?_, fun hx => ?_⟩, fun hx => ?_,
    (List.nodup_cons.mp hq).1⟩
  · exact hne y hy y (by simp [hx]) rfl
  · exact hne y hy y (by simp [hx]) rfl
  · exact hneq q (by simp [hx]) q (by simp) rfl

/-- Moving a cell from the chain into its bucket leaves the same blocks owned. -/
theorem pushFront_blocks_perm {i : ℕ} (hi : i < N.length) :
    (blocksOf (c :: cs) ++ q :: blocksOf N.flatten).Perm
      (blocksOf cs ++ q :: blocksOf (pushFront N i c).flatten) := by
  have hmoved := blocksOf_perm_of_perm (pushFront_perm hi c)
  refine List.Perm.trans ?_ ((hmoved.cons q).append_left (blocksOf cs)).symm
  rw [blocksOf_cons, blocksOf_cons, List.append_assoc]
  refine (List.perm_append_comm_assoc _ _ _).trans ?_
  have hmiddle : (c.blocks ++ q :: blocksOf N.flatten).Perm
      (q :: (c.blocks ++ blocksOf N.flatten)) := List.perm_middle
  exact hmiddle.append_left (blocksOf cs)

/-- The two stores that put a cell at the head of a bucket: its link, and the entry of the array. -/
structure Pushed (h h₂ : HtHeap) (q i : ℕ) (N : List (List Cell)) (c : Cell) : Prop where
  pool : h₂.block q = some (.pool ((pushFront N i c).map fun cs => headOr cs none))
  node : h₂.block c.node = some (.entry (c.block (headOr (bucket N i) none)))
  other : ∀ y, y ≠ c.node → y ≠ q → h₂.block y = h.block y

/-- What neither the cell nor the array owns has been left alone. -/
theorem Pushed.others {h₂ : HtHeap} {i : ℕ} (he : Pushed h h₂ q i N c)
    (hnodup : (blocksOf (c :: cs) ++ q :: blocksOf N.flatten).Nodup) {y : ℕ}
    (hy : y ∈ blocksOf cs ∨ y ∈ blocksOf N.flatten) : h₂.block y = h.block y := by
  obtain ⟨-, hapart, hqcs, hqN⟩ := cell_apart hnodup
  have hnode := hapart c.node (by simp [Cell.blocks])
  apply he.other
  · rintro rfl
    tauto
  · rintro rfl
    tauto

/-- The array of buckets with the cell in its new place. -/
theorem Pushed.poolAt {h₂ : HtHeap} {i : ℕ} {next : Option ℕ} (he : Pushed h h₂ q i N c)
    (hN : PoolAt h q N) (hc : CellAt h c next) (hi : i < N.length)
    (hnodup : (blocksOf (c :: cs) ++ q :: blocksOf N.flatten).Nodup) :
    PoolAt h₂ q (pushFront N i c) := by
  obtain ⟨hown, hapart, -, -⟩ := cell_apart hnodup
  have hfirst := (List.nodup_cons.mp hown).1
  have hkept : ∀ y ∈ [c.keyAt, c.valueAt], h₂.block y = h.block y := by
    intro y hy
    have hmem : y ∈ c.blocks := List.mem_cons_of_mem _ hy
    exact he.other y (fun heq => hfirst (heq ▸ hy)) (hapart y hmem).1
  refine ⟨he.pool, fun ds hds => ?_⟩
  rcases List.mem_or_eq_of_mem_set hds with hmem | rfl
  · apply (hN.chains ds hmem).congr
    intro y hy
    exact he.others hnodup (.inr (mem_blocksOf_flatten hmem hy))
  · refine ⟨⟨he.node, ?_, ?_⟩, ?_⟩
    · rw [hkept _ (by simp), hc.key]
    · rw [hkept _ (by simp), hc.value]
    · apply (hN.bucket i).congr
      intro y hy
      refine he.others hnodup (.inr (mem_blocksOf_flatten ?_ hy))
      rw [bucket_eq_getElem hi]
      exact List.getElem_mem hi

/-- The cells of a chain are put at the heads of the new buckets, one after the other. -/
theorem ends_moveChain (hs : h.Sound) (hN : PoolAt h q N) (hseg : SegAt h cs none)
    (hfuel : cs.length < fuel) (hidx : ∀ c ∈ cs, target newCap c < N.length)
    (hnodup : (blocksOf cs ++ q :: blocksOf N.flatten).Nodup) :
    Ends (moveChain q newCap fuel (headOr cs none)) h fun _ h' =>
      PoolAt h' q (cs.foldl (fun p c => pushFront p (target newCap c) c) N) ∧
        Trades (q :: blocksOf cs) (q :: blocksOf cs) h h' := by
  induction cs generalizing fuel h N with
  | nil =>
      obtain ⟨fuel, rfl⟩ := Nat.exists_eq_add_of_lt hfuel
      exact ends_pure ⟨hN, Trades.refl hs⟩
  | cons c cs ih =>
      obtain ⟨fuel, rfl⟩ : ∃ n, fuel = n + 1 := ⟨fuel - 1, by omega⟩
      obtain ⟨hc, hrest⟩ := hseg
      have hi : target newCap c < N.length := hidx c (by simp)
      have hhead : (N.map fun cs => headOr cs none)[target newCap c]? =
          some (headOr (bucket N (target newCap c)) none) := by
        simp [hi, bucket_eq_getElem]
      obtain ⟨-, hapart, -⟩ := cell_apart hnodup
      have hnq := (hapart c.node (by simp [Cell.blocks])).1
      refine (ends_readEntry hc.node (ends_readHead hN.pool hhead ?_).bind).bind
      refine (ends_write hs hc.node fun h₁ e₁ => ?_).bind
      refine (ends_writeHead e₁.sound (e₁.kept hnq.symm hN.pool) (by rw [List.length_map]; exact hi)
        fun h₂ e₂ => ?_).bind
      have he : Pushed h h₂ q (target newCap c) N c := by
        refine ⟨?_, e₂.kept hnq e₁.self, fun y hy hyq => ?_⟩
        · rw [e₂.self, pushFront, List.map_set]
          rfl
        · exact (e₂.other y hyq).trans (e₁.other y hy)
      have hrest₂ : SegAt h₂ cs none := hrest.congr fun y hy => he.others hnodup (.inl hy)
      have hidx₂ : ∀ d ∈ cs, target newCap d < (pushFront N (target newCap c) c).length := by
        intro d hd
        rw [pushFront, List.length_set]
        exact hidx d (by simp [hd])
      have hnodup₂ := (pushFront_blocks_perm hi).nodup_iff.mp hnodup
      refine (ih e₂.sound (he.poolAt hN hc hi hnodup) hrest₂ (by simpa using hfuel) hidx₂
        hnodup₂).mono fun _ h₃ hend => ?_
      obtain ⟨hN₃, htrade⟩ := hend
      refine ⟨hN₃, ?_⟩
      refine ((e₁.trades_kept (by simp [Cell.blocks])).trans (e₂.trades_kept (by simp))).trans ?_
      apply htrade.widen
      intro y
      simp only [blocksOf_cons, List.mem_append, List.mem_cons]
      tauto

/-! ### Chain by chain -/

theorem take_next {i : ℕ} (hi : i < layout.length) :
    (layout.take (i + 1)).flatten = (layout.take i).flatten ++ layout[i] := by
  rw [List.take_succ_eq_append_getElem hi, List.flatten_append, List.flatten_singleton]

theorem head_getElem {i : ℕ} (hi : i < layout.length) :
    (layout.map fun cs => headOr cs none)[i]? = some (headOr layout[i] none) := by
  simp [hi]

theorem blocks_take (i : ℕ) :
    (blocksOf (layout.take i).flatten).Sublist (blocksOf layout.flatten) :=
  (List.take_sublist _ _).flatten.flatMap _

/-- What a chain owns is not owned by the chains before it. -/
theorem later_apart (hn : (blocksOf layout.flatten).Nodup) {i : ℕ} (hi : i < layout.length) :
    (blocksOf layout[i]).Nodup ∧
      ∀ x ∈ blocksOf layout[i], x ∉ blocksOf (layout.take i).flatten := by
  have hsub : (blocksOf (layout.take (i + 1)).flatten).Nodup := hn.sublist (blocks_take _)
  rw [take_next hi, blocksOf_append] at hsub
  obtain ⟨-, hown, hne⟩ := List.nodup_append.mp hsub
  exact ⟨hown, fun x hx hx' => hne x hx' x hx rfl⟩

theorem length_le_flatten {i : ℕ} (hi : i < layout.length) :
    layout[i].length ≤ layout.flatten.length :=
  (List.sublist_flatten_of_mem (List.getElem_mem hi)).length_le

theorem Rep.nodup_blocks (hr : Rep h p t layout) : p ≠ t.pool ∧ p ∉ blocksOf layout.flatten ∧
    t.pool ∉ blocksOf layout.flatten ∧ (blocksOf layout.flatten).Nodup := by
  have hn := hr.nodup
  simp only [owned, List.nodup_cons, List.mem_cons, not_or] at hn
  tauto

theorem ends_moves (hr : Rep h p t layout)
    (hfuel : layout.flatten.length < fuel) (hcap : layout.length = t.capacity)
    (hidx : ∀ c ∈ layout.flatten, target newCap c < newCap) (hq : h.block q = none)
    (hedit : Edit h h' q (some (.pool (List.replicate newCap none)))) :
    Ends (forBuckets t.pool (moveChain q newCap fuel) (List.range t.capacity)) h' fun _ h'' =>
      PoolAt h'' q (redistribute (target newCap) newCap layout.flatten) ∧
        Trades (q :: blocksOf layout.flatten) (q :: blocksOf layout.flatten) h' h'' := by
  obtain ⟨hpq, hp, hpool, hnodup⟩ := hr.nodup_blocks
  have hqblocks : q ∉ blocksOf layout.flatten := fun hx =>
    hr.allocated (by simp [owned, hx]) hq
  have hpoolq : t.pool ≠ q := ne_of_block hr.pool hq
  rw [List.range_eq_range']
  refine (ends_forBuckets [] (fun i _ g =>
    PoolAt g q (redistribute (target newCap) newCap (layout.take i).flatten) ∧
      Trades (q :: blocksOf (layout.take i).flatten) (q :: blocksOf (layout.take i).flatten) h' g)
    ?_ ⟨⟨?_, ?_⟩, Trades.refl hedit.sound⟩).mono fun _ h'' hend => ?_
  · rintro i _ g hi ⟨hN, htrade⟩
    rw [Nat.zero_add, ← hcap] at hi
    obtain ⟨hown, hlater⟩ := later_apart hnodup hi
    have hkeep : ∀ x, x ≠ q → x ∉ blocksOf (layout.take i).flatten → g.block x = h.block x := by
      intro x hx hno
      have hout : x ∉ q :: blocksOf (layout.take i).flatten := by simp [hx, hno]
      exact (htrade.outside x hout hout).trans (hedit.other x hx)
    have hseg : SegAt g layout[i] none := by
      apply (hr.chains _ (List.getElem_mem hi)).congr
      intro x hx
      apply hkeep x _ (hlater x hx)
      rintro rfl
      exact hqblocks (mem_blocksOf_flatten (List.getElem_mem hi) hx)
    have hheads := (hkeep t.pool hpoolq fun hx => hpool ((blocks_take i).subset hx)).trans hr.pool
    refine ends_readHead hheads (head_getElem hi) ?_
    have hbefore : ∀ c ∈ (layout.take i).flatten, target newCap c < newCap := fun c hc =>
      hidx c ((List.take_sublist _ _).flatten.subset hc)
    have hplaced := blocksOf_perm_of_perm (redistribute_perm hbefore)
    refine (ends_moveChain htrade.sound hN hseg ?_ ?_ ?_).mono fun _ g' hend => ?_
    · exact (length_le_flatten hi).trans_lt hfuel
    · intro c hc
      rw [redistribute_length hbefore]
      exact hidx c (List.mem_flatten.mpr ⟨_, List.getElem_mem hi, hc⟩)
    · refine List.nodup_append.mpr ⟨hown, ?_, fun x hx y hy => ?_⟩
      · rw [(hplaced.cons q).nodup_iff, List.nodup_cons]
        refine ⟨fun hx => hqblocks ((blocks_take i).subset hx), ?_⟩
        exact hnodup.sublist (blocks_take i)
      · rw [(hplaced.cons q).mem_iff] at hy
        rintro rfl
        rcases List.mem_cons.mp hy with rfl | hy
        · exact hqblocks (mem_blocksOf_flatten (List.getElem_mem hi) hx)
        · exact hlater x hx hy
    · obtain ⟨hN', htrade'⟩ := hend
      rw [take_next hi]
      refine ⟨?_, ?_⟩
      · rw [redistribute, List.foldl_append]
        exact hN'
      · rw [blocksOf_append]
        refine (htrade.widen ?_).trans (htrade'.widen ?_) <;>
          · intro x
            simp only [List.mem_cons, List.mem_append]
            tauto
  · rw [hedit.self]
    simp [redistribute]
  · intro cs hcs
    simp only [redistribute, List.take_zero, List.flatten_nil, List.foldl_nil] at hcs
    rw [List.eq_of_mem_replicate hcs]
    trivial
  · rw [Nat.zero_add, ← hcap, List.take_length] at hend
    exact hend

/-- The entries of all chains are moved, and the old array gives way to the new one. -/
theorem ends_htResize (hr : Rep h p t layout) (hs : h.Sound)
    (hfuel : layout.flatten.length < fuel) (hcap : layout.length = t.capacity)
    (hpos : 0 < nextPrime (t.capacity * 2)) (ok : Bool) :
    Ends (htResize fuel p ok) h fun r h' => r = ok ∧
      ∃ t' layout', Rep h' p t' layout' ∧
        Trades (owned p t layout) (owned p t' layout') h h' ∧
        abstracted t' layout' =
          (Segnalacity.htResize (abstracted t layout) ok).getD (abstracted t layout) := by
  unfold htResize
  refine (ends_readTable hr.table ?_).bind
  cases ok with
  | false => exact ends_pure ⟨rfl, t, layout, hr, Trades.refl hs, rfl⟩
  | true =>
      set newCap := nextPrime (t.capacity * 2)
      have hidx : ∀ c ∈ layout.flatten, target newCap c < newCap := fun c _ =>
        HashTable.bucketIndex_lt hpos _
      refine (ends_alloc hs fun q h₁ hq e₁ => ?_).bind
      refine (ends_moves hr hfuel hcap hidx hq e₁).andThen fun _ h₂ hmoved => ?_
      obtain ⟨hN, htrade⟩ := hmoved
      obtain ⟨hpt, hp, hpool, hnodup⟩ := hr.nodup_blocks
      have hpq : p ≠ q := ne_of_block hr.table hq
      have htq : t.pool ≠ q := ne_of_block hr.pool hq
      have hqblocks : q ∉ blocksOf layout.flatten := fun hx =>
        hr.allocated (by simp [owned, hx]) hq
      have hkeep : ∀ x, x ≠ q → x ∉ blocksOf layout.flatten → h₂.block x = h.block x := by
        intro x hx hno
        have hout : x ∉ q :: blocksOf layout.flatten := by simp [hx, hno]
        exact (htrade.outside x hout hout).trans (e₁.other x hx)
      have hpool₂ := (hkeep t.pool htq hpool).trans hr.pool
      have htable₂ := (hkeep p hpq hp).trans hr.table
      refine (ends_free htrade.sound hpool₂ fun h₃ e₃ => ?_).bind
      refine (ends_write e₃.sound (e₃.kept hpt htable₂) fun h₄ e₄ => ends_pure ?_).bind
      have hplaced := blocksOf_perm_of_perm (redistribute_perm hidx)
      have hkeep₄ : ∀ x, x ≠ t.pool → x ≠ p → h₄.block x = h₂.block x := fun x hx hxp =>
        (e₄.other x hxp).trans (e₃.other x hx)
      refine ⟨rfl, { t with pool := q, capacity := newCap },
        redistribute (target newCap) newCap layout.flatten, ⟨e₄.self, ?_, ?_, ?_⟩, ?_, ?_⟩
      · exact (hkeep₄ q htq.symm hpq.symm).trans hN.pool
      · intro cs hcs
        apply (hN.chains cs hcs).congr
        intro x hx
        have hmem := hplaced.mem_iff.mp (mem_blocksOf_flatten hcs hx)
        apply hkeep₄ <;> rintro rfl
        · exact hpool hmem
        · exact hp hmem
      · rw [owned, ((hplaced.cons q).cons p).nodup_iff]
        simp only [List.nodup_cons, List.mem_cons, not_or]
        exact ⟨⟨hpq, hp⟩, hqblocks, hnodup⟩
      · have hnew : Trades (owned p t layout) (q :: owned p t layout) h h₁ := e₁.trades_new hq
        have hmoved : Trades (q :: owned p t layout) (q :: owned p t layout) h₁ h₂ := by
          apply htrade.widen
          intro x
          simp only [owned, List.mem_cons]
          tauto
        have hfree : Trades (q :: owned p t layout) (q :: p :: blocksOf layout.flatten) h₂ h₃ := by
          refine e₃.trades_gone.congr (fun x => ?_) fun x => Iff.rfl
          simp only [owned, List.mem_cons]
          tauto
        have hall := ((hnew.trans hmoved).trans hfree).trans (e₄.trades_kept (by simp))
        refine hall.congr (fun x => Iff.rfl) fun x => ?_
        simp only [owned, List.mem_cons, hplaced.mem_iff]
        tauto
      · have hmap := redistribute_map (n := newCap) Cell.entry
          (fun e => bucketIndex newCap e.hash) layout.flatten
        simp only [Segnalacity.htResize, if_true, Option.getD_some, HashTable.entries, abstracted,
          ← List.map_flatten]
        rw [← hmap]
        rfl

/-! ### Visiting the entries -/

theorem ends_visitChain (hseg : SegAt h cs none) (hfuel : cs.length < fuel) :
    Ends (visitChain fuel (headOr cs none)) h fun r h' =>
      r = cs.map (fun c => (c.entry.key, c.entry.value)) ∧ h' = h := by
  induction cs generalizing fuel with
  | nil =>
      obtain ⟨fuel, rfl⟩ := Nat.exists_eq_add_of_lt hfuel
      exact ends_pure ⟨rfl, rfl⟩
  | cons c cs ih =>
      obtain ⟨fuel, rfl⟩ : ∃ n, fuel = n + 1 := ⟨fuel - 1, by omega⟩
      obtain ⟨hc, hrest⟩ := hseg
      refine (ends_readEntry hc.node (ends_readBytes hc.key ?_).bind).bind
      refine (ends_readBytes hc.value ?_).bind
      refine (ih hrest (by simpa using hfuel)).andThen ?_
      rintro rest _ ⟨rfl, rfl⟩
      apply ends_pure
      simp [Cell.block]

theorem ends_htForeach (hr : Rep h p t layout) (hfuel : layout.flatten.length < fuel)
    (hcap : layout.length = t.capacity) :
    Ends (htForeach fuel p) h fun r h' =>
      r = layout.flatten.map (fun c => (c.entry.key, c.entry.value)) ∧ h' = h := by
  unfold htForeach
  refine (ends_readTable hr.table ?_).bind
  rw [List.range_eq_range']
  refine (ends_forBuckets [] (fun i done g => g = h ∧
    done.flatten = (layout.take i).flatten.map fun c => (c.entry.key, c.entry.value))
    ?_ ⟨rfl, rfl⟩).andThen ?_
  · rintro i done g hi ⟨rfl, hdone⟩
    rw [Nat.zero_add, ← hcap] at hi
    refine ends_readHead hr.pool (head_getElem hi) ?_
    have hseg := hr.chains _ (List.getElem_mem hi)
    refine (ends_visitChain hseg ((length_le_flatten hi).trans_lt hfuel)).mono ?_
    rintro visited _ ⟨rfl, rfl⟩
    refine ⟨rfl, ?_⟩
    rw [take_next hi, List.map_append, List.flatten_append, hdone, List.flatten_singleton]
  · rintro visited _ ⟨rfl, hvisited⟩
    rw [Nat.zero_add, ← hcap, List.take_length] at hvisited
    exact ends_pure ⟨hvisited, rfl⟩

/-! ### Freeing the entries -/

theorem ends_freeEntry {next : Option ℕ} (hs : h.Sound) (hc : CellAt h c next)
    (hown : c.blocks.Nodup) : Ends (freeEntry c.node) h fun _ h' => Trades c.blocks [] h h' := by
  simp only [Cell.blocks, List.nodup_cons, List.mem_cons, List.not_mem_nil, or_false, not_or,
    List.nodup_nil, and_true, not_false_eq_true] at hown
  obtain ⟨⟨hnk, hnv⟩, hkv⟩ := hown
  unfold freeEntry
  refine (ends_readEntry hc.node (ends_free hs hc.key fun h₁ e₁ => ?_).bind).bind
  refine (ends_free e₁.sound (e₁.kept (Ne.symm hkv) hc.value) fun h₂ e₂ => ?_).bind
  have hnode₂ := e₂.kept hnv (e₁.kept hnk hc.node)
  refine ends_free e₂.sound hnode₂ fun h₃ e₃ => ?_
  have hall : Trades [c.keyAt, c.valueAt, c.node] [] h h₃ :=
    (e₁.trades_gone.trans e₂.trades_gone).trans e₃.trades_gone
  refine hall.congr (fun x => ?_) fun x => Iff.rfl
  simp only [Cell.blocks, List.mem_cons]
  tauto

theorem ends_freeChain (hs : h.Sound) (hseg : SegAt h cs none) (hfuel : cs.length < fuel)
    (hnodup : (blocksOf cs).Nodup) :
    Ends (freeChain fuel (headOr cs none)) h fun _ h' => Trades (blocksOf cs) [] h h' := by
  induction cs generalizing fuel h with
  | nil =>
      obtain ⟨fuel, rfl⟩ := Nat.exists_eq_add_of_lt hfuel
      exact ends_pure (Trades.refl hs)
  | cons c cs ih =>
      obtain ⟨fuel, rfl⟩ : ∃ n, fuel = n + 1 := ⟨fuel - 1, by omega⟩
      obtain ⟨hc, hrest⟩ := hseg
      obtain ⟨hown, hnodup, hne⟩ := List.nodup_append.mp (blocksOf_cons ▸ hnodup)
      refine (ends_readEntry hc.node ?_).bind
      refine (ends_freeEntry hs hc hown).andThen fun _ h₁ htrade => ?_
      have hrest₁ : SegAt h₁ cs none := by
        apply hrest.congr
        intro x hx
        exact htrade.outside x (fun hx' => hne x hx' x hx rfl) List.not_mem_nil
      refine (ih htrade.sound hrest₁ (by simpa using hfuel) hnodup).mono fun _ h₂ htrade' => ?_
      exact (htrade.frame (blocksOf cs)).trans htrade'

/-- Everything that belongs to the table is freed. -/
theorem ends_htDestroy (hr : Rep h p t layout) (hs : h.Sound)
    (hfuel : layout.flatten.length < fuel) (hcap : layout.length = t.capacity) :
    Ends (htDestroy fuel p) h fun _ h' => Trades (owned p t layout) [] h h' := by
  obtain ⟨hpt, hp, hpool, hnodup⟩ := hr.nodup_blocks
  unfold htDestroy
  refine (ends_readTable hr.table ?_).bind
  rw [List.range_eq_range']
  refine (ends_forBuckets [] (fun i _ g => Trades (blocksOf (layout.take i).flatten) [] h g) ?_
    (Trades.refl hs)).andThen fun _ h₁ hfreed => ?_
  · intro i _ g hi htrade
    rw [Nat.zero_add, ← hcap] at hi
    obtain ⟨hown, hlater⟩ := later_apart hnodup hi
    have hheads : g.block t.pool = _ := (htrade.outside t.pool
      (fun hx => hpool ((blocks_take i).subset hx)) List.not_mem_nil).trans hr.pool
    have hseg : SegAt g layout[i] none := by
      apply (hr.chains _ (List.getElem_mem hi)).congr
      intro x hx
      exact htrade.outside x (hlater x hx) List.not_mem_nil
    refine ends_readHead hheads (head_getElem hi) ?_
    refine (ends_freeChain htrade.sound hseg ((length_le_flatten hi).trans_lt hfuel) hown).mono ?_
    intro _ g' htrade'
    rw [take_next hi, blocksOf_append]
    exact (htrade.frame (blocksOf layout[i])).trans htrade'
  · rw [Nat.zero_add, ← hcap, List.take_length] at hfreed
    have hpool₁ := (hfreed.outside t.pool hpool List.not_mem_nil).trans hr.pool
    have htable₁ := (hfreed.outside p hp List.not_mem_nil).trans hr.table
    refine (ends_free hfreed.sound hpool₁ fun h₂ e₂ => ?_).bind
    refine ends_free e₂.sound (e₂.kept hpt htable₁) fun h₃ e₃ => ?_
    have hall := ((hfreed.frame [t.pool, p]).trans e₂.trades_gone).trans e₃.trades_gone
    refine hall.congr (fun x => ?_) fun x => Iff.rfl
    simp only [owned, List.mem_append, List.mem_cons]
    tauto

end InMemory

end Segnalacity
