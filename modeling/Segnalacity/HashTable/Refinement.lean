import Segnalacity.HashTable.Walks

/-! # The table in memory is the table of lists

Every function of `Heap` does on a represented table what the function of the same name in `Table`
does on the lists, without an access to a block that is not there, and the blocks that it frees and
allocates are those by which the table changes (`ends_htSet`, `ends_htGet`, `ends_htDelete`,
`ends_htForeach`).  From the creation of a table to its end the answers are those of the lists, and
the heap is in the end what it was in the beginning: `table_memory_safe`. -/

namespace Segnalacity

open CStr Buckets StateProg HashTable

namespace InMemory

open Blocks Blocks.Cmd

variable {h h' : HtHeap} {p fuel : ℕ} {t t' : TableBlock} {layout l₁ l₂ : List (List Cell)}
  {c : Cell} {cs pre post new : List Cell} {key value : Bytes} {x : ℕ}

/-! ### Chains and lists -/

theorem map_heads_getElem :
    ((l₁ ++ cs :: l₂).map fun cs => headOr cs none)[l₁.length]? = some (headOr cs none) := by
  simp

/-- The chain of a key, its place in the layout, and what bounds its length. -/
theorem lookup_chain (hw : (abstracted t layout).WF) (key : Bytes) :
    ∃ l₁ cs l₂, layout = l₁ ++ cs :: l₂ ∧
      l₁.length = bucketIndex t.capacity (t.hashFunction key t.seed) ∧
      (abstracted t layout).indexOf key = l₁.length ∧
      (abstracted t layout).chain key = cs.map Cell.entry ∧ cs.length ≤ t.size := by
  have hlt := hw.indexOf_lt key
  rw [abstracted, List.length_map] at hlt
  obtain ⟨l₁, cs, l₂, rfl, hl, -⟩ := exists_bucket hlt
  refine ⟨l₁, cs, l₂, rfl, hl, hl.symm, ?_, ?_⟩
  · unfold chain bucket
    rw [show (abstracted t (l₁ ++ cs :: l₂)).indexOf key = l₁.length from hl.symm]
    simp [abstracted]
  · have hsize : t.size = _ := hw.size_eq
    rw [hsize]
    simp only [entries, abstracted, List.map_append, List.map_cons, List.flatten_append,
      List.flatten_cons, List.length_append, List.length_map]
    omega

theorem any_absent (hall : ∀ c ∈ cs, c.entry.key ≠ key) :
    (cs.map Cell.entry).any (fun e => keysEqual e.key key) = false := by
  simpa using hall

theorem any_present (hc : c.entry.key = key) :
    ((pre ++ c :: post).map Cell.entry).any (fun e => keysEqual e.key key) = true := by
  simp [hc]

theorem find_absent (hall : ∀ c ∈ cs, c.entry.key ≠ key) :
    (cs.map Cell.entry).find? (fun e => keysEqual e.key key) = none := by
  simpa [List.find?_eq_none] using hall

theorem find_present (hpre : ∀ d ∈ pre, d.entry.key ≠ key) (hc : c.entry.key = key) :
    ((pre ++ c :: post).map Cell.entry).find? (fun e => keysEqual e.key key) = some c.entry := by
  rw [List.map_append, List.find?_append, find_absent hpre]
  simp [hc]

theorem setValue_present (hpre : ∀ d ∈ pre, d.entry.key ≠ key) (hc : c.entry.key = key) :
    setValue key value ((pre ++ c :: post).map Cell.entry) =
      pre.map Cell.entry ++ { c.entry with value := value } :: post.map Cell.entry := by
  induction pre with
  | nil => simp [setValue, hc]
  | cons d pre ih =>
      have hd : d.entry.key ≠ key := hpre d (by simp)
      have hrest := ih fun d hd => hpre d (by simp [hd])
      simp [setValue, hd] at hrest ⊢
      exact hrest

theorem eraseP_present (hpre : ∀ d ∈ pre, d.entry.key ≠ key) (hc : c.entry.key = key) :
    ((pre ++ c :: post).map Cell.entry).eraseP (fun e => keysEqual e.key key) =
      (pre ++ post).map Cell.entry := by
  rw [List.map_append, List.eraseP_append_right]
  · simp [hc]
  · simpa using hpre

/-! ### Looking up -/

theorem take_smaller (v : Bytes) (n : ℕ) :
    v.take (if v.length < n then v.length else n) = v.take n := by
  split_ifs with hlt
  · rw [List.take_length, List.take_of_length_le (by omega)]
  · rfl

theorem ends_htGet (hw : (abstracted t layout).WF) (hr : Rep h p t layout) (hfuel : t.size < fuel)
    (destSize : ℕ) :
    Ends (htGet fuel p key destSize) h fun r h' =>
      r = htGetBytes (abstracted t layout) key destSize ∧ h' = h := by
  obtain ⟨l₁, cs, l₂, rfl, hl, -, hchain, hlen⟩ := lookup_chain hw key
  have hseg : SegAt h cs none := hr.chains cs (by simp)
  have hhead := @map_heads_getElem l₁ l₂ cs
  rw [hl] at hhead
  unfold htGet
  refine (ends_readTable hr.table (ends_readHead hr.pool hhead ?_).bind).bind
  refine (ends_findEntry hseg (by omega)).andThen ?_
  rintro ⟨prev, e⟩ _ ⟨rfl, hfound⟩
  unfold htGetBytes Segnalacity.htGet
  rw [hchain]
  rcases hfound with ⟨hnone, hall⟩ | ⟨pre, c, post, rfl, hpre, hc, hfound⟩
  · dsimp only at hnone
    subst hnone
    rw [find_absent hall]
    exact ends_pure ⟨rfl, rfl⟩
  · obtain ⟨-, rfl⟩ := Prod.mk.inj hfound
    have hcell := hseg.cell
    refine (ends_readEntry hcell.node (ends_readBytes hcell.value ?_).bind).bind
    rw [find_present hpre hc]
    exact ends_pure ⟨congrArg some (take_smaller c.entry.value destSize), rfl⟩

/-! ### Replacing a value -/

theorem blocksOf_perm (others : List ℕ) : (blocksOf (pre ++ c :: post) ++ others).Perm
    (c.blocks ++ (blocksOf pre ++ (blocksOf post ++ others))) := by
  simp only [blocksOf_append, blocksOf_cons, List.append_assoc]
  exact List.perm_append_comm_assoc _ _ _

/-- The cells of a table are apart from each other and from its other blocks. -/
theorem Rep.apart (hr : Rep h p t (l₁ ++ (pre ++ c :: post) :: l₂)) :
    (c.blocks ++ (blocksOf pre ++ (blocksOf post ++ besides p t l₁ l₂))).Nodup :=
  (blocksOf_perm _).nodup_iff.mp (owned_perm.nodup_iff.mp hr.nodup)

theorem Rep.bucket_apart (hr : Rep h p t (l₁ ++ cs :: l₂)) (hx : x ∈ blocksOf cs) :
    x ≠ p ∧ x ≠ t.pool := by
  obtain ⟨-, -, hne⟩ := List.nodup_append.mp (owned_perm.nodup_iff.mp hr.nodup)
  exact ⟨hne x hx p (by simp [besides]), hne x hx t.pool (by simp [besides])⟩

theorem Rep.besides_apart (hr : Rep h p t (l₁ ++ cs :: l₂))
    (hx : x ∈ blocksOf l₁.flatten ++ blocksOf l₂.flatten) :
    x ≠ p ∧ x ≠ t.pool ∧ x ∉ blocksOf cs := by
  obtain ⟨-, hn, hne⟩ := List.nodup_append.mp (owned_perm.nodup_iff.mp hr.nodup)
  simp only [besides, List.nodup_cons, List.mem_cons, not_or] at hn
  refine ⟨fun heq => hn.1.2 (heq ▸ hx), fun heq => hn.2.1 (heq ▸ hx), fun hx' => ?_⟩
  exact hne x hx' x (by simp only [besides, List.mem_cons]; tauto) rfl

theorem ends_setPresent {m : SetAllocs} (hr : Rep h p t (l₁ ++ (pre ++ c :: post) :: l₂))
    (hs : h.Sound) (value : Bytes) (hm : m.newValue = true) :
    Ends (setPresent c.node value m) h fun ok h' => ok = true ∧
      ∃ c' : Cell, c'.entry = { c.entry with value := value } ∧
        Rep h' p t (l₁ ++ (pre ++ c' :: post) :: l₂) ∧
        Trades (owned p t (l₁ ++ (pre ++ c :: post) :: l₂))
          (owned p t (l₁ ++ (pre ++ c' :: post) :: l₂)) h h' := by
  have hseg : SegAt h (pre ++ c :: post) none := hr.chains _ (by simp)
  obtain ⟨hseg₁, hseg₂⟩ := segAt_append.mp hseg
  have hcell := hseg.cell
  obtain ⟨hown, hrest, hdisj⟩ := List.nodup_append.mp hr.apart
  simp only [Cell.blocks, List.nodup_cons, List.mem_cons, List.not_mem_nil, or_false, not_or,
    List.nodup_nil, and_true, not_false_eq_true] at hown
  unfold setPresent
  rw [hm]
  refine (ends_alloc hs fun v h₁ hv e₁ => ?_).bind
  have hnode₁ := e₁.kept (ne_of_block hcell.node hv) hcell.node
  have hvalue₁ := e₁.kept (ne_of_block hcell.value hv) hcell.value
  refine (ends_readEntry hnode₁ (ends_free e₁.sound hvalue₁ fun h₂ e₂ => ?_).bind).bind
  have hnode₂ := e₂.kept (by tauto) hnode₁
  refine (ends_write e₂.sound hnode₂ fun h₃ e₃ => ends_pure ⟨rfl, ?_⟩).bind
  refine ⟨⟨c.node, c.keyAt, v, { c.entry with value := value }⟩, rfl, ?_, ?_⟩
  · -- whatever else the table owns has been left alone
    have hothers : ∀ x ∈ blocksOf pre ++ (blocksOf post ++ besides p t l₁ l₂),
        x ≠ v ∧ h₃.block x = h.block x := by
      intro x hx
      have hne := fun y hy => (hdisj y hy x hx).symm
      have hxv : x ≠ v := by
        rintro rfl
        refine hr.allocated (x := x) ?_ hv
        rw [mem_owned_iff]
        simp only [blocksOf_append, blocksOf_cons, List.mem_append] at hx ⊢
        tauto
      refine ⟨hxv, ?_⟩
      rw [e₃.other x (hne _ (by simp [Cell.blocks])), e₂.other x (hne _ (by simp [Cell.blocks])),
        e₁.other x hxv]
    simp only [List.mem_append, besides, List.mem_cons] at hothers
    refine hr.replace ?_ rfl ?_ ?_ ?_ ?_
    · rw [(hothers p (by tauto)).2, hr.table]
    · rw [(hothers t.pool (by tauto)).2, hr.pool]
      simp [headOr_append]
    · intro x hx
      rw [List.mem_append] at hx
      exact (hothers x (by tauto)).2
    · refine segAt_append.mpr ⟨?_, ⟨e₃.self, ?_, ?_⟩, ?_⟩
      · exact hseg₁.congr fun x hx => (hothers x (by tauto)).2
      · have hkey₁ := e₁.kept (ne_of_block hcell.key hv) hcell.key
        exact e₃.kept (by tauto) (e₂.kept (by tauto) hkey₁)
      · exact e₃.kept (ne_of_block hcell.node hv).symm
          (e₂.kept (ne_of_block hcell.value hv).symm e₁.self)
      · exact hseg₂.2.congr fun x hx => (hothers x (by tauto)).2
    · refine (blocksOf_perm _).nodup_iff.mpr (List.nodup_append.mpr ⟨?_, hrest, ?_⟩)
      · have := ne_of_block hcell.node hv
        have := ne_of_block hcell.key hv
        simp [Cell.blocks]
        tauto
      · intro y hy x hx
        simp only [Cell.blocks, List.mem_cons, List.not_mem_nil, or_false] at hy hdisj
        rcases hy with rfl | rfl | rfl
        · exact hdisj _ (by tauto) x hx
        · exact hdisj _ (by tauto) x hx
        · simp only [List.mem_append, besides, List.mem_cons] at hx
          exact (hothers x (by tauto)).1.symm
  · refine (e₁.trades_new hv).trans (Trades.trans ?_ (e₃.trades_kept ?_))
    · refine e₂.trades_gone.congr (fun x => ?_) fun x => Iff.rfl
      simp only [List.mem_cons, mem_owned_iff, blocksOf_append, blocksOf_cons, List.mem_append,
        Cell.blocks, List.not_mem_nil, or_false]
      tauto
    · simp [mem_owned_iff, Cell.blocks]

/-! ### Inserting -/

/-- Everything that `create_entry` allocates is delivered. -/
def AllDelivered (m : SetAllocs) : Prop :=
  m.entry = true ∧ m.entryKey = true ∧ m.entryValue = true

/-- An entry is made of three new blocks, or nothing remains of the attempt. -/
theorem ends_createEntry (hs : h.Sound) (key value : Bytes) (hash : UInt64) (m : SetAllocs) :
    Ends (createEntry key value hash m) h fun r h' =>
      (¬ AllDelivered m ∧ r = none ∧ Trades [] [] h h') ∨
        (AllDelivered m ∧ ∃ c : Cell, r = some c.node ∧ c.entry = ⟨key, value, hash⟩ ∧
          CellAt h' c none ∧ c.blocks.Nodup ∧ Trades [] c.blocks h h') := by
  unfold createEntry
  cases he : m.entry with
  | false => exact ends_pure (.inl ⟨by simp [AllDelivered, he], rfl, Trades.refl hs⟩)
  | true =>
      refine (ends_alloc hs fun e h₁ hnew₁ e₁ => ?_).bind
      have htrade₁ : Trades [] [e] h h₁ := e₁.trades_new hnew₁
      cases hk : m.entryKey with
      | false =>
          refine (ends_readEntry e₁.self (ends_pure (ends_pure ?_).bind).bind).bind
          refine (ends_free e₁.sound e₁.self fun h₂ e₂ => ?_).bind
          exact ends_pure (.inl ⟨by simp [AllDelivered, hk], rfl, htrade₁.trans e₂.trades_gone⟩)
      | true =>
          refine (ends_alloc e₁.sound fun k h₂ hnew₂ e₂ => ?_).bind
          have hne : e ≠ k := ne_of_block e₁.self hnew₂
          have hself₂ := e₂.kept hne e₁.self
          have htrade₂ : Trades [] [k, e] h h₂ := htrade₁.trans (e₂.trades_new hnew₂)
          refine (ends_write e₂.sound hself₂ fun h₃ e₃ => ?_).bind
          have hkey₃ := e₃.kept hne.symm e₂.self
          have htrade₃ := htrade₂.trans (e₃.trades_kept (by simp))
          cases hv : m.entryValue with
          | false =>
              refine (ends_readEntry e₃.self (ends_free e₃.sound hkey₃ fun h₄ e₄ => ?_).bind).bind
              have hself₄ := e₄.kept hne e₃.self
              refine (ends_pure (ends_free e₄.sound hself₄ fun h₅ e₅ => ?_).bind).bind
              exact ends_pure (.inl ⟨by simp [AllDelivered, hv], rfl,
                (htrade₃.trans e₄.trades_gone).trans e₅.trades_gone⟩)
          | true =>
              refine (ends_alloc e₃.sound fun v h₄ hnew₄ e₄ => ?_).bind
              have hne₁ : e ≠ v := ne_of_block e₃.self hnew₄
              have hne₂ : k ≠ v := ne_of_block hkey₃ hnew₄
              refine (ends_write e₄.sound (e₄.kept hne₁ e₃.self) fun h₅ e₅ => ends_pure ?_).bind
              refine .inr ⟨⟨he, hk, hv⟩, ⟨e, k, v, ⟨key, value, hash⟩⟩, rfl, rfl,
                ⟨e₅.self, ?_, ?_⟩, ?_, ?_⟩
              · exact e₅.kept hne.symm (e₄.kept hne₂ hkey₃)
              · exact e₅.kept hne₁.symm e₄.self
              · simp [Cell.blocks, hne, hne₁, hne₂]
              · have htrade₄ := htrade₃.trans (e₄.trades_new hnew₄)
                have htrade₅ := htrade₄.trans (e₅.trades_kept (by simp))
                refine htrade₅.congr (fun x => Iff.rfl) fun x => ?_
                simp only [Cell.blocks, List.mem_cons, List.not_mem_nil, or_false]
                tauto

/-- The blocks of a new entry are apart from everything that the table owns. -/
theorem Rep.apart_new {h₁ : HtHeap} {c : Cell} (hr : Rep h p t layout)
    (htrade : Trades [] c.blocks h h₁) :
    (∀ x ∈ c.blocks, ∀ y ∈ owned p t layout, x ≠ y) ∧
      ∀ x ∈ owned p t layout, h₁.block x = h.block x := by
  have hnew : ∀ x ∈ c.blocks, ∀ y ∈ owned p t layout, x ≠ y := by
    rintro x hx y hy rfl
    exact hr.allocated hy (htrade.new x hx List.not_mem_nil)
  refine ⟨hnew, fun x hx => ?_⟩
  exact htrade.outside x List.not_mem_nil fun hc => hnew x hc x hx rfl

/-- A new entry at the head of its bucket: the entry, the array and the table have been written. -/
theorem Rep.pushEntry {h₁ : HtHeap} {c : Cell} (hr : Rep h p t (l₁ ++ cs :: l₂))
    (htrade : Trades [] c.blocks h h₁) (hcell : CellAt h₁ c none) (hown : c.blocks.Nodup)
    (hnode : h'.block c.node = some (.entry (c.block (headOr cs none))))
    (hheads : h'.block t.pool =
      some (.pool ((l₁ ++ (c :: cs) :: l₂).map fun cs => headOr cs none)))
    (htable : h'.block p = some (.table { t with size := t.size + 1 }))
    (hkept : ∀ x, x ≠ c.node → x ≠ t.pool → x ≠ p → h'.block x = h₁.block x) :
    Rep h' p { t with size := t.size + 1 } (l₁ ++ (c :: cs) :: l₂) := by
  obtain ⟨hnew, hkeep⟩ := hr.apart_new htrade
  obtain ⟨hfirst, -⟩ := List.nodup_cons.mp hown
  have hfresh : ∀ x ∈ c.blocks, x ≠ t.pool ∧ x ≠ p := fun x hx =>
    ⟨hnew x hx t.pool (by simp [owned]), hnew x hx p (by simp [owned])⟩
  -- of the blocks that the table had, only the table itself and its array have changed
  have hothers : ∀ x, x ∈ blocksOf cs ∨ x ∈ blocksOf l₁.flatten ∨ x ∈ blocksOf l₂.flatten →
      h'.block x = h.block x := by
    intro x hx
    have hmem : x ∈ owned p t (l₁ ++ cs :: l₂) := by
      rw [mem_owned_iff]
      simp only [besides, List.mem_cons, List.mem_append]
      tauto
    obtain ⟨hxp, hxt⟩ : x ≠ p ∧ x ≠ t.pool := by
      rcases hx with hx | hx
      · exact hr.bucket_apart hx
      · obtain ⟨hxp, hxt, -⟩ := hr.besides_apart (List.mem_append.mpr hx)
        exact ⟨hxp, hxt⟩
    have hxc : x ≠ c.node := fun heq => hnew c.node (by simp [Cell.blocks]) x hmem heq.symm
    exact (hkept x hxc hxt hxp).trans (hkeep x hmem)
  refine hr.replace htable rfl hheads ?_ ⟨⟨hnode, ?_, ?_⟩, ?_⟩ ?_
  · intro x hx
    rw [List.mem_append] at hx
    exact hothers x (by tauto)
  · have hmem : c.keyAt ∈ c.blocks := by simp [Cell.blocks]
    rw [hkept _ ?_ (hfresh _ hmem).1 (hfresh _ hmem).2, hcell.key]
    rintro heq
    exact hfirst (by simp [heq])
  · have hmem : c.valueAt ∈ c.blocks := by simp [Cell.blocks]
    rw [hkept _ ?_ (hfresh _ hmem).1 (hfresh _ hmem).2, hcell.value]
    rintro heq
    exact hfirst (by simp [heq])
  · exact (hr.chains cs (by simp)).congr fun x hx => hothers x (.inl hx)
  · rw [blocksOf_cons, List.append_assoc]
    refine List.nodup_append.mpr ⟨hown, owned_perm.nodup_iff.mp hr.nodup, fun x hx y hy => ?_⟩
    exact hnew x hx y (mem_owned_iff.mpr (List.mem_append.mp hy))

theorem ends_insertNew {m : SetAllocs} {hash : UInt64} (hr : Rep h p t (l₁ ++ cs :: l₂))
    (hs : h.Sound) (hl : l₁.length = bucketIndex t.capacity hash) (key value : Bytes) :
    Ends (insertNew p key value hash m) h fun ok h' => ∃ t' new, Rep h' p t' (l₁ ++ new :: l₂) ∧
      Trades (owned p t (l₁ ++ cs :: l₂)) (owned p t' (l₁ ++ new :: l₂)) h h' ∧
      ((¬ AllDelivered m ∧ ok = false ∧ t' = t ∧ new = cs) ∨
        (AllDelivered m ∧ ok = true ∧ t' = { t with size := t.size + 1 } ∧
          new.map Cell.entry = ⟨key, value, hash⟩ :: cs.map Cell.entry)) := by
  have hhead := @map_heads_getElem l₁ l₂ cs
  rw [hl] at hhead
  unfold insertNew
  refine (ends_readTable hr.table ?_).bind
  refine (ends_createEntry hs key value hash m).andThen ?_
  rintro r h₁ (⟨hno, rfl, htrade⟩ | ⟨hall, c, rfl, hentry, hcell, hown, htrade⟩)
  · refine ends_pure ⟨t, cs, hr.congr htrade.block_eq, htrade.frame _, .inl ⟨hno, rfl, rfl, rfl⟩⟩
  · obtain ⟨hnew, hkeep⟩ := hr.apart_new htrade
    have hp : p ∈ owned p t (l₁ ++ cs :: l₂) := by simp [owned]
    have hpool : t.pool ∈ owned p t (l₁ ++ cs :: l₂) := by simp [owned]
    obtain ⟨hne, -, -, -⟩ := hr.nodup_blocks
    have hcp : c.node ≠ p := hnew c.node (by simp [Cell.blocks]) p hp
    have hct : c.node ≠ t.pool := hnew c.node (by simp [Cell.blocks]) t.pool hpool
    have hpool₁ := (hkeep t.pool hpool).trans hr.pool
    have htable₁ := (hkeep p hp).trans hr.table
    refine (ends_readEntry hcell.node (ends_readHead hpool₁ hhead ?_).bind).bind
    refine (ends_write htrade.sound hcell.node fun h₂ e₂ => ?_).bind
    refine (ends_writeHead e₂.sound (e₂.kept hct.symm hpool₁) (by rw [← hl]; simp)
      fun h₃ e₃ => ?_).bind
    have htable₃ := e₃.kept hne (e₂.kept hcp.symm htable₁)
    refine (ends_write e₃.sound htable₃ fun h₄ e₄ => ends_pure ?_).bind
    have hkept : ∀ x, x ≠ c.node → x ≠ t.pool → x ≠ p → h₄.block x = h₁.block x := by
      intro x hx₁ hx₂ hx₃
      rw [e₄.other x hx₃, e₃.other x hx₂, e₂.other x hx₁]
    have hheads : h₄.block t.pool =
        some (.pool ((l₁ ++ (c :: cs) :: l₂).map fun cs => headOr cs none)) := by
      refine e₄.kept hne.symm (e₃.self.trans ?_)
      rw [← hl]
      simp
    refine ⟨_, c :: cs, hr.pushEntry htrade hcell hown (e₄.kept hcp (e₃.kept hct e₂.self)) hheads
      e₄.self hkept, ?_, .inr ⟨hall, rfl, rfl, by simp [hentry]⟩⟩
    have hnode : c.node ∈ c.blocks ++ owned p t (l₁ ++ cs :: l₂) := by simp [Cell.blocks]
    have htrades := (((htrade.frame _).trans (e₂.trades_kept hnode)).trans
      (e₃.trades_kept (List.mem_append_right _ hpool))).trans
      (e₄.trades_kept (List.mem_append_right _ hp))
    refine htrades.congr (fun x => Iff.rfl) fun x => ?_
    show x ∈ owned p t (l₁ ++ (c :: cs) :: l₂) ↔ _
    rw [List.mem_append, mem_owned_iff, mem_owned_iff, blocksOf_cons, List.mem_append]
    tauto

/-! ### The functions -/

theorem length_layout (hw : (abstracted t layout).WF) : layout.length = t.capacity := by
  have := hw.length
  simpa [abstracted] using this

theorem length_flatten (hw : (abstracted t layout).WF) : layout.flatten.length = t.size := by
  have hsize : t.size = _ := hw.size_eq
  rw [hsize, entries, abstracted, ← List.map_flatten, List.length_map]

/-- A new entry goes to the head of its bucket, as on the lists. -/
theorem ends_insert (hw : (abstracted t layout).WF) (hr : Rep h p t layout) (hs : h.Sound)
    (key value : Bytes) (m : SetAllocs) :
    Ends (insertNew p key value (t.hashFunction key t.seed) m) h fun ok h' => ∃ own' T',
      Holds h' p own' T' ∧ Trades (owned p t layout) own' h h' ∧
      (ok, T') = match Segnalacity.createEntry key value (t.hashFunction key t.seed) m with
        | none => (false, abstracted t layout)
        | some e => (true, { abstracted t layout with
            pool := pushFront (abstracted t layout).pool
              (bucketIndex t.capacity (t.hashFunction key t.seed)) e
            size := t.size + 1 }) := by
  obtain ⟨l₁, cs, l₂, rfl, hl, -, -, -⟩ := lookup_chain hw key
  refine (ends_insertNew hr hs hl key value).mono fun ok h' hend => ?_
  obtain ⟨t', new, hr', htrade, hcase⟩ := hend
  refine ⟨_, _, ⟨t', _, hr', rfl, rfl⟩, htrade, ?_⟩
  unfold Segnalacity.createEntry
  rcases hcase with ⟨hno, rfl, rfl, rfl⟩ | ⟨hall, rfl, rfl, hnew⟩
  · rw [if_neg (show ¬ (m.entry = true ∧ m.entryKey = true ∧ m.entryValue = true) from hno)]
  · rw [if_pos (show m.entry = true ∧ m.entryKey = true ∧ m.entryValue = true from hall), ← hl]
    simp [abstracted, pushFront, bucket, hnew]

/-- What `ht_set` does when the key is absent: it makes room where there is none, and inserts. -/
theorem ends_absent (hw : (abstracted t layout).WF) (hr : Rep h p t layout) (hs : h.Sound)
    (hfuel : t.size < fuel) (key value : Bytes) (m : SetAllocs) :
    Ends (if t.size + 1 ≥ t.capacity then do
        let room ← htResize fuel p m.newPool
        if room then insertNew p key value (t.hashFunction key t.seed) m else pure false
      else do
        let room ← pure true
        if room then insertNew p key value (t.hashFunction key t.seed) m else pure false)
      h fun ok h' => ∃ own' T', Holds h' p own' T' ∧ Trades (owned p t layout) own' h h' ∧
        (ok, T') = htInsert (abstracted t layout) key value m := by
  unfold htInsert
  dsimp only
  by_cases hfull : t.size + 1 ≥ t.capacity
  · rw [if_pos hfull,
      if_pos (show (abstracted t layout).size + 1 ≥ (abstracted t layout).capacity from hfull)]
    have hpos : 0 < nextPrime (t.capacity * 2) := by
      have hcap : 0 < t.capacity := hw.capacity_pos
      have := le_nextPrime (t.capacity * 2)
      omega
    have hlong : layout.flatten.length < fuel := by
      rw [length_flatten hw]
      exact hfuel
    refine (ends_htResize hr hs hlong (length_layout hw) hpos m.newPool).andThen ?_
    rintro room h₁ ⟨rfl, t₁, layout₁, hr₁, htrade₁, hresized⟩
    cases hroom : m.newPool with
    | false =>
        rw [hroom] at hresized
        apply ends_pure
        exact ⟨_, _, ⟨t₁, layout₁, hr₁, rfl, rfl⟩, htrade₁, congrArg (Prod.mk false) hresized⟩
    | true =>
        rw [hroom] at hresized
        have hsome : Segnalacity.htResize (abstracted t layout) true =
            some (abstracted t₁ layout₁) := by
          rw [hresized]
          rfl
        obtain ⟨hw₁, -, -, -, hseed, hfun⟩ := htResize_spec hw hsome
        have hhash : t₁.hashFunction key t₁.seed = t.hashFunction key t.seed := by
          rw [show t₁.seed = t.seed from hseed, show t₁.hashFunction = t.hashFunction from hfun]
        rw [hsome, if_pos rfl, ← hhash]
        refine (ends_insert hw₁ hr₁ htrade₁.sound key value m).mono fun ok h₂ hend => ?_
        obtain ⟨own', T', hholds, htrade₂, heq⟩ := hend
        refine ⟨own', T', hholds, htrade₁.trans htrade₂, heq.trans ?_⟩
        rw [show (abstracted t layout).hashOf key = t₁.hashFunction key t₁.seed from hhash.symm]
        cases Segnalacity.createEntry key value (t₁.hashFunction key t₁.seed) m <;> rfl
  · rw [if_neg hfull,
      if_neg (show ¬ (abstracted t layout).size + 1 ≥ (abstracted t layout).capacity from hfull)]
    refine (ends_pure ((ends_insert hw hr hs key value m).mono fun ok h' hend => ?_)).bind
    obtain ⟨own', T', hholds, htrade, heq⟩ := hend
    refine ⟨own', T', hholds, htrade, heq.trans ?_⟩
    rw [show (abstracted t layout).hashOf key = t.hashFunction key t.seed from rfl]
    cases Segnalacity.createEntry key value (t.hashFunction key t.seed) m <;> rfl

theorem ends_htSet (hw : (abstracted t layout).WF) (hr : Rep h p t layout) (hs : h.Sound)
    (hfuel : t.size < fuel) (key value : Bytes) (m : SetAllocs) :
    Ends (htSet fuel p key value m) h fun ok h' => ∃ own' T', Holds h' p own' T' ∧
      Trades (owned p t layout) own' h h' ∧
      (ok, T') = Segnalacity.htSet (abstracted t layout) key value m := by
  obtain ⟨l₁, cs, l₂, rfl, hl, hindex, hchain, hlen⟩ := lookup_chain hw key
  have hseg : SegAt h cs none := hr.chains cs (by simp)
  have hhead := @map_heads_getElem l₁ l₂ cs
  rw [hl] at hhead
  unfold htSet
  refine (ends_readTable hr.table (ends_readHead hr.pool hhead ?_).bind).bind
  refine (ends_findEntry hseg (by omega)).andThen ?_
  rintro ⟨prev, e⟩ _ ⟨rfl, hfound⟩
  unfold Segnalacity.htSet
  rw [hchain]
  rcases hfound with ⟨hnone, hall⟩ | ⟨pre, c, post, rfl, hpre, hc, hfound⟩
  · -- the key is absent
    dsimp only at hnone
    subst hnone
    rw [any_absent hall, if_neg Bool.false_ne_true]
    exact ends_absent hw hr hs hfuel key value m
  · -- the key is present
    obtain ⟨-, rfl⟩ := Prod.mk.inj hfound
    rw [any_present hc, if_pos rfl, setValue_present hpre hc]
    cases hm : m.newValue with
    | false =>
        dsimp only
        rw [setPresent, hm]
        exact ends_pure ⟨_, _, ⟨t, _, hr, rfl, rfl⟩, Trades.refl hs, rfl⟩
    | true =>
        refine (ends_setPresent hr hs value hm).mono fun ok h' hend => ?_
        obtain ⟨rfl, c', hentry, hr', htrade⟩ := hend
        refine ⟨_, _, ⟨t, _, hr', rfl, rfl⟩, htrade, ?_⟩
        rw [hindex, if_pos rfl]
        simp [abstracted, hentry]

/-- The chain closes behind the entry, which is left as it was. -/
theorem ends_unlink (hr : Rep h p t (l₁ ++ (pre ++ c :: post) :: l₂)) (hs : h.Sound) :
    Ends (unlink t.pool l₁.length (lastOr none pre) (headOr post none)) h fun _ h' =>
      h'.block t.pool = some (.pool ((l₁ ++ (pre ++ post) :: l₂).map fun cs => headOr cs none)) ∧
        SegAt h' (pre ++ post) none ∧
        (∀ x, x ≠ t.pool → x ∉ blocksOf pre → h'.block x = h.block x) ∧ h'.Sound := by
  have hseg : SegAt h (pre ++ c :: post) none := hr.chains _ (by simp)
  obtain ⟨-, hpost⟩ := (segAt_append.mp hseg).2
  have hpool : t.pool ∉ blocksOf (pre ++ c :: post) := fun hx => by
    obtain ⟨-, -, hpool, -⟩ := hr.nodup_blocks
    have hmem : pre ++ c :: post ∈ l₁ ++ (pre ++ c :: post) :: l₂ := by simp
    exact hpool (mem_blocksOf_flatten hmem hx)
  rcases List.eq_nil_or_concat pre with rfl | ⟨pre', d, rfl⟩
  · refine ends_writeHead hs hr.pool (by simp) fun h₁ e₁ => ⟨?_, ?_, fun x hx _ => e₁.other x hx,
      e₁.sound⟩
    · rw [e₁.self]
      simp
    · apply hpost.congr
      intro x hx
      apply e₁.other
      rintro rfl
      exact hpool (by simp [hx])
  · simp only [List.concat_eq_append, List.append_assoc, List.cons_append, List.nil_append] at *
    obtain ⟨hpre, hd, -⟩ := segAt_append.mp hseg
    obtain ⟨hown, -, hne⟩ := List.nodup_append.mp hr.apart
    have hnode : d.node ∈ d.blocks := by simp [Cell.blocks]
    have hfirst := (List.nodup_cons.mp hown).1
    rw [lastOr_concat]
    refine (ends_readEntry hd.node (ends_write hs hd.node fun h₁ e₁ => ⟨?_, ?_, ?_, e₁.sound⟩)).bind
    · rw [e₁.other t.pool fun heq => hpool (by simp [heq, Cell.blocks]), hr.pool]
      simp [headOr_append]
    · refine segAt_append.mpr ⟨?_, ⟨e₁.self, ?_, ?_⟩, ?_⟩
      · apply hpre.congr
        intro x hx
        exact e₁.other x (hne _ hnode x (by simp [hx])).symm
      · exact (e₁.other _ fun heq => hfirst (by simp [← heq])).trans hd.key
      · exact (e₁.other _ fun heq => hfirst (by simp [← heq])).trans hd.value
      · apply hpost.congr
        intro x hx
        exact e₁.other x (hne _ hnode x (by simp [hx])).symm
    · intro x _ hx
      apply e₁.other
      rintro rfl
      exact hx (by simp [Cell.blocks])

theorem trades_unlinked (hs : h'.Sound)
    (hkept : ∀ x, x ≠ t.pool → x ∉ blocksOf pre → h'.block x = h.block x) :
    Trades (owned p t (l₁ ++ (pre ++ post) :: l₂)) (owned p t (l₁ ++ (pre ++ post) :: l₂)) h h' := by
  refine ⟨fun x hx _ => ?_, fun x hx hno => absurd hx hno, fun x hx hno => absurd hx hno, hs⟩
  simp only [mem_owned_iff, besides, blocksOf_append, List.mem_append, List.mem_cons, not_or] at hx
  exact hkept x hx.2.2.1 hx.1.1

theorem trades_dropped (htrade : Trades
    (c.blocks ++ (blocksOf pre ++ (blocksOf post ++ besides p t l₁ l₂)))
    (blocksOf pre ++ (blocksOf post ++ besides p t l₁ l₂)) h h') :
    Trades (owned p t (l₁ ++ (pre ++ c :: post) :: l₂))
      (owned p { t with size := t.size - 1 } (l₁ ++ (pre ++ post) :: l₂)) h h' := by
  refine htrade.congr (fun x => ?_) fun x => ?_
  · simp only [mem_owned_iff, blocksOf_append, blocksOf_cons, List.mem_append]
    tauto
  · show x ∈ owned p t (l₁ ++ (pre ++ post) :: l₂) ↔ _
    simp only [mem_owned_iff, blocksOf_append, List.mem_append]
    tauto

/-- An entry has been taken out of its chain, and the table has been written: what the table keeps
is as the unlinking has left it. -/
theorem Rep.dropEntry {h₁ : HtHeap} (hr : Rep h p t (l₁ ++ (pre ++ c :: post) :: l₂))
    (hheads : h₁.block t.pool =
      some (.pool ((l₁ ++ (pre ++ post) :: l₂).map fun cs => headOr cs none)))
    (hseg : SegAt h₁ (pre ++ post) none)
    (hkept₁ : ∀ x, x ≠ t.pool → x ∉ blocksOf pre → h₁.block x = h.block x)
    (htable : h'.block p = some (.table { t with size := t.size - 1 }))
    (hkept : ∀ x, x ∈ blocksOf pre ∨ x ∈ blocksOf post ∨ x = t.pool ∨ x ∈ blocksOf l₁.flatten ∨
      x ∈ blocksOf l₂.flatten → x ≠ p → h'.block x = h₁.block x) :
    Rep h' p { t with size := t.size - 1 } (l₁ ++ (pre ++ post) :: l₂) := by
  obtain ⟨hpt, -, -, -⟩ := hr.nodup_blocks
  obtain ⟨-, hrest, -⟩ := List.nodup_append.mp hr.apart
  refine hr.replace htable rfl ?_ ?_ ?_ ?_
  · exact (hkept t.pool (by tauto) hpt.symm).trans hheads
  · intro x hx
    obtain ⟨hxp, hxt, hxcs⟩ := hr.besides_apart hx
    rw [List.mem_append] at hx
    refine (hkept x (by tauto) hxp).trans (hkept₁ x hxt fun hx' => hxcs ?_)
    simp [hx']
  · apply hseg.congr
    intro x hx
    have hbucket : x ≠ p := by
      refine (hr.bucket_apart (x := x) ?_).1
      simp only [blocksOf_append, blocksOf_cons, List.mem_append] at hx ⊢
      tauto
    rw [blocksOf_append, List.mem_append] at hx
    exact hkept x (by tauto) hbucket
  · rw [blocksOf_append, List.append_assoc]
    exact hrest

/-- The entry is taken out of its chain, and its blocks are freed. -/
theorem ends_htDelete (hw : (abstracted t layout).WF) (hr : Rep h p t layout) (hs : h.Sound)
    (hfuel : t.size < fuel) (key : Bytes) :
    Ends (htDelete fuel p key) h fun ok h' => ∃ own' T', Holds h' p own' T' ∧
      Trades (owned p t layout) own' h h' ∧
      (ok, T') = Segnalacity.htDelete (abstracted t layout) key := by
  obtain ⟨l₁, cs, l₂, rfl, hl, hindex, hchain, hlen⟩ := lookup_chain hw key
  have hseg : SegAt h cs none := hr.chains cs (by simp)
  have hhead := @map_heads_getElem l₁ l₂ cs
  rw [hl] at hhead
  unfold htDelete
  refine (ends_readTable hr.table (ends_readHead hr.pool hhead ?_).bind).bind
  refine (ends_findEntry hseg (by omega)).andThen ?_
  rintro ⟨prev, e⟩ h₀ ⟨rfl, hfound⟩
  unfold Segnalacity.htDelete
  rw [hchain]
  rcases hfound with ⟨hnone, hall⟩ | ⟨pre, c, post, rfl, hpre, hc, hfound⟩
  · dsimp only at hnone
    subst hnone
    rw [any_absent hall, if_neg Bool.false_ne_true]
    exact ends_pure ⟨_, _, ⟨t, _, hr, rfl, rfl⟩, Trades.refl hs, rfl⟩
  · obtain ⟨rfl, rfl⟩ := Prod.mk.inj hfound
    rw [any_present hc, if_pos rfl, eraseP_present hpre hc, hindex]
    have hcell := hseg.cell
    obtain ⟨hown, -, hne⟩ := List.nodup_append.mp hr.apart
    refine (ends_readEntry hcell.node ?_).bind
    rw [← hl]
    refine (ends_unlink hr hs).andThen ?_
    rintro - h₁ ⟨hheads₁, hseg₁, hkept₁, hsound₁⟩
    -- the blocks of the entry have been left alone
    have hapart : ∀ x ∈ c.blocks, x ≠ t.pool ∧ x ∉ blocksOf pre := fun x hx =>
      ⟨hne x hx t.pool (by simp [besides]), fun hx' => hne x hx x (by simp [hx']) rfl⟩
    have hcell₁ := hcell.congr fun x hx => hkept₁ x (hapart x hx).1 (hapart x hx).2
    refine (ends_freeEntry hsound₁ hcell₁ hown).andThen fun _ h₂ htrade₂ => ?_
    have hkept₂ : ∀ x ∈ blocksOf pre ++ (blocksOf post ++ besides p t l₁ l₂),
        h₂.block x = h₁.block x := fun x hx =>
      htrade₂.outside x (fun hx' => hne x hx' x hx rfl) List.not_mem_nil
    simp only [List.mem_append, besides, List.mem_cons] at hkept₂
    obtain ⟨hpt, -, -, -⟩ := hr.nodup_blocks
    have hpre' : p ∉ blocksOf pre := fun hx => (hr.bucket_apart (by simp [hx])).1 rfl
    have htable₂ : h₂.block p = some (.table t) :=
      (hkept₂ p (by tauto)).trans ((hkept₁ p hpt hpre').trans hr.table)
    refine (ends_write htrade₂.sound htable₂ fun h₃ e₃ => ends_pure ?_).bind
    refine ⟨_, _, ⟨_, _, hr.dropEntry hheads₁ hseg₁ hkept₁ e₃.self fun x hx hxp => ?_, rfl, rfl⟩, ?_,
      by simp [abstracted]⟩
    · exact (e₃.other x hxp).trans (hkept₂ x (by tauto))
    · refine (trades_unlinked hsound₁ hkept₁).trans (trades_dropped ?_)
      exact (htrade₂.frame _).trans (e₃.trades_kept (by simp [besides]))

/-- A table is created in two blocks, or nothing remains of the attempt. -/
theorem ends_htCreate (hs : h.Sound) (capacity : ℕ) (hash : Bytes → UInt64 → UInt64)
    (seed : UInt64) (tableOk poolOk : Bool) :
    Ends (htCreate capacity hash seed tableOk poolOk) h fun r h' =>
      match (Segnalacity.htCreate capacity hash seed tableOk poolOk : Option (HashTable Bytes)) with
      | none => r = none ∧ Trades [] [] h h'
      | some T => ∃ p own, r = some p ∧ Holds h' p own T ∧ Trades [] own h h' := by
  unfold htCreate Segnalacity.htCreate
  cases tableOk with
  | false => exact ends_pure ⟨rfl, Trades.refl hs⟩
  | true =>
      refine (ends_alloc hs fun p h₁ hp e₁ => ?_).bind
      have htrade₁ : Trades [] [p] h h₁ := e₁.trades_new hp
      cases poolOk with
      | false =>
          refine (ends_free e₁.sound e₁.self fun h₂ e₂ => ends_pure ?_).bind
          exact ⟨rfl, htrade₁.trans e₂.trades_gone⟩
      | true =>
          refine (ends_alloc e₁.sound fun q h₂ hq e₂ => ?_).bind
          have hne : p ≠ q := ne_of_block e₁.self hq
          refine (ends_write e₂.sound (e₂.kept hne e₁.self) fun h₃ e₃ => ends_pure ?_).bind
          have htrade₃ : Trades [] [q, p] h h₃ :=
            (htrade₁.trans (e₂.trades_new hq)).trans (e₃.trades_kept (by simp))
          set cap := if capacity > 0 then capacity else htDefaultCapacity
          refine ⟨p, [p, q], rfl,
            ⟨⟨q, 0, cap, seed, hash⟩, List.replicate cap [], ⟨e₃.self, ?_, ?_, ?_⟩, ?_, ?_⟩,
            htrade₃.congr (fun x => Iff.rfl) fun x => ?_⟩
          · rw [e₃.kept hne.symm e₂.self]
            simp
          · intro cs hcs
            rw [List.eq_of_mem_replicate hcs]
            trivial
          · simp [owned, hne]
          · simp [owned]
          · simp [abstracted]
          · simp only [List.mem_cons]
            tauto

/-! ### Runs -/

variable {own : List ℕ} {T : HashTable Bytes}

theorem ends_runOp (hholds : Holds h p own T) (hw : T.WF) (hs : h.Sound) (hfuel : T.size < fuel)
    (op : HtOp) :
    Ends (runOp fuel p op) h fun a h' => ∃ own' T', Holds h' p own' T' ∧ Trades own own' h h' ∧
      (a, T') = op.run () T := by
  obtain ⟨t, layout, hr, rfl, rfl⟩ := hholds
  cases op with
  | set key value allocs =>
      refine (ends_htSet hw hr hs hfuel key value allocs).andThen fun ok h₁ hend => ends_pure ?_
      obtain ⟨own', T', hholds, htrade, heq⟩ := hend
      refine ⟨own', T', hholds, htrade, ?_⟩
      rw [HtOp.run, ← heq]
  | get key destSize =>
      refine (ends_htGet hw hr hfuel destSize).andThen ?_
      rintro r _ ⟨rfl, rfl⟩
      exact ends_pure ⟨_, _, ⟨t, layout, hr, rfl, rfl⟩, Trades.refl hs, rfl⟩
  | delete key =>
      refine (ends_htDelete hw hr hs hfuel key).andThen fun ok h₁ hend => ends_pure ?_
      obtain ⟨own', T', hholds, htrade, heq⟩ := hend
      refine ⟨own', T', hholds, htrade, ?_⟩
      rw [HtOp.run, ← heq]
  | «foreach» =>
      have hlong : layout.flatten.length < fuel := by
        rw [length_flatten hw]
        exact hfuel
      refine (ends_htForeach hr hlong (length_layout hw)).andThen ?_
      rintro r _ ⟨rfl, rfl⟩
      refine ends_pure ⟨_, _, ⟨t, layout, hr, rfl, rfl⟩, Trades.refl hs, ?_⟩
      rw [HtOp.run, visited_eq, entries, abstracted, ← List.map_flatten, List.map_map]
      rfl

theorem htInsert_size_le (T : HashTable Bytes) (key value : Bytes) (m : SetAllocs) :
    (htInsert T key value m).2.size ≤ T.size + 1 := by
  unfold htInsert Segnalacity.htResize Segnalacity.createEntry
  dsimp only
  split_ifs <;> simp

/-- An operation adds at most one entry. -/
theorem run_size_le (op : HtOp) (T : HashTable Bytes) : (op.run () T).2.size ≤ T.size + 1 := by
  cases op with
  | set key value allocs =>
      show (Segnalacity.htSet T key value allocs).2.size ≤ T.size + 1
      unfold Segnalacity.htSet
      split_ifs
      · exact Nat.le_succ _
      · exact Nat.le_succ _
      · exact htInsert_size_le T key value allocs
  | get key destSize => exact Nat.le_succ _
  | delete key =>
      show (Segnalacity.htDelete T key).2.size ≤ T.size + 1
      unfold Segnalacity.htDelete
      split_ifs
      · exact (Nat.sub_le _ _).trans (Nat.le_succ _)
      · exact Nat.le_succ _
  | «foreach» => exact Nat.le_succ _

/-- The operations of a run, one after the other, with as much fuel as the table can need. -/
theorem ends_runOps (hholds : Holds h p own T) (hw : T.WF) (hs : h.Sound) (ops : List HtOp)
    (hfuel : T.size + ops.length < fuel) :
    Ends (runOps fuel p ops) h fun log h' => ∃ own' T', Holds h' p own' T' ∧
      Trades own own' h h' ∧ (log, T') = Run.exec HtOp.run () T ops ∧ T'.WF ∧ T'.size < fuel := by
  induction ops generalizing h own T with
  | nil =>
      apply ends_pure
      exact ⟨own, T, hholds, Trades.refl hs, rfl, hw, hfuel⟩
  | cons op ops ih =>
      rw [List.length_cons] at hfuel
      refine (ends_runOp hholds hw hs (by omega) op).andThen fun a h₁ hend => ?_
      obtain ⟨own₁, T₁, hholds₁, htrade₁, heq₁⟩ := hend
      have hw₁ : T₁.WF := (run_mapStep hw heq₁.symm).1.wf
      have hsize : T₁.size ≤ T.size + 1 := by
        have := run_size_le op T
        rwa [← heq₁] at this
      refine (ih hholds₁ hw₁ htrade₁.sound (by omega)).andThen fun log h₂ hend => ends_pure ?_
      obtain ⟨own₂, T₂, hholds₂, htrade₂, heq₂, hw₂, hsize₂⟩ := hend
      refine ⟨own₂, T₂, hholds₂, htrade₁.trans htrade₂, ?_, hw₂, hsize₂⟩
      rw [Run.exec, ← heq₁, ← heq₂]

/-- From its creation to its destruction a table never touches a block that is not allocated,
whatever is done with it and whichever allocations fail: it answers as the lists do, hence as a
finite map, and in the end it has freed everything and touched nothing else. -/
theorem table_memory_safe {capacity : ℕ} {hash : Bytes → UInt64 → UInt64} {seed : UInt64}
    {tableOk poolOk : Bool} {ops : List HtOp} (hs : h.Sound) (hfuel : ops.length < fuel) :
    Ends (lifetime fuel capacity hash seed tableOk poolOk ops) h fun r h' =>
      h'.block = h.block ∧
        r = (Segnalacity.htCreate capacity hash seed tableOk poolOk).map
          (fun T => (Run.exec HtOp.run () T ops).1) ∧
        ∀ log, r = some log → log.map Prod.fst = ops ∧ ∃ m, MapRun log m := by
  unfold lifetime
  refine (ends_htCreate hs capacity hash seed tableOk poolOk).andThen fun r h₁ hcreated => ?_
  cases hT : (Segnalacity.htCreate capacity hash seed tableOk poolOk :
      Option (HashTable Bytes)) with
  | none =>
      rw [hT] at hcreated
      obtain ⟨rfl, htrade⟩ := hcreated
      exact ends_pure ⟨htrade.block_eq, rfl, by simp⟩
  | some T =>
      rw [hT] at hcreated
      obtain ⟨p, own, rfl, hholds, htrade₁⟩ := hcreated
      obtain ⟨hw, hnil⟩ := htCreate_wf hT
      have hsize : T.size = 0 := by rw [hw.size_eq, hnil, List.length_nil]
      refine (ends_runOps hholds hw htrade₁.sound ops (by omega)).andThen fun log h₂ hend => ?_
      obtain ⟨own', T', ⟨t, layout, hr, rfl, rfl⟩, htrade₂, heq, hw', hfuel'⟩ := hend
      have hlong : layout.flatten.length < fuel := by
        rw [length_flatten hw']
        exact hfuel'
      have hend := ends_htDestroy hr htrade₂.sound hlong (length_layout hw')
      refine hend.andThen fun _ h₃ hfreed => ?_
      have hall := (htrade₁.trans htrade₂).trans hfreed
      refine ends_pure ⟨hall.block_eq, ?_, ?_⟩
      · rw [Option.map_some, ← heq]
      · rintro log' hlog
        obtain rfl := Option.some.inj hlog
        have hrun := Run.of_exec HtOp.run () T ops
        rw [← heq] at hrun
        refine ⟨?_, _, (run_mapRun hT hrun).1⟩
        have hfst := Run.map_fst_exec HtOp.run () T ops
        rwa [← heq] at hfst

theorem table_memory_safe_small :
    Ends (lifetime 3 1 (fun k _ => UInt64.ofNat k.length) 7 true true
        [.set [1] [5, 6] allDelivered, .delete [1]])
      ⟨fun _ => none, 0⟩ fun r h' => h'.block = (fun _ => none) ∧
        r = some [(.set [1] [5, 6] allDelivered, .set true), (.delete [1], .delete true)] :=
  (table_memory_safe (h := ⟨fun _ => none, 0⟩) (fun _ _ => rfl) (by decide)).mono
    fun _ _ hend => ⟨hend.1, hend.2.1⟩

end InMemory

end Segnalacity
