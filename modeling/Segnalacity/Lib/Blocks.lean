import Mathlib.Logic.Function.Basic
import Mathlib.Data.List.Basic

/-! # Programs on a heap of blocks

Blocks are numbered in the order of their allocation and hold one value each.  A number is given
once, so a pointer to a block that has been freed is recognised: to read, write or free it has no
outcome (`none`).

* `Edit h h' p o`: the two heaps differ in the block `p` only, which `h'` has as `o`.
* `Cmd.Ends c h Q`: from the heap `h` the program `c` ends without such an access, and its result
  and heap satisfy `Q`.  There is one rule for each primitive, and `Ends.bind` for sequences.
* `Trades own own' h h'`: between the two heaps the blocks `own` have been given up for the blocks
  `own'`, and nothing else has been touched.  Trades are composed (`Trades.trans`); one that begins
  and ends with nothing leaves the heap as it was (`Trades.block_eq`). -/

namespace Blocks

structure Heap (β : Type) where
  block : ℕ → Option β
  fresh : ℕ

section
variable {β α γ : Type} {h h' : Heap β} {b b' : β} {o : Option β} {p x : ℕ}

namespace Heap

/-- A new block. -/
def push (h : Heap β) (b : β) : Heap β :=
  ⟨Function.update h.block h.fresh (some b), h.fresh + 1⟩

def put (h : Heap β) (p : ℕ) (b : β) : Heap β := ⟨Function.update h.block p (some b), h.fresh⟩

def drop (h : Heap β) (p : ℕ) : Heap β := ⟨Function.update h.block p none, h.fresh⟩

/-- The numbers from `fresh` on are not in use. -/
def Sound (h : Heap β) : Prop := ∀ x, h.fresh ≤ x → h.block x = none

theorem Sound.lt (hs : h.Sound) (hx : h.block x = some b) : x < h.fresh := by
  by_contra hno
  rw [hs x (by omega)] at hx
  cases hx

end Heap

/-- A block that is there is not one that is not. -/
theorem ne_of_block (hx : h.block x = some b) (hp : h.block p = none) : x ≠ p := by
  rintro rfl
  rw [hx] at hp
  cases hp

/-- The heaps differ in one block only. -/
structure Edit (h h' : Heap β) (p : ℕ) (o : Option β) : Prop where
  self : h'.block p = o
  other : ∀ x, x ≠ p → h'.block x = h.block x
  sound : h'.Sound

theorem Edit.kept (he : Edit h h' p o) (hne : x ≠ p) (hx : h.block x = some b) :
    h'.block x = some b := (he.other x hne).trans hx

theorem edit_push (hs : h.Sound) : Edit h (h.push b) h.fresh (some b) := by
  refine ⟨Function.update_self _ _ _, fun x hx => Function.update_of_ne hx _ _, fun x hx => ?_⟩
  have hlt : h.fresh < x := hx
  exact (Function.update_of_ne (by omega) _ _).trans (hs x (by omega))

theorem edit_put (hs : h.Sound) (hp : h.block p = some b') : Edit h (h.put p b) p (some b) := by
  refine ⟨Function.update_self _ _ _, fun x hx => Function.update_of_ne hx _ _, fun x hx => ?_⟩
  have hlt := hs.lt hp
  have hle : h.fresh ≤ x := hx
  exact (Function.update_of_ne (by omega) _ _).trans (hs x hle)

theorem edit_drop (hs : h.Sound) : Edit h (h.drop p) p none := by
  refine ⟨Function.update_self _ _ _, fun x hx => Function.update_of_ne hx _ _, fun x hx => ?_⟩
  by_cases hxp : x = p
  · rw [hxp]
    exact Function.update_self _ _ _
  · exact (Function.update_of_ne hxp _ _).trans (hs x hx)

/-! ### Programs -/

/-- A program on the heap; `none` is an access to a block that is not allocated. -/
def Cmd (β α : Type) := Heap β → Option (α × Heap β)

namespace Cmd

instance : Monad (Cmd β) where
  pure a := fun h => some (a, h)
  bind c f := fun h => (c h).bind fun r => f r.1 r.2

def alloc (b : β) : Cmd β ℕ := fun h => some (h.fresh, h.push b)

def read (p : ℕ) : Cmd β β := fun h => (h.block p).map fun b => (b, h)

def write (p : ℕ) (b : β) : Cmd β Unit := fun h => (h.block p).map fun _ => ((), h.put p b)

def free (p : ℕ) : Cmd β Unit := fun h => (h.block p).map fun _ => ((), h.drop p)

/-- The value that has to be there. -/
def need (o : Option α) : Cmd β α := fun h => o.map fun a => (a, h)

/-- The program ends without an access to a block that is not allocated, and as `Q` says. -/
def Ends (c : Cmd β α) (h : Heap β) (Q : α → Heap β → Prop) : Prop :=
  ∃ a h', c h = some (a, h') ∧ Q a h'

variable {c : Cmd β α} {f : α → Cmd β γ} {Q : α → Heap β → Prop} {R : γ → Heap β → Prop} {a : α}

theorem Ends.bind (hc : Ends c h fun a h' => Ends (f a) h' R) : Ends (c >>= f) h R := by
  obtain ⟨a, h₁, hrun, r, h₂, hrun', hr⟩ := hc
  refine ⟨r, h₂, ?_, hr⟩
  show (c h).bind (fun r => f r.1 r.2) = _
  rw [hrun]
  exact hrun'

/-- What comes behind a program that is known to end. -/
theorem Ends.andThen (hc : Ends c h Q) (hf : ∀ a h', Q a h' → Ends (f a) h' R) :
    Ends (c >>= f) h R := by
  obtain ⟨a, h₁, hrun, hq⟩ := hc
  exact Ends.bind ⟨a, h₁, hrun, hf a h₁ hq⟩

theorem Ends.mono {Q' : α → Heap β → Prop} (hc : Ends c h Q) (hq : ∀ a h', Q a h' → Q' a h') :
    Ends c h Q' := by
  obtain ⟨a, h₁, hrun, hqa⟩ := hc
  exact ⟨a, h₁, hrun, hq a h₁ hqa⟩

theorem ends_pure (hq : Q a h) : Ends (pure a) h Q := ⟨a, h, rfl, hq⟩

theorem ends_read {Q : β → Heap β → Prop} (hb : h.block p = some b) (hq : Q b h) :
    Ends (read p) h Q := by
  refine ⟨b, h, ?_, hq⟩
  rw [read, hb, Option.map_some]

theorem ends_alloc {Q : ℕ → Heap β → Prop} (hs : h.Sound)
    (hq : ∀ p h', h.block p = none → Edit h h' p (some b) → Q p h') : Ends (alloc b) h Q :=
  ⟨h.fresh, h.push b, rfl, hq h.fresh (h.push b) (hs _ (Nat.le_refl _)) (edit_push hs)⟩

theorem ends_write {Q : Unit → Heap β → Prop} (hs : h.Sound) (hb : h.block p = some b')
    (hq : ∀ h', Edit h h' p (some b) → Q () h') : Ends (write p b) h Q := by
  refine ⟨(), h.put p b, ?_, hq _ (edit_put hs hb)⟩
  rw [write, hb, Option.map_some]

theorem ends_free {Q : Unit → Heap β → Prop} (hs : h.Sound) (hb : h.block p = some b)
    (hq : ∀ h', Edit h h' p none → Q () h') : Ends (free p) h Q := by
  refine ⟨(), h.drop p, ?_, hq _ (edit_drop hs)⟩
  rw [free, hb, Option.map_some]

theorem ends_need {o : Option α} (ho : o = some a) (hq : Q a h) : Ends (need o) h Q := by
  refine ⟨a, h, ?_, hq⟩
  rw [need, ho, Option.map_some]

end Cmd

/-! ### Ownership -/

/-- The blocks `own` are given up for the blocks `own'`; all others are left alone. -/
structure Trades (own own' : List ℕ) (h h' : Heap β) : Prop where
  outside : ∀ x, x ∉ own → x ∉ own' → h'.block x = h.block x
  freed : ∀ x ∈ own, x ∉ own' → h'.block x = none
  new : ∀ x ∈ own', x ∉ own → h.block x = none
  sound : h'.Sound

variable {own own' own'' : List ℕ}

theorem Trades.refl (hs : h.Sound) : Trades own own h h :=
  ⟨fun _ _ _ => rfl, fun _ hx hno => absurd hx hno, fun _ hx hno => absurd hx hno, hs⟩

theorem Trades.trans {h'' : Heap β} (h₁ : Trades own own' h h') (h₂ : Trades own' own'' h' h'') :
    Trades own own'' h h'' := by
  refine ⟨?_, ?_, ?_, h₂.sound⟩
  · intro x hx hx''
    by_cases hx' : x ∈ own'
    · rw [h₂.freed x hx' hx'', h₁.new x hx' hx]
    · rw [h₂.outside x hx' hx'', h₁.outside x hx hx']
  · intro x hx hx''
    by_cases hx' : x ∈ own'
    · exact h₂.freed x hx' hx''
    · rw [h₂.outside x hx' hx'', h₁.freed x hx hx']
  · intro x hx'' hx
    by_cases hx' : x ∈ own'
    · exact h₁.new x hx' hx
    · rw [← h₁.outside x hx hx', h₂.new x hx'' hx']

/-- Ownership does not depend on the order of the blocks. -/
theorem Trades.congr {own₁ own₂ : List ℕ} (ht : Trades own own' h h')
    (h₁ : ∀ x, x ∈ own₁ ↔ x ∈ own) (h₂ : ∀ x, x ∈ own₂ ↔ x ∈ own') : Trades own₁ own₂ h h' := by
  refine ⟨?_, ?_, ?_, ht.sound⟩
  · intro x hx hx'
    exact ht.outside x (fun hm => hx ((h₁ x).mpr hm)) fun hm => hx' ((h₂ x).mpr hm)
  · intro x hx hx'
    exact ht.freed x ((h₁ x).mp hx) fun hm => hx' ((h₂ x).mpr hm)
  · intro x hx' hx
    exact ht.new x ((h₂ x).mp hx') fun hm => hx ((h₁ x).mpr hm)

/-- Blocks that are not concerned may be owned besides. -/
theorem Trades.frame (ht : Trades own own' h h') (others : List ℕ) :
    Trades (own ++ others) (own' ++ others) h h' := by
  refine ⟨?_, ?_, ?_, ht.sound⟩
  · intro x hx hx'
    rw [List.mem_append, not_or] at hx hx'
    exact ht.outside x hx.1 hx'.1
  · intro x hx hx'
    rw [List.mem_append] at hx
    rw [List.mem_append, not_or] at hx'
    exact ht.freed x (hx.resolve_right hx'.2) hx'.1
  · intro x hx' hx
    rw [List.mem_append] at hx'
    rw [List.mem_append, not_or] at hx
    exact ht.new x (hx'.resolve_right hx.2) hx.1

/-- What keeps some blocks allocated keeps more of them allocated. -/
theorem Trades.widen (ht : Trades own own h h') (hsub : own ⊆ own') : Trades own' own' h h' :=
  ⟨fun x hx _ => ht.outside x (fun hm => hx (hsub hm)) fun hm => hx (hsub hm),
    fun _ hx hno => absurd hx hno, fun _ hx hno => absurd hx hno, ht.sound⟩

theorem Edit.trades_new (he : Edit h h' p o) (hp : h.block p = none) :
    Trades own (p :: own) h h' := by
  refine ⟨?_, ?_, ?_, he.sound⟩
  · intro x _ hx
    exact he.other x fun heq => hx (by simp [heq])
  · intro x hx hno
    exact absurd (List.mem_cons_of_mem _ hx) hno
  · intro x hx hno
    rcases List.mem_cons.mp hx with rfl | hx
    · exact hp
    · exact absurd hx hno

theorem Edit.trades_kept (he : Edit h h' p o) (hp : p ∈ own) : Trades own own h h' := by
  refine ⟨?_, ?_, ?_, he.sound⟩
  · intro x hx _
    exact he.other x fun heq => hx (by simpa [heq] using hp)
  · intro x hx hno
    exact absurd hx hno
  · intro x hx hno
    exact absurd hx hno

theorem Edit.trades_gone (he : Edit h h' p none) : Trades (p :: own) own h h' := by
  refine ⟨?_, ?_, ?_, he.sound⟩
  · intro x hx _
    exact he.other x fun heq => hx (by simp [heq])
  · intro x hx hno
    rcases List.mem_cons.mp hx with rfl | hx
    · exact he.self
    · exact absurd hx hno
  · intro x hx hno
    exact absurd (List.mem_cons_of_mem _ hx) hno

/-- Whoever had nothing and has nothing has left everything as it was. -/
theorem Trades.block_eq (ht : Trades [] [] h h') : h'.block = h.block :=
  funext fun x => ht.outside x List.not_mem_nil List.not_mem_nil

end

end Blocks
