import Mathlib.Data.List.Sort
import Mathlib.Algebra.Order.Group.Nat
import Mathlib.Logic.Function.Basic

/-! # Doubly linked lists in a heap

Nodes are numbered by age, and a new node goes to the front, so `next` always leads to an older
node and no walk along it comes back.

* `Threaded heap head member`: wherever a link leads there is a node that links back; the nodes
  that are no members have no links.
* `Listed` adds that only the first node has no predecessor, so that the list from `head` has
  every member (`Listed.chain`).
* `prepend` and `detach` put a node to the front and take one out.  Both keep `Threaded`; taking
  out keeps `Listed` when the node is a member.  A node without links passes for the only one, so
  taking out one that is no member leaves an empty list. -/

namespace Dll

structure Node where
  next : Option ℕ
  prev : Option ℕ
deriving DecidableEq, Repr

abbrev Heap := ℕ → Option Node

/-- From `cur`, whose predecessor is `prev`, the links lead through exactly these nodes. -/
def Chain (heap : Heap) : Option ℕ → Option ℕ → List ℕ → Prop
  | _, cur, [] => cur = none
  | prev, cur, p :: l => cur = some p ∧
      ∃ a, heap p = some a ∧ a.prev = prev ∧ Chain heap (some p) a.next l

structure Threaded (heap : Heap) (head : Option ℕ) (member : ℕ → Prop) : Prop where
  forward : ∀ p a q, heap p = some a → a.next = some q →
    q < p ∧ ∃ b, heap q = some b ∧ b.prev = some p
  backward : ∀ p a q, heap p = some a → a.prev = some q → ∃ b, heap q = some b ∧ b.next = some p
  start : ∀ p, head = some p → member p ∧ ∃ a, heap p = some a ∧ a.prev = none
  mem : ∀ p, member p → ∃ a, heap p = some a
  apart : ∀ p a, heap p = some a → ¬ member p → a = ⟨none, none⟩

structure Listed (heap : Heap) (head : Option ℕ) (member : ℕ → Prop) : Prop extends
    Threaded heap head member where
  first : ∀ p a, member p → heap p = some a → a.prev = none → head = some p

/-! ### The list -/

section chain
variable {heap : Heap} {head : Option ℕ} {member : ℕ → Prop}

/-- What a link leads to is a member. -/
theorem Threaded.member_next (h : Threaded heap head member) {p q : ℕ} {a : Node}
    (hp : heap p = some a) (hq : a.next = some q) : member q := by
  obtain ⟨-, b, hb, hback⟩ := h.forward p a q hp hq
  by_contra hno
  rw [h.apart q b hb hno] at hback
  cases hback

theorem Threaded.member_prev (h : Threaded heap head member) {p q : ℕ} {a : Node}
    (hp : heap p = some a) (hq : a.prev = some q) : member q := by
  obtain ⟨b, hb, hback⟩ := h.backward p a q hp hq
  by_contra hno
  rw [h.apart q b hb hno] at hback
  cases hback

/-- A link forward is answered by one back, and the other way round. -/
theorem Threaded.prev_of_next (h : Threaded heap head member) {p q : ℕ} {a b : Node}
    (hp : heap p = some a) (hnext : a.next = some q) (hq : heap q = some b) : b.prev = some p := by
  obtain ⟨-, c, hc, hback⟩ := h.forward p a q hp hnext
  rw [hq] at hc
  rw [Option.some.inj hc, hback]

theorem Threaded.next_of_prev (h : Threaded heap head member) {p q : ℕ} {a b : Node}
    (hp : heap p = some a) (hprev : a.prev = some q) (hq : heap q = some b) : b.next = some p := by
  obtain ⟨c, hc, hforth⟩ := h.backward p a q hp hprev
  rw [hq] at hc
  rw [Option.some.inj hc, hforth]

/-- So two links of one kind to one node have one start. -/
theorem Threaded.eq_of_next (h : Threaded heap head member) {p q r : ℕ} {a b : Node}
    (hp : heap p = some a) (hr : heap r = some b) (ha : a.next = some q) (hb : b.next = some q) :
    p = r := by
  obtain ⟨-, c, hc, hback⟩ := h.forward p a q hp ha
  rw [h.prev_of_next hr hb hc] at hback
  exact (Option.some.inj hback).symm

theorem Threaded.eq_of_prev (h : Threaded heap head member) {p q r : ℕ} {a b : Node}
    (hp : heap p = some a) (hr : heap r = some b) (ha : a.prev = some q) (hb : b.prev = some q) :
    p = r := by
  obtain ⟨c, hc, hforth⟩ := h.backward p a q hp ha
  rw [h.next_of_prev hr hb hc] at hforth
  exact (Option.some.inj hforth).symm

/-- From a node the links lead through ever older members. -/
theorem Threaded.chain_from (h : Threaded heap head member) (p : ℕ) :
    ∀ a, heap p = some a → member p →
      ∃ l, Chain heap a.prev (some p) (p :: l) ∧ (p :: l).Pairwise (· > ·) ∧
        ∀ q ∈ p :: l, member q := by
  induction p using Nat.strongRecOn with
  | ind p ih =>
      intro a hp hmem
      cases hnext : a.next with
      | none =>
          exact ⟨[], ⟨rfl, a, hp, rfl, hnext⟩, List.pairwise_singleton _ _, by simpa using hmem⟩
      | some q =>
          obtain ⟨hlt, b, hb, hback⟩ := h.forward p a q hp hnext
          obtain ⟨l, hchain, hsorted, hall⟩ := ih q hlt b hb (h.member_next hp hnext)
          rw [hback] at hchain
          refine ⟨q :: l, ⟨rfl, a, hp, rfl, hnext ▸ hchain⟩, ?_, ?_⟩
          · refine List.pairwise_cons.mpr ⟨fun x hx => ?_, hsorted⟩
            rcases List.mem_cons.mp hx with rfl | hx
            · exact hlt
            · exact lt_trans ((List.pairwise_cons.mp hsorted).1 x hx) hlt
          · intro x hx
            rcases List.mem_cons.mp hx with rfl | hx
            · exact hmem
            · exact hall x hx

theorem Threaded.chain (h : Threaded heap head member) :
    ∃ l, Chain heap none head l ∧ l.Pairwise (· > ·) ∧ ∀ q ∈ l, member q := by
  cases hhead : head with
  | none => exact ⟨[], rfl, List.Pairwise.nil, by simp⟩
  | some p =>
      obtain ⟨hmem, a, hp, hfirst⟩ := h.start p hhead
      obtain ⟨l, hchain, hsorted, hall⟩ := h.chain_from p a hp hmem
      exact ⟨p :: l, hfirst ▸ hchain, hsorted, hall⟩

/-- A node on the list has its successor on it. -/
theorem Chain.mem_next {l : List ℕ} {prev cur : Option ℕ} (h : Chain heap prev cur l) {p q : ℕ}
    {a : Node} (hmem : p ∈ l) (hp : heap p = some a) (hq : a.next = some q) : q ∈ l := by
  induction l generalizing prev cur with
  | nil => cases hmem
  | cons x l ih =>
      obtain ⟨-, b, hb, -, hrest⟩ := h
      rcases List.mem_cons.mp hmem with rfl | hmem
      · rw [hp] at hb
        obtain rfl := Option.some.inj hb
        cases l with
        | nil =>
            rw [hq] at hrest
            cases hrest
        | cons y l =>
            obtain ⟨hy, -⟩ := hrest
            rw [hq] at hy
            rw [Option.some.inj hy]
            exact List.mem_cons_of_mem _ List.mem_cons_self
      · exact List.mem_cons_of_mem _ (ih hrest hmem)

/-- All members are on the list from `head`, each once. -/
theorem Listed.chain (h : Listed heap head member) {n : ℕ} (hn : ∀ p, member p → p < n) :
    ∃ l, Chain heap none head l ∧ l.Nodup ∧ ∀ p, p ∈ l ↔ member p := by
  obtain ⟨l, hchain, hsorted, hall⟩ := h.toThreaded.chain
  refine ⟨l, hchain, hsorted.imp fun hgt => hgt.ne', fun p => ⟨hall p, ?_⟩⟩
  -- from the youngest member down: a member is the first node or the successor of a younger one
  have hdown : ∀ k p, n - p = k → member p → p ∈ l := by
    intro k
    induction k using Nat.strongRecOn with
    | ind k ih =>
        intro p hk hmem
        obtain ⟨a, hp⟩ := h.mem p hmem
        cases hprev : a.prev with
        | none =>
            have hhead := h.first p a hmem hp hprev
            cases l with
            | nil =>
                rw [hchain] at hhead
                cases hhead
            | cons x l =>
                obtain ⟨hx, -⟩ := hchain
                rw [hhead] at hx
                rw [Option.some.inj hx]
                exact List.mem_cons_self
        | some q =>
            obtain ⟨b, hb, hnext⟩ := h.backward p a q hp hprev
            obtain ⟨hlt, -⟩ := h.forward q b p hb hnext
            have hq := h.member_prev hp hprev
            have hqn := hn q hq
            exact hchain.mem_next (ih (n - q) (by omega) q rfl hq) hb hnext
  exact hdown (n - p) p rfl

end chain

/-! ### The operations -/

/-- The heap after `p` has become the first node. -/
def prepend (heap : Heap) (head : Option ℕ) (p : ℕ) : Heap := fun q =>
  if q = p then some ⟨head, none⟩
  else if head = some q then (heap q).map fun b => { b with prev := some p }
  else heap q

/-- The heap after the node `a` at `p` has been taken out and freed. -/
def detach (heap : Heap) (p : ℕ) (a : Node) : Heap := fun q =>
  if q = p then none
  else (heap q).map fun b =>
    ⟨if a.prev = some q then a.next else b.next, if a.next = some q then a.prev else b.prev⟩

def detachHead (head : Option ℕ) (a : Node) : Option ℕ := if a.prev = none then a.next else head

section operations
variable {heap : Heap} {head : Option ℕ} {member : ℕ → Prop} {p q : ℕ} {a b : Node}

theorem prepend_self : prepend heap head p p = some ⟨head, none⟩ := if_pos rfl

theorem prepend_head (hq : q ≠ p) (hhead : head = some q) (hb : heap q = some b) :
    prepend heap head p q = some { b with prev := some p } := by
  rw [prepend, if_neg hq, if_pos hhead, hb, Option.map_some]

theorem prepend_other (hq : q ≠ p) (hhead : head ≠ some q) : prepend heap head p q = heap q := by
  rw [prepend, if_neg hq, if_neg hhead]

theorem Threaded.prepend (h : Threaded heap head member) (hno : ¬ member p)
    (hyoung : ∀ q, member q → q < p) :
    Threaded (prepend heap head p) (some p) (fun q => q = p ∨ member q) := by
  have hne : ∀ q, member q → q ≠ p := fun q hq hqp => hno (hqp ▸ hq)
  refine ⟨?_, ?_, ?_, ?_, ?_⟩
  · intro x a q hx hnext
    by_cases hxp : x = p
    · subst hxp
      rw [prepend_self] at hx
      obtain rfl := Option.some.inj hx
      obtain ⟨hq, b, hb, -⟩ := h.start q hnext
      exact ⟨hyoung q hq, _, prepend_head (hne q hq) hnext hb, rfl⟩
    · obtain ⟨b, hb, hbn⟩ : ∃ b, heap x = some b ∧ b.next = some q := by
        by_cases hhead : head = some x
        · obtain ⟨-, b, hb, -⟩ := h.start x hhead
          rw [prepend_head hxp hhead hb] at hx
          obtain rfl := Option.some.inj hx
          exact ⟨b, hb, hnext⟩
        · rw [prepend_other hxp hhead] at hx
          exact ⟨a, hx, hnext⟩
      obtain ⟨hlt, c, hc, hback⟩ := h.forward x b q hb hbn
      have hq := h.member_next hb hbn
      -- the first node has no predecessor, so `q` is another one
      have hhead : head ≠ some q := by
        intro hhead
        obtain ⟨-, c', hc', hfirst⟩ := h.start q hhead
        rw [hc] at hc'
        obtain rfl := Option.some.inj hc'
        rw [hback] at hfirst
        cases hfirst
      exact ⟨hlt, c, (prepend_other (hne q hq) hhead).trans hc, hback⟩
  · intro x a q hx hprev
    by_cases hxp : x = p
    · subst hxp
      rw [prepend_self] at hx
      obtain rfl := Option.some.inj hx
      cases hprev
    by_cases hhead : head = some x
    · obtain ⟨-, b, hb, -⟩ := h.start x hhead
      rw [prepend_head hxp hhead hb] at hx
      obtain rfl := Option.some.inj hx
      obtain rfl := Option.some.inj hprev
      exact ⟨_, prepend_self, hhead⟩
    · rw [prepend_other hxp hhead] at hx
      obtain ⟨b, hb, hnext⟩ := h.backward x a q hx hprev
      have hq := hne q (h.member_prev hx hprev)
      by_cases hhead' : head = some q
      · exact ⟨_, prepend_head hq hhead' hb, hnext⟩
      · exact ⟨b, (prepend_other hq hhead').trans hb, hnext⟩
  · rintro q hq
    obtain rfl := Option.some.inj hq
    exact ⟨Or.inl rfl, _, prepend_self, rfl⟩
  · rintro q (rfl | hq)
    · exact ⟨_, prepend_self⟩
    · obtain ⟨b, hb⟩ := h.mem q hq
      by_cases hhead : head = some q
      · exact ⟨_, prepend_head (hne q hq) hhead hb⟩
      · exact ⟨b, (prepend_other (hne q hq) hhead).trans hb⟩
  · intro q a hq hmem
    have hqp : q ≠ p := fun hqp => hmem (Or.inl hqp)
    have hhead : head ≠ some q := fun hhead => hmem (Or.inr (h.start q hhead).1)
    rw [prepend_other hqp hhead] at hq
    exact h.apart q a hq fun hq => hmem (Or.inr hq)

theorem Listed.prepend (h : Listed heap head member) (hno : ¬ member p)
    (hyoung : ∀ q, member q → q < p) :
    Listed (prepend heap head p) (some p) (fun q => q = p ∨ member q) := by
  refine ⟨h.toThreaded.prepend hno hyoung, ?_⟩
  rintro q a (rfl | hmem) hq hprev
  · rfl
  · have hqp : q ≠ p := fun hqp => hno (hqp ▸ hmem)
    by_cases hhead : head = some q
    · obtain ⟨-, b, hb, -⟩ := h.start q hhead
      rw [prepend_head hqp hhead hb] at hq
      obtain rfl := Option.some.inj hq
      cases hprev
    · rw [prepend_other hqp hhead] at hq
      exact absurd (h.first q a hmem hq hprev) hhead

/-- A node without links changes nothing. -/
theorem Threaded.fresh (h : Threaded heap head member) (hp : heap p = none) :
    Threaded (Function.update heap p (some ⟨none, none⟩)) head member := by
  have hne : ∀ q b, heap q = some b → q ≠ p := by
    rintro q b hq rfl
    rw [hp] at hq
    cases hq
  refine ⟨?_, ?_, ?_, ?_, ?_⟩
  · intro x a q hx hnext
    by_cases hxp : x = p
    · rw [hxp, Function.update_self] at hx
      obtain rfl := Option.some.inj hx
      cases hnext
    · rw [Function.update_of_ne hxp] at hx
      obtain ⟨hlt, b, hb, hback⟩ := h.forward x a q hx hnext
      exact ⟨hlt, b, (Function.update_of_ne (hne q b hb) _ _).trans hb, hback⟩
  · intro x a q hx hprev
    by_cases hxp : x = p
    · rw [hxp, Function.update_self] at hx
      obtain rfl := Option.some.inj hx
      cases hprev
    · rw [Function.update_of_ne hxp] at hx
      obtain ⟨b, hb, hnext⟩ := h.backward x a q hx hprev
      exact ⟨b, (Function.update_of_ne (hne q b hb) _ _).trans hb, hnext⟩
  · intro q hq
    obtain ⟨hmem, b, hb, hfirst⟩ := h.start q hq
    exact ⟨hmem, b, (Function.update_of_ne (hne q b hb) _ _).trans hb, hfirst⟩
  · intro q hq
    obtain ⟨b, hb⟩ := h.mem q hq
    exact ⟨b, (Function.update_of_ne (hne q b hb) _ _).trans hb⟩
  · intro q a hq hno
    by_cases hqp : q = p
    · rw [hqp, Function.update_self] at hq
      exact (Option.some.inj hq).symm
    · rw [Function.update_of_ne hqp] at hq
      exact h.apart q a hq hno

theorem Listed.fresh (h : Listed heap head member) (hp : heap p = none) :
    Listed (Function.update heap p (some ⟨none, none⟩)) head member := by
  refine ⟨h.toThreaded.fresh hp, fun q a hmem hq hprev => ?_⟩
  have hqp : q ≠ p := by
    rintro rfl
    obtain ⟨b, hb⟩ := h.mem q hmem
    rw [hp] at hb
    cases hb
  rw [Function.update_of_ne hqp] at hq
  exact h.first q a hmem hq hprev

theorem detach_some (hb : detach heap p a q = some b) :
    q ≠ p ∧ ∃ c, heap q = some c ∧
      b = ⟨if a.prev = some q then a.next else c.next, if a.next = some q then a.prev else c.prev⟩ := by
  unfold detach at hb
  by_cases hqp : q = p
  · rw [if_pos hqp] at hb
    cases hb
  rw [if_neg hqp] at hb
  obtain ⟨c, hc, rfl⟩ := Option.map_eq_some_iff.mp hb
  exact ⟨hqp, c, hc, rfl⟩

theorem detach_of_some (hqp : q ≠ p) (hb : heap q = some b) :
    detach heap p a q = some
      ⟨if a.prev = some q then a.next else b.next, if a.next = some q then a.prev else b.prev⟩ := by
  rw [detach, if_neg hqp, hb, Option.map_some]

theorem Threaded.detach (h : Threaded heap head member) (hp : heap p = some a) :
    Threaded (detach heap p a) (detachHead head a) (fun q => member q ∧ q ≠ p) := by
  refine ⟨?_, ?_, ?_, ?_, ?_⟩
  · intro x b q hx hnext
    obtain ⟨hxp, c, hc, rfl⟩ := detach_some hx
    dsimp only at hnext
    split_ifs at hnext with hprev
    · -- the successor of `p` now follows its predecessor
      obtain ⟨hlt, d, hd, -⟩ := h.forward p a q hp hnext
      obtain ⟨hlt', -⟩ := h.forward x c p hc (h.next_of_prev hp hprev hc)
      refine ⟨hlt.trans hlt', _, detach_of_some hlt.ne hd, ?_⟩
      dsimp only
      rw [if_pos hnext, hprev]
    · obtain ⟨hlt, d, hd, hback⟩ := h.forward x c q hc hnext
      have hqp : q ≠ p := by
        rintro rfl
        exact hprev (h.prev_of_next hc hnext hp)
      have hnot : a.next ≠ some q := fun hq => hxp (h.eq_of_next hc hp hnext hq)
      refine ⟨hlt, _, detach_of_some hqp hd, ?_⟩
      dsimp only
      rw [if_neg hnot, hback]
  · intro x b q hx hprev
    obtain ⟨hxp, c, hc, rfl⟩ := detach_some hx
    dsimp only at hprev
    split_ifs at hprev with hnext
    · obtain ⟨d, hd, hdn⟩ := h.backward p a q hp hprev
      obtain ⟨hlt, -⟩ := h.forward q d p hd hdn
      refine ⟨_, detach_of_some hlt.ne' hd, ?_⟩
      dsimp only
      rw [if_pos hprev, hnext]
    · obtain ⟨d, hd, hdn⟩ := h.backward x c q hc hprev
      have hqp : q ≠ p := by
        rintro rfl
        exact hnext (h.next_of_prev hc hprev hp)
      have hnot : a.prev ≠ some q := fun hq => hxp (h.eq_of_prev hc hp hprev hq)
      refine ⟨_, detach_of_some hqp hd, ?_⟩
      dsimp only
      rw [if_neg hnot, hdn]
  · intro q hq
    unfold detachHead at hq
    split_ifs at hq with hprev
    · obtain ⟨hlt, c, hc, -⟩ := h.forward p a q hp hq
      refine ⟨⟨h.member_next hp hq, hlt.ne⟩, _, detach_of_some hlt.ne hc, ?_⟩
      dsimp only
      rw [if_pos hq, hprev]
    · obtain ⟨hmem, c, hc, hfirst⟩ := h.start q hq
      have hqp : q ≠ p := by
        rintro rfl
        rw [hp] at hc
        obtain rfl := Option.some.inj hc
        exact hprev hfirst
      have hnot : a.next ≠ some q := by
        intro hnext
        have hback := h.prev_of_next hp hnext hc
        rw [hfirst] at hback
        cases hback
      refine ⟨⟨hmem, hqp⟩, _, detach_of_some hqp hc, ?_⟩
      dsimp only
      rw [if_neg hnot, hfirst]
  · rintro q ⟨hmem, hqp⟩
    obtain ⟨b, hb⟩ := h.mem q hmem
    exact ⟨_, detach_of_some hqp hb⟩
  · intro q b hq hmem
    obtain ⟨hqp, c, hc, rfl⟩ := detach_some hq
    have hno : ¬ member q := fun hq => hmem ⟨hq, hqp⟩
    obtain rfl := h.apart q c hc hno
    rw [if_neg fun hprev => hno (h.member_prev hp hprev),
      if_neg fun hnext => hno (h.member_next hp hnext)]

theorem Listed.detach (h : Listed heap head member) (hmem : member p) (hp : heap p = some a) :
    Listed (detach heap p a) (detachHead head a) (fun q => member q ∧ q ≠ p) := by
  refine ⟨h.toThreaded.detach hp, ?_⟩
  rintro q b ⟨hq, hqp⟩ hb hprev
  obtain ⟨-, c, hc, rfl⟩ := detach_some hb
  dsimp only at hprev
  unfold detachHead
  split_ifs at hprev with hnext
  · rw [if_pos hprev, hnext]
  · have hhead := h.first q c hq hc hprev
    have hfirst : a.prev ≠ none := by
      intro hnone
      have := h.first p a hmem hp hnone
      rw [hhead] at this
      exact hqp (Option.some.inj this)
    rw [if_neg hfirst, hhead]

end operations

end Dll
