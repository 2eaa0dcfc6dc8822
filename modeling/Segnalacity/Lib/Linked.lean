import Mathlib.Data.List.Basic
import Mathlib.Order.Basic

/-! # Doubly linked lists with null links

`Seg next prev null p l q`: the nodes `l` are linked both ways, with `p` before and `q` behind them,
where `null` before or behind stands for an end.  Segments are cut and joined at a node
(`seg_append`), and depend only on the links of their own nodes (`Seg.congr`).  The two edits are
`Seg.prepend` and `Seg.remove`.  `Path next null p l` is a list with links one way. -/

namespace Linked

section
variable {α : Type} {next prev next' prev' : α → α} {null : α}

/-- `y` stands behind `x`. -/
def Joined (next prev : α → α) (null x y : α) : Prop :=
  (x ≠ null → next x = y) ∧ (y ≠ null → prev y = x)

def Seg (next prev : α → α) (null : α) : α → List α → α → Prop
  | p, [], q => Joined next prev null p q
  | p, x :: l, q => Joined next prev null p x ∧ Seg next prev null x l q

theorem seg_append {p q x : α} {l l' : List α} :
    Seg next prev null p (l ++ x :: l') q ↔
      Seg next prev null p l x ∧ Seg next prev null x l' q := by
  induction l generalizing p with
  | nil => rfl
  | cons y l ih =>
      show _ ∧ Seg next prev null y (l ++ x :: l') q ↔ (_ ∧ Seg next prev null y l x) ∧ _
      rw [ih, and_assoc]

theorem Joined.congr {x y : α} (h : Joined next prev null x y)
    (hn : x ≠ null → next' x = next x) (hp : y ≠ null → prev' y = prev y) :
    Joined next' prev' null x y :=
  ⟨fun hx => (hn hx).trans (h.1 hx), fun hy => (hp hy).trans (h.2 hy)⟩

theorem Seg.congr {p q : α} {l : List α} (h : Seg next prev null p l q)
    (hn : ∀ x ∈ p :: l, x ≠ null → next' x = next x)
    (hp : ∀ x ∈ l ++ [q], x ≠ null → prev' x = prev x) : Seg next' prev' null p l q := by
  induction l generalizing p with
  | nil => exact Joined.congr h (hn p List.mem_cons_self) (hp q List.mem_cons_self)
  | cons y l ih =>
      refine ⟨h.1.congr (hn p List.mem_cons_self) (hp y List.mem_cons_self), ?_⟩
      exact ih h.2 (fun x hx => hn x (List.mem_cons_of_mem p hx))
        fun x hx => hp x (List.mem_cons_of_mem y hx)

theorem Seg.next_eq {x q : α} {l : List α} (h : Seg next prev null x l q) (hx : x ≠ null) :
    next x = l.headD q := by
  cases l with
  | nil => exact h.1 hx
  | cons y l => exact h.1.1 hx

theorem Seg.prev_eq {p x : α} {l : List α} (h : Seg next prev null p l x) (hx : x ≠ null) :
    prev x = l.getLastD p := by
  induction l generalizing p with
  | nil => exact h.2 hx
  | cons y l ih =>
      rw [List.getLastD_cons]
      exact ih h.2

/-- Another node behind the last one. -/
theorem Seg.retarget {p x y : α} {l : List α} (h : Seg next prev null p l x)
    (hnodup : (p :: l).Nodup)
    (hn : ∀ z ∈ p :: l, z ≠ null → z ≠ l.getLastD p → next' z = next z)
    (hlast : l.getLastD p ≠ null → next' (l.getLastD p) = y)
    (hp : ∀ z ∈ l, z ≠ null → prev' z = prev z) (hy : y ≠ null → prev' y = l.getLastD p) :
    Seg next' prev' null p l y := by
  induction l generalizing p with
  | nil => exact ⟨hlast, hy⟩
  | cons z l ih =>
      obtain ⟨hnot, hnodup'⟩ := List.nodup_cons.mp hnodup
      rw [List.getLastD_cons] at hn hlast hy
      have hne : p ≠ l.getLastD z := by
        intro heq
        refine hnot ?_
        rw [heq, List.getLastD_eq_getLast?]
        cases l with
        | nil => exact List.mem_cons_self
        | cons a l =>
            rw [List.getLast?_eq_some_getLast (List.cons_ne_nil a l), Option.getD_some]
            exact List.mem_cons_of_mem z (List.getLast_mem _)
      refine ⟨h.1.congr (fun hnull => hn p List.mem_cons_self hnull hne)
        (hp z List.mem_cons_self), ?_⟩
      exact ih h.2 hnodup' (fun a ha => hn a (List.mem_cons_of_mem p ha)) hlast
        (fun a ha => hp a (List.mem_cons_of_mem z ha)) hy

/-! ### Edits -/

/-- A new first node. -/
theorem Seg.prepend {c : α} {l : List α} (h : Seg next prev null null l null) (hnull : null ∉ l)
    (hnodup : l.Nodup) (hc : next' c = l.headD null) (hc' : prev' c = null)
    (hhead : l.headD null ≠ null → prev' (l.headD null) = c)
    (hn : ∀ x ∈ l, next' x = next x) (hp : ∀ x ∈ l, x ≠ l.headD null → prev' x = prev x) :
    Seg next' prev' null null (c :: l) null := by
  refine ⟨⟨fun h => absurd rfl h, fun _ => hc'⟩, ?_⟩
  cases l with
  | nil => exact ⟨fun _ => hc, fun h => absurd rfl h⟩
  | cons y l =>
      obtain ⟨hnot, -⟩ := List.nodup_cons.mp hnodup
      refine ⟨⟨fun _ => hc, hhead⟩, h.2.congr (fun x hx _ => hn x hx) fun x hx hxn => ?_⟩
      rcases List.mem_append.mp hx with hx | hx
      · refine hp x (List.mem_cons_of_mem y hx) ?_
        rintro rfl
        exact hnot hx
      · exact absurd (List.mem_singleton.mp hx) hxn

/-- A node is taken out: its neighbours are linked to each other. -/
theorem Seg.remove {pre post : List α} {x : α}
    (h : Seg next prev null null (pre ++ x :: post) null) (hnull : null ∉ pre ++ x :: post)
    (hnodup : (pre ++ x :: post).Nodup)
    (hn : ∀ z ∈ pre ++ post, z ≠ pre.getLastD null → next' z = next z)
    (hp : ∀ z ∈ pre ++ post, z ≠ post.headD null → prev' z = prev z)
    (hbefore : pre.getLastD null ≠ null → next' (pre.getLastD null) = post.headD null)
    (hbehind : post.headD null ≠ null → prev' (post.headD null) = pre.getLastD null) :
    Seg next' prev' null null (pre ++ post) null := by
  obtain ⟨hpre, hpost⟩ := seg_append.mp h
  obtain ⟨hnodup₁, hnodup₂, hapart⟩ := List.nodup_append.mp hnodup
  have hnull₁ : null ∉ pre := fun hmem => hnull (List.mem_append_left _ hmem)
  have hnodup₀ : (null :: pre).Nodup := List.nodup_cons.mpr ⟨hnull₁, hnodup₁⟩
  -- what stands before the node, whatever the new successor
  have hleft : ∀ y, y = post.headD null → Seg next' prev' null null pre y := by
    rintro y rfl
    refine hpre.retarget hnodup₀ (fun z hz hzn hlast => ?_) hbefore (fun z hz hzn => ?_) hbehind
    · rcases List.mem_cons.mp hz with rfl | hz
      · exact absurd rfl hzn
      · exact hn z (List.mem_append_left post hz) hlast
    · refine hp z (List.mem_append_left post hz) ?_
      rintro rfl
      cases post with
      | nil => exact hzn rfl
      | cons b post => exact hapart b hz b (List.mem_cons_of_mem x List.mem_cons_self) rfl
  cases post with
  | nil =>
      rw [List.append_nil]
      exact hleft null rfl
  | cons b post =>
      rw [seg_append]
      refine ⟨hleft b rfl, hpost.2.congr (fun z hz hzn => ?_) fun z hz hzn => ?_⟩
      · refine hn z (List.mem_append_right pre hz) ?_
        rintro rfl
        rw [List.getLastD_eq_getLast?] at hz hzn
        cases hlast : pre.getLast? with
        | none =>
            rw [hlast] at hzn
            exact hzn rfl
        | some a =>
            rw [hlast] at hz
            exact hapart a (List.mem_of_getLast? hlast) a (List.mem_cons_of_mem x hz) rfl
      · rcases List.mem_append.mp hz with hz | hz
        · refine hp z (List.mem_append_right pre (List.mem_cons_of_mem b hz)) ?_
          rintro rfl
          obtain ⟨hnot, -⟩ := List.nodup_cons.mp (List.nodup_cons.mp hnodup₂).2
          exact hnot hz
        · exact absurd (List.mem_singleton.mp hz) hzn

/-! ### Links one way -/

/-- From `p` the links lead through the nodes `l`, and end. -/
def Path (next : α → α) (null : α) : α → List α → Prop
  | p, [] => p = null
  | p, x :: l => p = x ∧ x ≠ null ∧ Path next null (next x) l

theorem Path.congr {p : α} {l : List α} (h : Path next null p l)
    (hn : ∀ x ∈ l, next' x = next x) : Path next' null p l := by
  induction l generalizing p with
  | nil => exact h
  | cons x l ih =>
      refine ⟨h.1, h.2.1, ?_⟩
      rw [hn x List.mem_cons_self]
      exact ih h.2.2 fun y hy => hn y (List.mem_cons_of_mem x hy)

theorem Path.eq_null_iff {p : α} {l : List α} (h : Path next null p l) : p = null ↔ l = [] := by
  cases l with
  | nil => exact ⟨fun _ => rfl, fun _ => h⟩
  | cons x l => exact ⟨fun hp => absurd (h.1.symm.trans hp) h.2.1, fun hl => nomatch hl⟩

end

end Linked
