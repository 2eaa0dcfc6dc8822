import Mathlib.Data.List.Perm.Basic
import Mathlib.Data.List.GetD

/-! # Lists of buckets

A bucket array is a list of lists.  Its content is its flattening; an index function places
every element in one bucket (`Placed`).  Writing one bucket changes the content at one place
only (`set_flatten`), and distributing a list over fresh buckets is a permutation of it that
places everything (`redistribute_perm`, `redistribute_placed`). -/

namespace Buckets

variable {α : Type}

/-- Bucket `i`; empty outside the array. -/
def bucket (p : List (List α)) (i : ℕ) : List α := p.getD i []

/-- Insertion at the head of bucket `i`. -/
def pushFront (p : List (List α)) (i : ℕ) (a : α) : List (List α) := p.set i (a :: bucket p i)

/-- Every element of bucket `i` has index `i`. -/
def Placed (idx : α → ℕ) (p : List (List α)) : Prop := ∀ i, ∀ a ∈ bucket p i, idx a = i

theorem bucket_eq_getElem {p : List (List α)} {i : ℕ} (h : i < p.length) : bucket p i = p[i] :=
  List.getD_eq_getElem _ _ h

theorem bucket_of_le {p : List (List α)} {i : ℕ} (h : p.length ≤ i) : bucket p i = [] :=
  List.getD_eq_default _ _ h

theorem bucket_set_self {p : List (List α)} {i : ℕ} (h : i < p.length) (b : List α) :
    bucket (p.set i b) i = b := by
  rw [bucket_eq_getElem (by simpa using h), List.getElem_set_self]

theorem bucket_set_ne {p : List (List α)} {i j : ℕ} (h : i ≠ j) (b : List α) :
    bucket (p.set i b) j = bucket p j := by
  unfold bucket
  rw [List.getD_eq_getElem?_getD, List.getD_eq_getElem?_getD, List.getElem?_set_ne h]

/-- The array around bucket `i`. -/
theorem exists_split {p : List (List α)} {i : ℕ} (h : i < p.length) :
    ∃ l₁ l₂, p = l₁ ++ bucket p i :: l₂ ∧ ∀ b, p.set i b = l₁ ++ b :: l₂ := by
  refine ⟨p.take i, p.drop (i + 1), ?_, fun b => ?_⟩
  · rw [bucket_eq_getElem h, List.getElem_cons_drop, List.take_append_drop]
  · rw [List.set_eq_take_append_cons_drop, if_pos h]

/-- The content before and after bucket `i` is written. -/
theorem set_flatten {p : List (List α)} {i : ℕ} (h : i < p.length) :
    ∃ l₁ l₂, p.flatten = l₁ ++ bucket p i ++ l₂ ∧ ∀ b, (p.set i b).flatten = l₁ ++ b ++ l₂ := by
  obtain ⟨l₁, l₂, hp, hs⟩ := exists_split h
  refine ⟨l₁.flatten, l₂.flatten, ?_, fun b => ?_⟩
  · conv => lhs; rw [hp]
    simp
  · rw [hs b]
    simp

theorem bucket_map {β : Type} (f : α → β) (p : List (List α)) (i : ℕ) :
    bucket (p.map (List.map f)) i = (bucket p i).map f := by
  unfold bucket
  rw [List.getD_eq_getElem?_getD, List.getD_eq_getElem?_getD, List.getElem?_map]
  cases p[i]? <;> rfl

theorem map_pushFront {β : Type} (f : α → β) (p : List (List α)) (i : ℕ) (a : α) :
    (pushFront p i a).map (List.map f) = pushFront (p.map (List.map f)) i (f a) := by
  unfold pushFront
  rw [bucket_map, List.map_set, List.map_cons]

theorem pushFront_perm {p : List (List α)} {i : ℕ} (h : i < p.length) (a : α) :
    (pushFront p i a).flatten.Perm (a :: p.flatten) := by
  obtain ⟨l₁, l₂, hp, hs⟩ := set_flatten h
  unfold pushFront
  rw [hs, hp, List.append_assoc, List.append_assoc, List.cons_append]
  exact List.perm_middle

theorem mem_bucket_of_mem {idx : α → ℕ} {p : List (List α)} (hp : Placed idx p) {a : α}
    (h : a ∈ p.flatten) : a ∈ bucket p (idx a) := by
  obtain ⟨b, hb, ha⟩ := List.mem_flatten.mp h
  obtain ⟨i, hi, rfl⟩ := List.mem_iff_getElem.mp hb
  rw [← bucket_eq_getElem hi] at ha
  rw [hp i a ha]
  exact ha

theorem mem_of_mem_bucket {p : List (List α)} {i : ℕ} {a : α} (h : a ∈ bucket p i) :
    a ∈ p.flatten := by
  rcases Nat.lt_or_ge i p.length with hi | hi
  · rw [bucket_eq_getElem hi] at h
    exact List.mem_flatten.mpr ⟨_, List.getElem_mem hi, h⟩
  · rw [bucket_of_le hi] at h
    cases h

theorem Placed.set {idx : α → ℕ} {p : List (List α)} (hp : Placed idx p) {i : ℕ} {b : List α}
    (hb : ∀ a ∈ b, idx a = i) : Placed idx (p.set i b) := by
  intro j a ha
  by_cases hij : i = j
  · subst hij
    rcases Nat.lt_or_ge i p.length with hi | hi
    · rw [bucket_set_self hi] at ha
      exact hb a ha
    · rw [bucket_of_le (by simpa using hi)] at ha
      cases ha
  · rw [bucket_set_ne hij] at ha
    exact hp j a ha

theorem Placed.pushFront {idx : α → ℕ} {p : List (List α)} (hp : Placed idx p) (a : α) :
    Placed idx (pushFront p (idx a) a) := by
  refine hp.set fun x hx => ?_
  rcases List.mem_cons.mp hx with rfl | hx
  · rfl
  · exact hp _ x hx

theorem placed_replicate (idx : α → ℕ) (n : ℕ) : Placed idx (List.replicate n []) := by
  intro i a ha
  have : a ∈ (List.replicate n ([] : List α)).flatten := mem_of_mem_bucket ha
  simp at this

/-- Distribution of `xs`, from the left, over `n` fresh buckets. -/
def redistribute (idx : α → ℕ) (n : ℕ) (xs : List α) : List (List α) :=
  xs.foldl (fun p a => pushFront p (idx a) a) (List.replicate n [])

section redistribute
variable {idx : α → ℕ} {n : ℕ}

/-- One pass of the distribution, from buckets that are already placed. -/
theorem foldl_pushFront {xs : List α} {p : List (List α)} (hx : ∀ a ∈ xs, idx a < p.length)
    (hp : Placed idx p) :
    let q := xs.foldl (fun p a => pushFront p (idx a) a) p
    q.length = p.length ∧ Placed idx q ∧ q.flatten.Perm (xs ++ p.flatten) := by
  induction xs generalizing p with
  | nil => exact ⟨rfl, hp, List.Perm.refl _⟩
  | cons a xs ih =>
      have ha : idx a < p.length := hx a List.mem_cons_self
      have hl : (pushFront p (idx a) a).length = p.length := by simp [pushFront]
      have hx' : ∀ x ∈ xs, idx x < (pushFront p (idx a) a).length := by
        intro x hxm
        rw [hl]
        exact hx x (List.mem_cons_of_mem _ hxm)
      obtain ⟨h1, h2, h3⟩ := ih hx' (hp.pushFront a)
      refine ⟨h1.trans hl, h2, h3.trans ?_⟩
      exact ((pushFront_perm ha a).append_left xs).trans List.perm_middle

theorem redistribute_length {xs : List α} (hx : ∀ a ∈ xs, idx a < n) :
    (redistribute idx n xs).length = n := by
  have := (foldl_pushFront (p := List.replicate n []) (by simpa using hx) (placed_replicate idx n)).1
  simpa [redistribute] using this

theorem redistribute_placed {xs : List α} (hx : ∀ a ∈ xs, idx a < n) :
    Placed idx (redistribute idx n xs) :=
  (foldl_pushFront (p := List.replicate n []) (by simpa using hx) (placed_replicate idx n)).2.1

theorem redistribute_perm {xs : List α} (hx : ∀ a ∈ xs, idx a < n) :
    (redistribute idx n xs).flatten.Perm xs := by
  have := (foldl_pushFront (p := List.replicate n []) (by simpa using hx) (placed_replicate idx n)).2.2
  simpa [redistribute] using this

/-- To distribute and to map afterwards is to distribute what has been mapped. -/
theorem redistribute_map {β : Type} (f : α → β) (idx : β → ℕ) (xs : List α) :
    (redistribute (fun a => idx (f a)) n xs).map (List.map f) = redistribute idx n (xs.map f) := by
  have hfold : ∀ p : List (List α),
      (xs.foldl (fun p a => pushFront p (idx (f a)) a) p).map (List.map f) =
        (xs.map f).foldl (fun p b => pushFront p (idx b) b) (p.map (List.map f)) := by
    induction xs with
    | nil => exact fun _ => rfl
    | cons a xs ih =>
        intro p
        rw [List.foldl_cons, ih, map_pushFront]
        rfl
  rw [redistribute, hfold, List.map_replicate]
  rfl

end redistribute

end Buckets
