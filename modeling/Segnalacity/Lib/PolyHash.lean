import Mathlib.Algebra.Group.Units.Basic
import Mathlib.Data.Nat.ModEq
import Mathlib.Tactic.Ring

/-! # Polynomial hashes

`polyHash m f h l` multiplies an accumulator by `m` and adds the value `f c` of the next character,
over any commutative ring.  When `m` is a unit it can be undone character by character, so two
words of one length that differ in two adjacent places collide exactly when the pairs do
(`polyHash_pair`).  `digits_injective` is the converse of printing the accumulator digit by digit. -/

namespace PolyHash

section ring
variable {R α : Type} [CommRing R]

def polyHash (m : R) (f : α → R) (h : R) (l : List α) : R := l.foldl (fun h c => m * h + f c) h

theorem polyHash_append (m : R) (f : α → R) (h : R) (l l' : List α) :
    polyHash m f h (l ++ l') = polyHash m f (polyHash m f h l) l' := List.foldl_append

theorem polyHash_cons (m : R) (f : α → R) (h : R) (c : α) (l : List α) :
    polyHash m f h (c :: l) = polyHash m f (m * h + f c) l := rfl

theorem polyHash_inj {m : R} (hm : IsUnit m) (f : α → R) (l : List α) {h h' : R} :
    polyHash m f h l = polyHash m f h' l ↔ h = h' := by
  induction l generalizing h h' with
  | nil => rfl
  | cons c l ih =>
      rw [polyHash_cons, polyHash_cons, ih, add_left_inj]
      exact hm.mul_right_inj

/-- Two words that differ in one pair of adjacent characters. -/
theorem polyHash_pair {m : R} (hm : IsUnit m) (f : α → R) (h : R) (front back : List α)
    (x y x' y' : α) :
    polyHash m f h (front ++ x :: y :: back) = polyHash m f h (front ++ x' :: y' :: back) ↔
      m * f x + f y = m * f x' + f y' := by
  simp only [polyHash_append, polyHash_cons, polyHash_inj hm]
  have hsplit : ∀ a b : R, m * (m * polyHash m f h front + a) + b =
      m * (m * polyHash m f h front) + (m * a + b) := fun a b => by ring
  rw [hsplit, hsplit, add_right_inj]

end ring

/-- A number below `b ^ k` is determined by its `k` digits to the base `b`. -/
theorem digits_injective {b k n n' : ℕ} (hn : n < b ^ k) (hn' : n' < b ^ k)
    (h : ∀ i < k, n / b ^ i % b = n' / b ^ i % b) : n = n' := by
  have hmod : ∀ j ≤ k, n % b ^ j = n' % b ^ j := by
    intro j
    induction j with
    | zero =>
        intro _
        rw [pow_zero, Nat.mod_one, Nat.mod_one]
    | succ j ih =>
        intro hj
        rw [Nat.mod_pow_succ, Nat.mod_pow_succ, ih (by omega), h j (by omega)]
  have hk := hmod k le_rfl
  rwa [Nat.mod_eq_of_lt hn, Nat.mod_eq_of_lt hn'] at hk

end PolyHash
