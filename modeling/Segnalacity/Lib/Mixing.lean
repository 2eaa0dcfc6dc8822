import Mathlib.Data.Nat.Bitwise
import Mathlib.Logic.Function.Basic
import Mathlib.Tactic.Common

/-! # Mixing steps

The steps from which word hashes are built lose nothing: `x ^ (x >> k)` for a positive shift, a product
with a factor that has an inverse modulo the word size, and a fold of such steps over a message.  Where
every step is injective in the state, two messages that differ in a single place are told apart by the
state behind that place, and from there on they stay apart (`foldl_ne`). -/

namespace Mixing

/-! ### Steps on words -/

/-- A number is recovered from its exclusive or with a shift of itself. -/
theorem xorShift_injective {k : ℕ} (hk : 0 < k) : Function.Injective fun x : ℕ => x ^^^ (x >>> k) := by
  intro x y h
  -- the difference of the two is its own shift
  have hshift : x ^^^ y = (x ^^^ y) >>> k := by
    rw [Nat.shiftRight_xor_distrib, ← Nat.xor_eq_zero_iff]
    have hzero : (x ^^^ (x >>> k)) ^^^ (y ^^^ (y >>> k)) = 0 := Nat.xor_eq_zero_iff.mpr h
    rw [← hzero]
    ac_rfl
  rw [Nat.shiftRight_eq_div_pow] at hshift
  by_contra hne
  have hpos : 0 < x ^^^ y := Nat.pos_of_ne_zero fun h0 => hne (Nat.xor_eq_zero_iff.mp h0)
  have hlt := Nat.div_lt_self hpos (Nat.one_lt_two_pow (Nat.pos_iff_ne_zero.mp hk))
  omega

theorem wordXorShift_injective {k : UInt64} (hk : 0 < k.toNat % 64) :
    Function.Injective fun x : UInt64 => x ^^^ (x >>> k) := by
  intro x y h
  have hnat := congrArg UInt64.toNat h
  simp only [UInt64.toNat_xor, UInt64.toNat_shiftRight] at hnat
  exact UInt64.toNat_inj.mp (xorShift_injective hk hnat)

theorem mul_injective {m d : UInt64} (h : m * d = 1) : Function.Injective fun x : UInt64 => x * m := by
  have hinv : Function.LeftInverse (fun x : UInt64 => x * d) fun x => x * m := by
    intro x
    show x * m * d = x
    rw [UInt64.mul_assoc, h, UInt64.mul_one]
  exact hinv.injective

theorem xor_injective (x : UInt64) : Function.Injective fun c : UInt64 => x ^^^ c := by
  have hinv : Function.LeftInverse (fun c : UInt64 => x ^^^ c) fun c => x ^^^ c := by
    intro c
    show x ^^^ (x ^^^ c) = c
    rw [← UInt64.xor_assoc, UInt64.xor_self, UInt64.zero_xor]
  exact hinv.injective

/-! ### Folds -/

section fold
variable {σ α : Type} {step : σ → α → σ}

theorem foldl_injective (hstep : ∀ a, Function.Injective fun s => step s a) (l : List α) :
    Function.Injective fun s => l.foldl step s := by
  induction l with
  | nil => exact fun _ _ h => h
  | cons a l ih => exact fun _ _ h => hstep a (ih h)

/-- Two messages that differ in one place. -/
theorem foldl_ne (hstep : ∀ a, Function.Injective fun s => step s a)
    (hbyte : ∀ s, Function.Injective (step s)) (s : σ) {a b : α} (hne : a ≠ b) (front back : List α) :
    (front ++ a :: back).foldl step s ≠ (front ++ b :: back).foldl step s := by
  rw [List.foldl_append, List.foldl_append, List.foldl_cons, List.foldl_cons]
  intro h
  exact hne (hbyte _ (foldl_injective hstep back h))

end fold

/-- Where two lists of one length differ in exactly one place. -/
theorem exists_of_unique_difference {α : Type} {l l' : List α} (hlength : l.length = l'.length)
    (h : ∃! i : ℕ, l[i]? ≠ l'[i]?) :
    ∃ front a b back, l = front ++ a :: back ∧ l' = front ++ b :: back ∧ a ≠ b := by
  obtain ⟨i, hi, hunique⟩ := h
  have hlt : i < l.length := by
    by_contra hge
    refine hi ?_
    rw [List.getElem?_eq_none (by omega), List.getElem?_eq_none (by omega)]
  have hlt' : i < l'.length := by omega
  have hsame : ∀ j, j ≠ i → l[j]? = l'[j]? := fun j hj => by
    by_contra hne
    exact hj (hunique j hne)
  have hfront : l.take i = l'.take i := by
    refine List.ext_getElem? fun j => ?_
    rw [List.getElem?_take, List.getElem?_take]
    split_ifs with hj
    · exact hsame j (by omega)
    · rfl
  have hback : l.drop (i + 1) = l'.drop (i + 1) := by
    refine List.ext_getElem? fun j => ?_
    rw [List.getElem?_drop, List.getElem?_drop]
    exact hsame _ (by omega)
  refine ⟨l.take i, l[i], l'[i], l.drop (i + 1), ?_, ?_, ?_⟩
  · rw [List.getElem_cons_drop, List.take_append_drop]
  · rw [hfront, hback, List.getElem_cons_drop, List.take_append_drop]
  · rw [List.getElem?_eq_getElem hlt, List.getElem?_eq_getElem hlt'] at hi
    exact fun he => hi (congrArg some he)

end Mixing
