import Segnalacity.HashTable.Table
import Segnalacity.Lib.WhileLoop

/-! # Growth of the table

`is_prime` and `next_prime` as they run, on a `size_t` of 64 bits with products and sums that wrap, and
with loops that nothing bounds but their own tests.  Below `2^62` no divisor that is tried exceeds
`2^31 + 7`, so nothing wraps, and the words compute what `isPrime` and `nextPrime` compute on numbers. -/

namespace Segnalacity

open WhileLoop

/-- One turn of the loop of `is_prime`, with the divisor `i`. -/
def isPrimeTurn (n i : UInt64) : Turn UInt64 Bool :=
  if i * i ≤ n then
    if n % i = 0 ∨ n % (i + 2) = 0 then .stop false else .next (i + 6)
  else .stop true

/-- `is_prime` on words; `none` when its loop has not ended after `fuel` turns. -/
def isPrimeWord (fuel : ℕ) (n : UInt64) : Option Bool :=
  if n < 2 then some false
  else if n = 2 ∨ n = 3 then some true
  else if n % 2 = 0 ∨ n % 3 = 0 then some false
  else WhileLoop.run (fun i => some (isPrimeTurn n i)) fuel 5

/-- One turn of the loop of `next_prime`. -/
def nextPrimeTurn (fuel : ℕ) (n : UInt64) : Option (Turn UInt64 UInt64) :=
  (isPrimeWord fuel n).map fun p => if p then .stop n else .next (n + 2)

/-- `next_prime` on words. -/
def nextPrimeWord (fuel : ℕ) (n : UInt64) : Option UInt64 :=
  if n < 2 then some 2
  else WhileLoop.run (nextPrimeTurn fuel) fuel (if n % 2 = 0 then n + 1 else n)

/-! ### Trial division on words -/

/-- No divisor from `i` on that the loop would still try. -/
def NoDivisorFrom (n i : ℕ) : Prop :=
  ∀ k, (i + 6 * k) * (i + 6 * k) ≤ n → ¬ i + 6 * k ∣ n ∧ ¬ i + 6 * k + 2 ∣ n

theorem noDivisorFrom_of_lt {n i : ℕ} (h : n < i * i) : NoDivisorFrom n i := by
  intro k hk
  have hle := Nat.mul_le_mul (Nat.le_add_right i (6 * k)) (Nat.le_add_right i (6 * k))
  omega

theorem noDivisorFrom_step {n i : ℕ} (hi : i * i ≤ n) :
    NoDivisorFrom n i ↔ (¬ i ∣ n ∧ ¬ i + 2 ∣ n) ∧ NoDivisorFrom n (i + 6) := by
  constructor
  · intro h
    refine ⟨h 0 hi, fun k hk => ?_⟩
    have e : i + 6 + 6 * k = i + 6 * (k + 1) := by ring
    rw [e] at hk ⊢
    exact h (k + 1) hk
  · rintro ⟨h0, h⟩ k hk
    cases k with
    | zero => exact h0
    | succ k =>
        have e : i + 6 * (k + 1) = i + 6 + 6 * k := by ring
        rw [e] at hk ⊢
        exact h k hk

/-- Without the factors 2 and 3 the divisors `6k ± 1` decide. -/
theorem noDivisorFrom_five {n : ℕ} (h2 : ¬ n < 2) (h3 : ¬ (n = 2 ∨ n = 3))
    (hd : ¬ (n % 2 = 0 ∨ n % 3 = 0)) : NoDivisorFrom n 5 ↔ n.Prime := by
  rw [← isPrime_iff, isPrime, if_neg h2, if_neg h3, if_neg hd, isPrimeLoop_iff]
  refine ⟨fun h k _ => h k, fun h k hk => h k ?_ hk⟩
  nlinarith

theorem toNat_mul_of_lt {a b : UInt64} (h : a.toNat * b.toNat < 2 ^ 64) :
    (a * b).toNat = a.toNat * b.toNat := BitVec.toNat_mul_of_lt h

theorem toNat_add_of_lt {a b : UInt64} (h : a.toNat + b.toNat < 2 ^ 64) :
    (a + b).toNat = a.toNat + b.toNat := BitVec.toNat_add_of_lt h

/-- The turn on numbers, as long as the square of the divisor is a word. -/
theorem isPrimeTurn_eq {n i : UInt64} (hi : i.toNat < 2 ^ 32) :
    isPrimeTurn n i =
      if i.toNat * i.toNat ≤ n.toNat then
        if i.toNat ∣ n.toNat ∨ i.toNat + 2 ∣ n.toNat then .stop false else .next (i + 6)
      else .stop true := by
  have hsq : (i * i).toNat = i.toNat * i.toNat := toNat_mul_of_lt (by nlinarith)
  have hadd : (i + 2).toNat = i.toNat + 2 :=
    toNat_add_of_lt (show i.toNat + 2 < 2 ^ 64 by omega)
  unfold isPrimeTurn
  simp only [UInt64.le_iff_toNat_le, ← UInt64.toNat_inj, UInt64.toNat_mod, hsq, hadd,
    Nat.dvd_iff_mod_eq_zero, UInt64.toNat_zero]

/-- `is_prime` ends, with the right answer. -/
theorem isPrimeWord_spec {n : UInt64} {fuel : ℕ} (hn : n.toNat < 2 ^ 63) (hfuel : n.toNat / 5 < fuel) :
    ∃ b, isPrimeWord fuel n = some b ∧ (b = true ↔ n.toNat.Prime) := by
  unfold isPrimeWord
  simp only [UInt64.lt_iff_toNat_lt, ← UInt64.toNat_inj, UInt64.toNat_mod]
  change ∃ b, (if n.toNat < 2 then some false
    else if n.toNat = 2 ∨ n.toNat = 3 then some true
    else if n.toNat % 2 = 0 ∨ n.toNat % 3 = 0 then some false
    else WhileLoop.run (fun i => some (isPrimeTurn n i)) fuel 5) = some b ∧ _
  split_ifs with h2 h3 hd
  · refine ⟨false, rfl, ?_⟩
    rw [← isPrime_iff, isPrime, if_pos h2]
  · refine ⟨true, rfl, ?_⟩
    rw [← isPrime_iff, isPrime, if_neg h2, if_pos h3]
  · refine ⟨false, rfl, ?_⟩
    rw [← isPrime_iff, isPrime, if_neg h2, if_neg h3, if_pos hd]
  · -- below the square root the divisor stays a word of 32 bits
    refine run_of_variant
      (fun i => i.toNat < 2 ^ 32 ∧ 5 ≤ i.toNat ∧ (NoDivisorFrom n.toNat i.toNat ↔ n.toNat.Prime))
      (fun i => n.toNat / 5 + 1 - i.toNat) (fun b => b = true ↔ n.toNat.Prime) ?_
      ⟨by decide, le_refl 5, noDivisorFrom_five h2 h3 hd⟩ (show n.toNat / 5 + 1 - 5 < fuel by omega)
    rintro i ⟨hword, hfive, hprime⟩
    rw [isPrimeTurn_eq hword]
    split_ifs with hsq hdvd
    · refine Or.inl ⟨false, rfl, ?_⟩
      rw [← hprime, noDivisorFrom_step hsq]
      tauto
    · have hroot : i.toNat < 3037000500 := by nlinarith
      have hadd : (i + 6).toNat = i.toNat + 6 :=
        toNat_add_of_lt (show i.toNat + 6 < 2 ^ 64 by omega)
      have hfifth : i.toNat ≤ n.toNat / 5 := by
        rw [Nat.le_div_iff_mul_le (by decide)]
        nlinarith
      refine Or.inr ⟨i + 6, rfl, ?_, ?_⟩
      · rw [hadd]
        refine ⟨by omega, by omega, ?_⟩
        rw [← hprime, noDivisorFrom_step hsq, and_iff_right (not_or.mp hdvd)]
      · rw [hadd]
        omega
    · refine Or.inl ⟨true, rfl, ?_⟩
      rw [← hprime]
      exact iff_of_true rfl (noDivisorFrom_of_lt (by omega))

/-! ### The search on words -/

/-- `next_prime` ends, at the number that `nextPrime` gives. -/
theorem nextPrimeWord_eq {n : UInt64} {fuel : ℕ} (h3 : 3 ≤ n.toNat) (hn : n.toNat < 2 ^ 62)
    (hfuel : n.toNat ≤ fuel) : ∃ p, nextPrimeWord fuel n = some p ∧ p.toNat = nextPrime n.toNat := by
  obtain ⟨hprime, hle, hlt, hleast⟩ := nextPrime_spec h3
  have hodd : nextPrime n.toNat % 2 = 1 := hprime.eq_two_or_odd.resolve_left (by omega)
  have hstart : (if n % 2 = 0 then n + 1 else n).toNat =
      if n.toNat % 2 = 0 then n.toNat + 1 else n.toNat := by
    have hadd : (n + 1).toNat = n.toNat + 1 :=
      toNat_add_of_lt (show n.toNat + 1 < 2 ^ 64 by omega)
    simp only [← UInt64.toNat_inj, UInt64.toNat_mod, apply_ite UInt64.toNat, hadd]
    rfl
  have hsmall : ¬ n < 2 := by
    rw [UInt64.lt_iff_toNat_lt]
    exact show ¬ n.toNat < 2 by omega
  unfold nextPrimeWord
  rw [if_neg hsmall]
  -- the candidates are the odd numbers up to the prime
  refine run_of_variant
    (fun m : UInt64 => n.toNat ≤ m.toNat ∧ m.toNat ≤ nextPrime n.toNat ∧ m.toNat % 2 = 1)
    (fun m : UInt64 => nextPrime n.toNat - m.toNat) (fun p : UInt64 => p.toNat = nextPrime n.toNat) ?_ ?_ ?_
  · rintro m ⟨hnm, hmp, hm⟩
    obtain ⟨b, hb, hiff⟩ := @isPrimeWord_spec m fuel (by omega) (by omega)
    unfold nextPrimeTurn
    rw [hb, Option.map_some]
    cases b with
    | true =>
        refine Or.inl ⟨m, rfl, ?_⟩
        by_contra hne
        exact hleast m.toNat hnm (by omega) (hiff.mp rfl)
    | false =>
        have hne : m.toNat ≠ nextPrime n.toNat := by
          intro he
          rw [he] at hiff
          exact Bool.false_ne_true (hiff.mpr hprime)
        have hadd : (m + 2).toNat = m.toNat + 2 :=
          toNat_add_of_lt (show m.toNat + 2 < 2 ^ 64 by omega)
        refine Or.inr ⟨m + 2, rfl, ?_, ?_⟩
        · rw [hadd]
          omega
        · rw [hadd]
          omega
  · rw [hstart]
    split_ifs <;> omega
  · rw [hstart]
    split_ifs <;> omega

/-! ### Resizing -/

section resize
variable {V : Type}

/-- The new capacity is a prime strictly between the double and four times the old one. -/
theorem htResize_capacity {t t' : HashTable V} {newPool : Bool} (hcap : 2 ≤ t.capacity)
    (h : htResize t newPool = some t') :
    t'.capacity = nextPrime (t.capacity * 2) ∧ 2 * t.capacity < t'.capacity ∧
      t'.capacity < 4 * t.capacity := by
  obtain ⟨hprime, hle, hlt, -⟩ := @nextPrime_spec (t.capacity * 2) (by omega)
  have he : t'.capacity = nextPrime (t.capacity * 2) := by
    unfold htResize at h
    split_ifs at h
    rw [← Option.some.inj h]
  have hodd : nextPrime (t.capacity * 2) % 2 = 1 := hprime.eq_two_or_odd.resolve_left (by omega)
  rw [he]
  exact ⟨rfl, by omega, by omega⟩

/-- The capacity that `ht_resize` computes on words. -/
theorem htResize_word {t t' : HashTable V} {newPool : Bool} {fuel : ℕ} (hcap : 2 ≤ t.capacity)
    (hword : t.capacity < 2 ^ 61) (hfuel : 2 * t.capacity ≤ fuel) (h : htResize t newPool = some t') :
    nextPrimeWord fuel (UInt64.ofNat t.capacity * 2) = some (UInt64.ofNat t'.capacity) := by
  have hdouble : (UInt64.ofNat t.capacity * 2).toNat = t.capacity * 2 := by
    have hc : (UInt64.ofNat t.capacity).toNat = t.capacity := UInt64.toNat_ofNat_of_lt (hword.trans (by decide))
    have hmul := @toNat_mul_of_lt (UInt64.ofNat t.capacity) 2
      (by rw [hc]; exact show t.capacity * 2 < 2 ^ 64 by omega)
    rw [hc] at hmul
    exact hmul
  obtain ⟨p, hp, he⟩ := @nextPrimeWord_eq (UInt64.ofNat t.capacity * 2) fuel (by omega) (by omega)
    (by omega)
  rw [hdouble, ← (htResize_capacity hcap h).1] at he
  rw [hp, ← he, UInt64.ofNat_toNat]

end resize

/-- **Growth.**  Below `2^62` the loops end, `is_prime` decides primality and `next_prime` finds the
least prime from its argument on; a resize takes the capacity beyond its double and stays below four
times of it.  The new capacity is what `next_prime` computes on words, for every capacity that
`calloc` can have delivered. -/
theorem growth :
    (∀ (n : UInt64) (fuel : ℕ), 3 ≤ n.toNat → n.toNat < 2 ^ 62 → n.toNat ≤ fuel →
      (∃ b, isPrimeWord fuel n = some b ∧ (b = true ↔ n.toNat.Prime)) ∧
      ∃ p, nextPrimeWord fuel n = some p ∧ IsLeast {q | n.toNat ≤ q ∧ q.Prime} p.toNat) ∧
    ∀ (V : Type) (t t' : HashTable V) (newPool : Bool), 2 ≤ t.capacity →
      htResize t newPool = some t' →
      2 * t.capacity < t'.capacity ∧ t'.capacity < 4 * t.capacity ∧
      (t.capacity < 2 ^ 61 → ∀ fuel ≥ 2 * t.capacity,
        nextPrimeWord fuel (UInt64.ofNat t.capacity * 2) = some (UInt64.ofNat t'.capacity)) := by
  refine ⟨fun n fuel h3 hn hfuel => ⟨isPrimeWord_spec (by omega) (by omega), ?_⟩,
    fun V t t' newPool hcap h => ?_⟩
  · obtain ⟨p, hp, he⟩ := nextPrimeWord_eq h3 hn hfuel
    obtain ⟨hprime, hle, -, hleast⟩ := nextPrime_spec h3
    refine ⟨p, hp, ?_⟩
    rw [he]
    refine ⟨⟨hle, hprime⟩, fun q hq => ?_⟩
    by_contra hlt
    exact hleast q hq.1 (by omega) hq.2
  · obtain ⟨-, hlow, hhigh⟩ := htResize_capacity hcap h
    exact ⟨hlow, hhigh, fun hword fuel hfuel => htResize_word hcap hword hfuel h⟩

theorem growth_two :
    ((∃ b, isPrimeWord 25 25 = some b ∧ (b = true ↔ Nat.Prime 25)) ∧
      ∃ p, nextPrimeWord 25 25 = some p ∧ IsLeast {q | 25 ≤ q ∧ q.Prime} p.toNat) ∧
    htResize (⟨[[], []], 0, 2, 7, fun _ seed => seed⟩ : HashTable ℕ) true =
      some ⟨[[], [], [], [], []], 0, 5, 7, fun _ seed => seed⟩ ∧
    2 * 2 < 5 ∧ 5 < 4 * 2 ∧
    (2 < 2 ^ 61 → ∀ fuel ≥ 4, nextPrimeWord fuel (UInt64.ofNat 2 * 2) = some (UInt64.ofNat 5)) :=
  ⟨growth.1 25 25 (by decide) (by decide) (by decide), rfl,
    growth.2 ℕ ⟨[[], []], 0, 2, 7, fun _ seed => seed⟩ ⟨[[], [], [], [], []], 0, 5, 7, fun _ seed => seed⟩
      true (by decide) rfl⟩

end Segnalacity
