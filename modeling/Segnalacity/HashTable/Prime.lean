import Mathlib.NumberTheory.Bertrand
import Mathlib.Data.Nat.Prime.Basic
import Mathlib.Tactic.IntervalCases

/-! # Prime capacities

`is_prime` and `next_prime` of the hash table: trial division by `6k ± 1`, and the search for
the next prime in steps of two.  Both C loops carry a fuel argument here; `isPrime_iff` and
`nextPrime_spec` show that the fuel they start with is enough, so the loops terminate with the
intended answer (the search because a prime lies below the double of every number). -/

namespace Segnalacity

/-- The loop of `is_prime` from the divisor `i` on. -/
def isPrimeLoop (n : ℕ) : ℕ → ℕ → Bool
  | 0, _ => true
  | fuel + 1, i =>
      if i * i ≤ n then
        if n % i = 0 ∨ n % (i + 2) = 0 then false else isPrimeLoop n fuel (i + 6)
      else true

def isPrime (n : ℕ) : Bool :=
  if n < 2 then false
  else if n = 2 ∨ n = 3 then true
  else if n % 2 = 0 ∨ n % 3 = 0 then false
  else isPrimeLoop n n 5

/-- The loop of `next_prime`. -/
def nextPrimeLoop : ℕ → ℕ → ℕ
  | 0, n => n
  | fuel + 1, n => if isPrime n then n else nextPrimeLoop fuel (n + 2)

def nextPrime (n : ℕ) : ℕ :=
  if n < 2 then 2
  else
    let m := if n % 2 = 0 then n + 1 else n
    nextPrimeLoop m m

/-! ### Trial division -/

theorem isPrimeLoop_iff (n : ℕ) : ∀ (fuel i : ℕ), isPrimeLoop n fuel i = true ↔
    ∀ k < fuel, (i + 6 * k) * (i + 6 * k) ≤ n → ¬ i + 6 * k ∣ n ∧ ¬ i + 6 * k + 2 ∣ n
  | 0, i => by simp [isPrimeLoop]
  | fuel + 1, i => by
      have ih := isPrimeLoop_iff n fuel (i + 6)
      unfold isPrimeLoop
      split_ifs with hi hd
      · simp only [false_iff, not_forall]
        refine ⟨0, by omega, by simpa using hi, ?_⟩
        simp only [Nat.dvd_iff_mod_eq_zero, Nat.mul_zero, Nat.add_zero]
        tauto
      · rw [ih]
        constructor
        · intro h k hk hle
          cases k with
          | zero =>
              simp only [Nat.dvd_iff_mod_eq_zero, Nat.mul_zero, Nat.add_zero]
              tauto
          | succ k =>
              have e : i + 6 * (k + 1) = i + 6 + 6 * k := by ring
              rw [e] at hle ⊢
              exact h k (by omega) hle
        · intro h k hk hle
          have e : i + 6 + 6 * k = i + 6 * (k + 1) := by ring
          rw [e] at hle ⊢
          exact h (k + 1) (by omega) hle
      · simp only [true_iff]
        intro k _ hle
        -- past the square root no further divisor is tried
        have := Nat.mul_le_mul (Nat.le_add_right i (6 * k)) (Nat.le_add_right i (6 * k))
        omega

/-- `is_prime` decides primality. -/
theorem isPrime_iff (n : ℕ) : isPrime n = true ↔ n.Prime := by
  unfold isPrime
  split_ifs with h2 h3 hd
  · simp only [false_iff]
    exact fun hp => absurd hp.two_le (by omega)
  · simp only [true_iff]
    rcases h3 with rfl | rfl <;> norm_num
  · simp only [false_iff]
    intro hp
    rcases hd with hd | hd
    · have := (Nat.prime_dvd_prime_iff_eq Nat.prime_two hp).mp (Nat.dvd_of_mod_eq_zero hd)
      omega
    · have := (Nat.prime_dvd_prime_iff_eq Nat.prime_three hp).mp (Nat.dvd_of_mod_eq_zero hd)
      omega
  · rw [isPrimeLoop_iff]
    constructor
    · intro h
      by_contra hnp
      -- the least prime factor is a `6k ± 1` that the loop reaches
      have hp : n.minFac.Prime := Nat.minFac_prime (by omega)
      have hsq : n.minFac * n.minFac ≤ n := by
        have := Nat.minFac_sq_le_self (by omega : 0 < n) hnp
        rwa [pow_two] at this
      have hdvd := Nat.minFac_dvd n
      have hne2 : ¬ 2 ∣ n.minFac := fun hc => hd (Or.inl (Nat.mod_eq_zero_of_dvd (hc.trans hdvd)))
      have hne3 : ¬ 3 ∣ n.minFac := fun hc => hd (Or.inr (Nat.mod_eq_zero_of_dvd (hc.trans hdvd)))
      have hge := hp.two_le
      have hlt : n.minFac ≤ n := Nat.minFac_le (by omega)
      generalize n.minFac = p at *
      have h6 : p % 6 = 1 ∨ p % 6 = 5 := by omega
      have hcase : ∃ k, p = 5 + 6 * k ∨ p = 5 + 6 * k + 2 := by
        rcases h6 with h6 | h6
        · exact ⟨p / 6 - 1, Or.inr (by omega)⟩
        · exact ⟨p / 6, Or.inl (by omega)⟩
      obtain ⟨k, rfl | rfl⟩ := hcase
      · exact (h k (by omega) hsq).1 hdvd
      · refine (h k (by omega) (le_trans ?_ hsq)).2 hdvd
        exact Nat.mul_le_mul (Nat.le_add_right _ _) (Nat.le_add_right _ _)
    · intro hp k _ hle
      have hself : ∀ d, d ∣ n → 1 < d → d < n → False := fun d hdn h1 hlt => by
        rcases hp.eq_one_or_self_of_dvd d hdn with h | h <;> omega
      constructor
      · intro hc
        exact hself _ hc (by omega) (by nlinarith)
      · intro hc
        exact hself _ hc (by omega) (by nlinarith)

/-! ### The search -/

theorem le_nextPrimeLoop : ∀ (fuel n : ℕ), n ≤ nextPrimeLoop fuel n
  | 0, n => le_refl n
  | fuel + 1, n => by
      unfold nextPrimeLoop
      split_ifs
      · exact le_refl n
      · have := le_nextPrimeLoop fuel (n + 2)
        omega

/-- With a prime among the candidates the loop stops at the first one. -/
theorem nextPrimeLoop_spec : ∀ (fuel n j : ℕ), j < fuel → (n + 2 * j).Prime →
    (nextPrimeLoop fuel n).Prime ∧ nextPrimeLoop fuel n ≤ n + 2 * j ∧
      ∀ i, n + 2 * i < nextPrimeLoop fuel n → ¬ (n + 2 * i).Prime
  | 0, _, _, hj, _ => absurd hj (Nat.not_lt_zero _)
  | fuel + 1, n, j, hj, hp => by
      unfold nextPrimeLoop
      split_ifs with h
      · exact ⟨(isPrime_iff n).mp h, by omega, fun i hi => by omega⟩
      · have hn : ¬ n.Prime := fun hc => h ((isPrime_iff n).mpr hc)
        cases j with
        | zero => exact absurd hp hn
        | succ j =>
            have e : n + 2 * (j + 1) = n + 2 + 2 * j := by ring
            rw [e] at hp ⊢
            obtain ⟨h1, h2, h3⟩ := nextPrimeLoop_spec fuel (n + 2) j (by omega) hp
            refine ⟨h1, h2, fun i hi => ?_⟩
            cases i with
            | zero => exact hn
            | succ i =>
                have e' : n + 2 * (i + 1) = n + 2 + 2 * i := by ring
                rw [e'] at hi ⊢
                exact h3 i hi

/-- `next_prime` returns the least prime from `n` on. -/
theorem nextPrime_spec {n : ℕ} (hn : 3 ≤ n) :
    (nextPrime n).Prime ∧ n ≤ nextPrime n ∧ nextPrime n < 2 * n ∧
      ∀ p, n ≤ p → p < nextPrime n → ¬ p.Prime := by
  have hodd : ∃ m, m % 2 = 1 ∧ nextPrime n = nextPrimeLoop m m ∧ n ≤ m ∧ m ≤ n + 1 ∧
      (n = m ∨ n % 2 = 0) := by
    refine ⟨if n % 2 = 0 then n + 1 else n, ?_, ?_, ?_, ?_, ?_⟩
    · split_ifs <;> omega
    · unfold nextPrime
      rw [if_neg (by omega)]
    · split_ifs <;> omega
    · split_ifs <;> omega
    · split_ifs with h
      · exact Or.inr h
      · exact Or.inl rfl
  obtain ⟨m, hm, he, hnm, hmn, hcase⟩ := hodd
  -- a prime above `n - 1` and below its double is one of the candidates
  obtain ⟨p, hp, hlt, hle⟩ := Nat.exists_prime_lt_and_le_two_mul (n - 1) (by omega)
  have hpodd : p % 2 = 1 := hp.eq_two_or_odd.resolve_left (by omega)
  have hpm : m ≤ p := by omega
  have hp' : (m + 2 * ((p - m) / 2)).Prime := by
    have e : m + 2 * ((p - m) / 2) = p := by omega
    rwa [e]
  obtain ⟨h1, h2, h3⟩ := nextPrimeLoop_spec m m ((p - m) / 2) (by omega) hp'
  rw [he]
  refine ⟨h1, hnm.trans (le_nextPrimeLoop m m), by omega, fun q hq hqlt hqp => ?_⟩
  have hqodd : q % 2 = 1 := hqp.eq_two_or_odd.resolve_left (by omega)
  have hmq : m ≤ q := by omega
  have e : m + 2 * ((q - m) / 2) = q := by omega
  exact h3 ((q - m) / 2) (by omega) (by rwa [e])

theorem le_nextPrime (n : ℕ) : n ≤ nextPrime n := by
  unfold nextPrime
  split_ifs with h h'
  · omega
  · exact (Nat.le_succ n).trans (le_nextPrimeLoop _ _)
  · exact le_nextPrimeLoop _ _

end Segnalacity
