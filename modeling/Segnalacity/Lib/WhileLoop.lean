import Mathlib.Data.Nat.Init
import Mathlib.Tactic.Common

/-! # Loops

A `while` loop of C, as a body of which one turn either stops with a result or goes on from a new
state.  `WhileLoop.run` takes at most `fuel` turns.  It gives `none` when the fuel is used up, and also when
a turn has no outcome (a read outside of an object, say), so a result says both that the loop ends and
that nothing went wrong on the way.  `run_of_variant` is the rule of total correctness, with an
invariant and a variant, and `run_sound` the one of partial correctness. -/

namespace WhileLoop

variable {σ ρ : Type}

/-- What one turn of a loop does. -/
inductive Turn (σ ρ : Type) where
  | stop (r : ρ)
  | next (s : σ)
deriving DecidableEq, Repr

def run (turn : σ → Option (Turn σ ρ)) : ℕ → σ → Option ρ
  | 0, _ => none
  | fuel + 1, s => match turn s with
      | none => none
      | some (.stop r) => some r
      | some (.next s') => run turn fuel s'

variable {turn : σ → Option (Turn σ ρ)}

theorem run_stop {s : σ} {r : ρ} (h : turn s = some (.stop r)) (fuel : ℕ) :
    run turn (fuel + 1) s = some r := by
  rw [run, h]

theorem run_next {s s' : σ} (h : turn s = some (.next s')) (fuel : ℕ) :
    run turn (fuel + 1) s = run turn fuel s' := by
  rw [run, h]

/-- **Total correctness.**  Every turn that starts with the invariant stops with the wanted result, or
keeps the invariant and decreases the variant. -/
theorem run_of_variant (I : σ → Prop) (μ : σ → ℕ) (Q : ρ → Prop)
    (hturn : ∀ s, I s → (∃ r, turn s = some (.stop r) ∧ Q r) ∨
      ∃ s', turn s = some (.next s') ∧ I s' ∧ μ s' < μ s)
    {fuel : ℕ} {s : σ} (hs : I s) (hfuel : μ s < fuel) : ∃ r, run turn fuel s = some r ∧ Q r := by
  induction fuel generalizing s with
  | zero => exact absurd hfuel (Nat.not_lt_zero _)
  | succ fuel ih =>
      rcases hturn s hs with ⟨r, hstop, hr⟩ | ⟨s', hnext, hs', hlt⟩
      · exact ⟨r, run_stop hstop fuel, hr⟩
      · rw [run_next hnext]
        exact ih hs' (by omega)

/-- **Partial correctness.** -/
theorem run_sound (I : σ → Prop) (Q : ρ → Prop) (hstop : ∀ s r, I s → turn s = some (.stop r) → Q r)
    (hnext : ∀ s s', I s → turn s = some (.next s') → I s') {fuel : ℕ} {s : σ} {r : ρ} (hs : I s)
    (h : run turn fuel s = some r) : Q r := by
  induction fuel generalizing s with
  | zero => cases h
  | succ fuel ih =>
      cases ht : turn s with
      | none =>
          rw [run, ht] at h
          cases h
      | some t =>
          cases t with
          | stop r' =>
              rw [run_stop ht] at h
              exact hstop s r hs (Option.some.inj h ▸ ht)
          | next s' =>
              rw [run_next ht] at h
              exact ih (hnext s s' hs ht) h

end WhileLoop
