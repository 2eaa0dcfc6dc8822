import Mathlib.Data.List.Basic
import Mathlib.Order.Lattice
import Mathlib.Tactic.Common

/-! # Incremental scanners

A scanner reads a buffer from left to right and either succeeds, rejects the input, or says
that it needs more of it.  Feeding a buffer again from the start after it has grown is harmless
exactly when the scanner never decides from the end of the buffer: `Scans ahead least m` says

* `grow`: an answer other than "more" does not change when bytes are appended;
* `eats`: success consumes a prefix of at least `least` bytes and advances the position by it;
* `cut`: success looks at most `ahead` bytes past what it consumed.

The predicate is closed under sequencing (`Scans.bind`), where what the second scanner consumes
pays for the lookahead of the first.  For `ahead = 0` a success at position `q` depends on the
first `q` bytes alone: every buffer with these bytes gives the same answer
(`Scans.same_prefix`), and every shorter prefix asks for more (`Scans.more_of_lt`). -/

namespace Scan

variable {β α γ : Type}

/-- A reading position: offset and remaining bytes. -/
structure Cursor (β : Type) where
  pos : ℕ
  rest : List β
deriving DecidableEq, Repr

/-- Outcome of a scanner. -/
inductive Res (β α : Type) where
  | more
  | bad
  | ok (a : α) (c : Cursor β)
deriving DecidableEq, Repr

def Scanner (β α : Type) : Type := Cursor β → Res β α

/-- The same outcome with `x` appended to the unread bytes. -/
def Res.append (x : List β) : Res β α → Res β α
  | .more => .more
  | .bad => .bad
  | .ok a c => .ok a ⟨c.pos, c.rest ++ x⟩

/-- Continue after a success. -/
def Res.andThen (x : Res β α) (f : α → Scanner β γ) : Res β γ := match x with
  | .more => .more
  | .bad => .bad
  | .ok a c => f a c

namespace Scanner

instance : Monad (Scanner β) where
  pure a := fun c => .ok a c
  bind m f := fun c => (m c).andThen f

/-- Reject. -/
def fail : Scanner β α := fun _ => .bad

/-- Reject if `c` holds. -/
def reject (c : Prop) [Decidable c] : Scanner β Unit := if c then fail else pure ()

/-- The current offset. -/
def pos : Scanner β ℕ := fun c => .ok c.pos c

/-- The next byte, left in place. -/
def peek : Scanner β β := fun c => match c.rest with
  | [] => .more
  | b :: _ => .ok b c

/-- The next byte. -/
def next : Scanner β β := fun c => match c.rest with
  | [] => .more
  | b :: r => .ok b ⟨c.pos + 1, r⟩

/-- At least `n` bytes are there. -/
def need (n : ℕ) : Scanner β Unit := fun c => if c.rest.length < n then .more else .ok () c

/-- The next byte must be `b`. -/
def expect [DecidableEq β] (b : β) : Scanner β Unit := do
  let c ← next
  if c = b then pure () else fail

/-- The bytes up to the first one that satisfies `stop`; a byte satisfying `illegal` before it
rejects. -/
def scanFrom (stop illegal : β → Bool) : List β → ℕ → List β → Res β (List β)
  | _, _, [] => .more
  | acc, p, b :: r =>
      if stop b then .ok acc ⟨p, b :: r⟩
      else if illegal b then .bad
      else scanFrom stop illegal (acc ++ [b]) (p + 1) r

def scanUntil (stop illegal : β → Bool) : Scanner β (List β) :=
  fun c => scanFrom stop illegal [] c.pos c.rest

end Scanner

open Scanner

structure Scans (ahead least : ℕ) (m : Scanner β α) : Prop where
  grow : ∀ p l x, m ⟨p, l⟩ ≠ .more → m ⟨p, l ++ x⟩ = (m ⟨p, l⟩).append x
  eats : ∀ {p l a q r}, m ⟨p, l⟩ = .ok a ⟨q, r⟩ →
    ∃ u, l = u ++ r ∧ q = p + u.length ∧ least ≤ u.length
  cut : ∀ {p l x a q r}, m ⟨p, l ++ x⟩ = .ok a ⟨q, r ++ x⟩ → ahead ≤ r.length →
    m ⟨p, l⟩ = .ok a ⟨q, r⟩

theorem Scans.weaken {k j k' j' : ℕ} {m : Scanner β α} (h : Scans k j m) (hk : k ≤ k') (hj : j' ≤ j) :
    Scans k' j' m where
  grow := h.grow
  eats := fun hm => by
    obtain ⟨u, h1, h2, h3⟩ := h.eats hm
    exact ⟨u, h1, h2, hj.trans h3⟩
  cut := fun hm hr => h.cut hm (hk.trans hr)

theorem bind_run (m : Scanner β α) (f : α → Scanner β γ) (c : Cursor β) :
    (m >>= f) c = (m c).andThen f := rfl

theorem bind_ok_iff {m : Scanner β α} {f : α → Scanner β γ} {c c'' : Cursor β} {b : γ} :
    (m >>= f) c = .ok b c'' ↔ ∃ a c', m c = .ok a c' ∧ f a c' = .ok b c'' := by
  rw [bind_run]
  cases m c with
  | more => simp [Res.andThen]
  | bad => simp [Res.andThen]
  | ok a c' => simp [Res.andThen]

theorem ok_inj {a a' : α} {q q' : ℕ} {r r' : List β}
    (h : (.ok a ⟨q, r⟩ : Res β α) = .ok a' ⟨q', r'⟩) : a = a' ∧ q = q' ∧ r = r' := by
  simpa using h

theorem scans_pure (a : α) : Scans 0 0 (pure a : Scanner β α) where
  grow := fun _ _ _ _ => rfl
  eats := fun h => by
    obtain ⟨-, rfl, rfl⟩ := ok_inj h
    exact ⟨[], rfl, rfl, le_refl 0⟩
  cut := fun h _ => by
    obtain ⟨rfl, rfl, hs₂⟩ := ok_inj h
    rw [List.append_cancel_right hs₂]
    rfl

/-- Rejecting is compatible with any promise about successes. -/
theorem scans_fail (k j : ℕ) : Scans k j (fail : Scanner β α) where
  grow := fun _ _ _ _ => rfl
  eats := fun h => by cases h
  cut := fun h _ => by cases h

theorem scans_pos : Scans 0 0 (pos : Scanner β ℕ) where
  grow := fun _ _ _ _ => rfl
  eats := fun h => by
    obtain ⟨-, rfl, rfl⟩ := ok_inj h
    exact ⟨[], rfl, rfl, le_refl 0⟩
  cut := fun h _ => by
    obtain ⟨rfl, rfl, hs₂⟩ := ok_inj h
    rw [List.append_cancel_right hs₂]
    rfl

theorem scans_peek : Scans 1 0 (peek : Scanner β β) where
  grow := fun p l x h => by
    cases l with
    | nil => exact absurd rfl h
    | cons b l => rfl
  eats := fun {p l a q r} h => by
    cases l with
    | nil => cases h
    | cons b l =>
        obtain ⟨-, rfl, rfl⟩ := ok_inj h
        exact ⟨[], rfl, rfl, le_refl 0⟩
  cut := fun {p l x a q r} h hr => by
    cases hl : l ++ x with
    | nil => rw [hl] at h; cases h
    | cons b l' =>
        rw [hl] at h
        obtain ⟨rfl, rfl, hs₂⟩ := ok_inj h
        obtain rfl : l = r := List.append_cancel_right (hl.trans hs₂)
        cases l with
        | nil => simp at hr
        | cons c l =>
            obtain ⟨rfl, -⟩ := List.cons.inj hl
            rfl

theorem scans_next : Scans 0 1 (next : Scanner β β) where
  grow := fun p l x h => by
    cases l with
    | nil => exact absurd rfl h
    | cons b l => rfl
  eats := fun {p l a q r} h => by
    cases l with
    | nil => cases h
    | cons b l =>
        obtain ⟨-, rfl, rfl⟩ := ok_inj h
        exact ⟨[b], rfl, rfl, le_refl 1⟩
  cut := fun {p l x a q r} h _ => by
    cases l with
    | nil =>
        -- the byte read would have come from `x`, which is still unread
        cases x with
        | nil => cases h
        | cons b x =>
            obtain ⟨-, -, hs₂⟩ := ok_inj h
            have := congrArg List.length hs₂
            simp only [List.length_append, List.length_cons] at this
            omega
    | cons b l =>
        obtain ⟨rfl, rfl, hs₂⟩ := ok_inj h
        obtain rfl := List.append_cancel_right hs₂
        rfl

theorem scans_need (n : ℕ) : Scans n 0 (need n : Scanner β Unit) where
  grow := fun p l x h => by
    have hl : ¬ l.length < n := fun hc => h (if_pos hc)
    have hlx : ¬ (l ++ x).length < n := by simp only [List.length_append]; omega
    show (if (l ++ x).length < n then _ else _) = (if l.length < n then _ else _ : Res β Unit).append x
    rw [if_neg hl, if_neg hlx]
    rfl
  eats := fun {p l a q r} h => by
    have h' : (if l.length < n then .more else .ok () ⟨p, l⟩ : Res β Unit) = .ok a ⟨q, r⟩ := h
    split_ifs at h'
    obtain ⟨-, rfl, rfl⟩ := ok_inj h'
    exact ⟨[], rfl, rfl, le_refl 0⟩
  cut := fun {p l x a q r} h hr => by
    have h' : (if (l ++ x).length < n then .more else .ok () ⟨p, l ++ x⟩ : Res β Unit) =
        .ok a ⟨q, r ++ x⟩ := h
    split_ifs at h'
    obtain ⟨-, rfl, hs₂⟩ := ok_inj h'
    obtain rfl := List.append_cancel_right hs₂
    exact if_neg (Nat.not_lt.mpr hr)

theorem scanFrom_grow (stop illegal : β → Bool) (x : List β) : ∀ (acc : List β) (p : ℕ) (l : List β),
    scanFrom stop illegal acc p l ≠ .more →
      scanFrom stop illegal acc p (l ++ x) = (scanFrom stop illegal acc p l).append x
  | _, _, [] => fun h => absurd rfl h
  | acc, p, b :: r => fun h => by
      rw [List.cons_append]
      unfold scanFrom at h ⊢
      split_ifs at h ⊢
      · rfl
      · rfl
      · exact scanFrom_grow stop illegal x _ _ r h

theorem scanFrom_eats (stop illegal : β → Bool) : ∀ (acc : List β) (p : ℕ) (l : List β) {a q r},
    scanFrom stop illegal acc p l = .ok a ⟨q, r⟩ →
      ∃ u, l = u ++ r ∧ q = p + u.length ∧ a = acc ++ u ∧ (∀ b ∈ u, stop b = false)
  | _, _, [], _, _, _ => fun h => by cases h
  | acc, p, b :: l, a, q, r => fun h => by
      unfold scanFrom at h
      split_ifs at h with hs hi
      · obtain ⟨rfl, rfl, rfl⟩ := ok_inj h
        exact ⟨[], rfl, rfl, by simp, by simp⟩
      · obtain ⟨u, rfl, rfl, rfl, hu⟩ := scanFrom_eats stop illegal _ _ l h
        refine ⟨b :: u, rfl, by simp only [List.length_cons]; omega, by simp, ?_⟩
        intro c hc
        rcases List.mem_cons.mp hc with rfl | hc
        · simpa using hs
        · exact hu c hc

theorem scanFrom_cut (stop illegal : β → Bool) (x : List β) :
    ∀ (acc : List β) (p : ℕ) (l : List β) {a q r},
      scanFrom stop illegal acc p (l ++ x) = .ok a ⟨q, r ++ x⟩ → 1 ≤ r.length →
        scanFrom stop illegal acc p l = .ok a ⟨q, r⟩
  | acc, p, [], a, q, r => fun h hr => by
      obtain ⟨u, hx, -⟩ := scanFrom_eats stop illegal acc p x h
      have := congrArg List.length hx
      simp only [List.length_append] at this
      omega
  | acc, p, b :: l, a, q, r => fun h hr => by
      rw [List.cons_append] at h
      unfold scanFrom at h ⊢
      split_ifs at h ⊢
      · obtain ⟨rfl, rfl, hs₂⟩ := ok_inj h
        rw [← List.cons_append] at hs₂
        rw [List.append_cancel_right hs₂]
      · exact scanFrom_cut stop illegal x _ _ l h hr

theorem scans_scanUntil (stop illegal : β → Bool) : Scans 1 0 (scanUntil stop illegal) where
  grow := fun p l x h => scanFrom_grow stop illegal x [] p l h
  eats := fun h => by
    obtain ⟨u, h1, h2, -⟩ := scanFrom_eats stop illegal [] _ _ h
    exact ⟨u, h1, h2, Nat.zero_le _⟩
  cut := fun h hr => scanFrom_cut stop illegal _ [] _ _ h hr

/-- Sequencing: the bytes the second scanner consumes pay for the first one's lookahead. -/
theorem Scans.bind {k₁ j₁ k₂ j₂ : ℕ} {m : Scanner β α} {f : α → Scanner β γ} (hm : Scans k₁ j₁ m)
    (hf : ∀ a, Scans k₂ j₂ (f a)) : Scans (max k₂ (k₁ - j₂)) (j₁ + j₂) (m >>= f) where
  grow := fun p l x h => by
    rw [bind_run] at h ⊢
    rw [bind_run]
    cases hml : m ⟨p, l⟩ with
    | more => exact absurd (by rw [hml]; rfl) h
    | bad =>
        rw [hm.grow p l x (by rw [hml]; simp), hml]
        rfl
    | ok a c =>
        rw [hml] at h
        rw [hm.grow p l x (by rw [hml]; simp), hml]
        exact (hf a).grow c.pos c.rest x h
  eats := fun h => by
    obtain ⟨a, ⟨q, s⟩, h1, h2⟩ := bind_ok_iff.mp h
    obtain ⟨u, rfl, rfl, hu⟩ := hm.eats h1
    obtain ⟨v, rfl, rfl, hv⟩ := (hf a).eats h2
    refine ⟨u ++ v, by simp, by simp only [List.length_append]; omega, ?_⟩
    simp only [List.length_append]
    omega
  cut := fun {p l x b q' r'} h hr => by
    obtain ⟨a, ⟨q, s⟩, h1, h2⟩ := bind_ok_iff.mp h
    obtain ⟨v, rfl, -, hv⟩ := (hf a).eats h2
    rw [← List.append_assoc] at h1 h2
    have hk₂ : k₂ ≤ r'.length := (le_max_left _ _).trans hr
    have hk₁ : k₁ ≤ (v ++ r').length := by
      have := (le_max_right k₂ (k₁ - j₂)).trans hr
      simp only [List.length_append]
      omega
    exact bind_ok_iff.mpr ⟨a, _, hm.cut h1 hk₁, (hf a).cut h2 hk₂⟩

theorem Scans.ite {k j : ℕ} {c : Prop} [Decidable c] {m n : Scanner β α} (hm : Scans k j m)
    (hn : Scans k j n) : Scans k j (if c then m else n) := by
  split_ifs
  · exact hm
  · exact hn

theorem scans_reject (c : Prop) [Decidable c] : Scans 0 0 (reject c : Scanner β Unit) :=
  (scans_fail 0 0).ite (scans_pure ())

theorem scans_expect [DecidableEq β] (b : β) : Scans 0 1 (expect b) :=
  (scans_next.bind fun _ => (scans_pure ()).ite (scans_fail 0 0)).weaken
    (by simp) (by simp)

/-- A scanner that starts in the buffer `w` ends in it. -/
theorem Scans.stands {k j : ℕ} {m : Scanner β α} (hm : Scans k j m) {w : List β} {p : ℕ} {a : α}
    {c : Cursor β} (h : m ⟨p, w.drop p⟩ = .ok a c) : c = ⟨c.pos, w.drop c.pos⟩ := by
  obtain ⟨u, hu, hpos, -⟩ := hm.eats (q := c.pos) (r := c.rest) h
  rw [hpos, ← List.drop_drop, hu, List.drop_left, ← hpos]

/-! ### Scanners without lookahead -/

section exact
variable {j : ℕ} {m : Scanner β α} (hm : Scans 0 j m) {w : List β} {a : α} {q : ℕ} {r : List β}
include hm

/-- The consumed prefix alone gives the same answer. -/
theorem Scans.same_prefix (h : m ⟨0, w⟩ = .ok a ⟨q, r⟩) (x : List β) :
    m ⟨0, w.take q ++ x⟩ = .ok a ⟨q, x⟩ ∧ q ≤ w.length ∧ j ≤ q := by
  obtain ⟨u, rfl, hq, hu⟩ := hm.eats h
  have hq' : q = u.length := by omega
  have h' : m ⟨0, u ++ r⟩ = .ok a ⟨q, [] ++ r⟩ := h
  have hcut := hm.cut h' (Nat.zero_le _)
  have hgrow := hm.grow 0 u x (by rw [hcut]; simp)
  rw [hcut] at hgrow
  subst hq'
  rw [List.take_left]
  exact ⟨hgrow, by simp, hu⟩

/-- A shorter prefix asks for more. -/
theorem Scans.more_of_lt (h : m ⟨0, w⟩ = .ok a ⟨q, r⟩) {n : ℕ} (hn : n < q) :
    m ⟨0, w.take n⟩ = .more := by
  by_contra hc
  have hq := (hm.same_prefix h []).2.1
  have hgrow := hm.grow 0 (w.take n) (w.drop n) hc
  rw [List.take_append_drop, h] at hgrow
  cases hr : m ⟨0, w.take n⟩ with
  | more => exact hc hr
  | bad => rw [hr] at hgrow; cases hgrow
  | ok a' c =>
      obtain ⟨u, hu, hpos, -⟩ := hm.eats (q := c.pos) (r := c.rest) hr
      rw [hr] at hgrow
      obtain ⟨-, hc'⟩ := Res.ok.inj hgrow
      have hqc : q = c.pos := (Cursor.mk.inj hc').1
      have hlen := congrArg List.length hu
      simp only [List.length_take, List.length_append] at hlen
      omega

end exact

end Scan
