import Mathlib.Data.Nat.Basic
import Segnalacity.Lib.Scan

/-! # Exact formats

`Recognizes m text value follow` says that the scanner `m` accepts exactly the texts of the syntax
trees of a type: `text s` is the text of the tree `s`, `value p s` what the scanner makes of it
at position `p`, and `follow s r` holds when `s` may stand in front of the unread bytes `r`
(a condition on `s` alone is one on every `r`).  A scanner with a format

* accepts every text of it, whatever stands behind as long as it may (`accepts`);
* accepts nothing else (`sound`);
* has one tree for a text: no two trees fit at the same place (`unique`).

Together: success is the existence of exactly one tree (`Recognizes.ok_iff`).  Formats are closed
under sequencing (`Recognizes.bind`), guards, choice by the next byte (`Recognizes.choice`) and a
change of trees (`Recognizes.reshape`). -/

namespace Scan

open Scanner

variable {β α γ σ τ : Type}

structure Recognizes (m : Scanner β α) (text : σ → List β) (value : ℕ → σ → α)
    (follow : σ → List β → Prop) : Prop where
  accepts : ∀ (p : ℕ) {s : σ} {r : List β}, follow s r →
    m ⟨p, text s ++ r⟩ = .ok (value p s) ⟨p + (text s).length, r⟩
  sound : ∀ {p : ℕ} {l : List β} {a : α} {q : ℕ} {r : List β}, m ⟨p, l⟩ = .ok a ⟨q, r⟩ →
    ∃ s, follow s r ∧ l = text s ++ r ∧ q = p + (text s).length ∧ a = value p s
  unique : ∀ {s s' : σ} {r r' : List β}, follow s r → follow s' r' →
    text s ++ r = text s' ++ r' → s = s'

section format
variable {m : Scanner β α} {text : σ → List β} {value : ℕ → σ → α} {follow : σ → List β → Prop}

/-- Success at a position is the existence of exactly one tree there. -/
theorem Recognizes.ok_iff (h : Recognizes m text value follow) {p q : ℕ} {l r : List β} {a : α} :
    m ⟨p, l⟩ = .ok a ⟨q, r⟩ ↔
      ∃! s, follow s r ∧ l = text s ++ r ∧ q = p + (text s).length ∧ a = value p s := by
  constructor
  · intro hok
    obtain ⟨s, hs, hl, hq, ha⟩ := h.sound hok
    refine ⟨s, ⟨hs, hl, hq, ha⟩, ?_⟩
    rintro s' ⟨hs', hl', -⟩
    exact h.unique hs' hs (hl'.symm.trans hl)
  · rintro ⟨s, ⟨hs, rfl, rfl, rfl⟩, -⟩
    exact h.accepts p hs

/-- Another type of trees, each of which is one of the trees that may stand somewhere. -/
theorem Recognizes.reshape (h : Recognizes m text value follow) (f : τ → σ) {text' : τ → List β}
    {value' : ℕ → τ → α} {follow' : τ → List β → Prop} (hf : Function.Injective f)
    (hall : ∀ s r, follow s r → ∃ t, f t = s)
    (htext : ∀ t, text' t = text (f t)) (hvalue : ∀ p t, value' p t = value p (f t))
    (hfollow : ∀ t r, follow' t r ↔ follow (f t) r) : Recognizes m text' value' follow' where
  accepts := by
    intro p t r ht
    rw [htext, hvalue]
    exact h.accepts p ((hfollow t r).mp ht)
  sound := by
    intro p l a q r hok
    obtain ⟨s, hs, hl, hq, ha⟩ := h.sound hok
    obtain ⟨t, rfl⟩ := hall s r hs
    refine ⟨t, (hfollow t r).mpr hs, ?_, ?_, ?_⟩
    · rw [htext]
      exact hl
    · rw [htext]
      exact hq
    · rw [hvalue]
      exact ha
  unique := by
    intro t t' r r' ht ht' heq
    rw [htext, htext] at heq
    exact hf (h.unique ((hfollow t r).mp ht) ((hfollow t' r').mp ht') heq)

/-- The second scanner and its format may depend on the first tree. -/
theorem Recognizes.bind {f : α → Scanner β γ} {text₂ : σ → τ → List β} {value₂ : σ → ℕ → ℕ → τ → γ}
    {follow₂ : σ → τ → List β → Prop} (h : Recognizes m text value follow)
    (hf : ∀ p s, Recognizes (f (value p s)) (text₂ s) (value₂ s p) (follow₂ s)) :
    Recognizes (m >>= f) (fun s : σ × τ => text s.1 ++ text₂ s.1 s.2)
      (fun p s => value₂ s.1 p (p + (text s.1).length) s.2)
      (fun s r => follow s.1 (text₂ s.1 s.2 ++ r) ∧ follow₂ s.1 s.2 r) where
  accepts := by
    rintro p ⟨s, t⟩ r ⟨hs, ht⟩
    have h₁ := h.accepts p hs
    have h₂ := (hf p s).accepts (p + (text s).length) ht
    rw [← List.append_assoc] at h₁
    rw [Nat.add_assoc, ← List.length_append] at h₂
    exact bind_ok_iff.mpr ⟨_, _, h₁, h₂⟩
  sound := by
    intro p l b q r hok
    obtain ⟨a, ⟨q', r'⟩, h₁, h₂⟩ := bind_ok_iff.mp hok
    obtain ⟨s, hs, rfl, rfl, rfl⟩ := h.sound h₁
    obtain ⟨t, ht, rfl, rfl, rfl⟩ := (hf p s).sound h₂
    refine ⟨(s, t), ⟨hs, ht⟩, ?_, ?_, rfl⟩
    · rw [List.append_assoc]
    · rw [List.length_append, Nat.add_assoc]
  unique := by
    rintro ⟨s, t⟩ ⟨s', t'⟩ r r' ⟨hs, ht⟩ ⟨hs', ht'⟩ heq
    simp only [List.append_assoc] at heq
    obtain rfl := h.unique hs hs' heq
    have heq₂ := List.append_cancel_left heq
    obtain rfl := (hf 0 s).unique ht ht' heq₂
    rfl

/-- The value is computed from the value read. -/
theorem Recognizes.map (h : Recognizes m text value follow) (f : α → γ) :
    Recognizes (m >>= fun a => pure (f a)) text (fun p s => f (value p s)) follow where
  accepts := fun p _ _ hs => bind_ok_iff.mpr ⟨_, _, h.accepts p hs, rfl⟩
  sound := by
    intro p l b q r hok
    obtain ⟨a, c, h₁, h₂⟩ := bind_ok_iff.mp hok
    obtain ⟨rfl, rfl⟩ := Res.ok.inj h₂
    obtain ⟨s, hs, hl, hq, rfl⟩ := h.sound h₁
    exact ⟨s, hs, hl, hq, rfl⟩
  unique := h.unique

/-- A scanner that runs under a condition. -/
theorem Recognizes.guard (h : Recognizes m text value follow) (c : Prop) [Decidable c] :
    Recognizes (if c then m else fail) text value (fun s r => c ∧ follow s r) where
  accepts := by
    rintro p s r ⟨hc, hs⟩
    rw [if_pos hc]
    exact h.accepts p hs
  sound := by
    intro p l a q r hok
    split_ifs at hok with hc
    · obtain ⟨s, hs, hrest⟩ := h.sound hok
      exact ⟨s, ⟨hc, hs⟩, hrest⟩
    · cases hok
  unique := fun hs hs' heq => h.unique hs.2 hs'.2 heq

/-- The next byte decides between two formats. -/
theorem Recognizes.choice {n : Scanner β α} {text₂ : τ → List β} {value₂ : ℕ → τ → α}
    {follow₂ : τ → List β → Prop} (h : Recognizes m text value follow)
    (h₂ : Recognizes n text₂ value₂ follow₂) (d : β → Prop) [DecidablePred d] :
    Recognizes (peek >>= fun b => if d b then m else n) (Sum.elim text text₂)
      (fun p => Sum.elim (value p) (value₂ p))
      (fun s r => s.elim (fun s => follow s r ∧ ∃ b ∈ (text s ++ r).head?, d b)
        (fun t => follow₂ t r ∧ ∃ b ∈ (text₂ t ++ r).head?, ¬ d b)) where
  accepts := by
    intro p s r hs
    have hpeek : ∀ {l : List β} {b : β}, b ∈ l.head? → peek ⟨p, l⟩ = .ok b ⟨p, l⟩ := by
      intro l b hb
      cases l with
      | nil => cases hb
      | cons b' l =>
          obtain rfl := Option.some.inj hb
          rfl
    cases s with
    | inl s =>
        obtain ⟨hs, b, hb, hd⟩ := hs
        refine bind_ok_iff.mpr ⟨b, _, hpeek hb, ?_⟩
        rw [if_pos hd]
        exact h.accepts p hs
    | inr t =>
        obtain ⟨ht, b, hb, hd⟩ := hs
        refine bind_ok_iff.mpr ⟨b, _, hpeek hb, ?_⟩
        rw [if_neg hd]
        exact h₂.accepts p ht
  sound := by
    intro p l a q r hok
    obtain ⟨b, c, h₁, hrest⟩ := bind_ok_iff.mp hok
    cases l with
    | nil => cases h₁
    | cons b' l =>
        obtain ⟨rfl, rfl⟩ := Res.ok.inj h₁
        split_ifs at hrest with hd
        · obtain ⟨s, hs, hl, hq, ha⟩ := h.sound hrest
          refine ⟨.inl s, ⟨hs, b', ?_, hd⟩, hl, hq, ha⟩
          rw [← hl]
          rfl
        · obtain ⟨t, ht, hl, hq, ha⟩ := h₂.sound hrest
          refine ⟨.inr t, ⟨ht, b', ?_, hd⟩, hl, hq, ha⟩
          rw [← hl]
          rfl
  unique := by
    intro s s' r r' hs hs' heq
    cases s with
    | inl s => cases s' with
      | inl s' => rw [h.unique hs.1 hs'.1 heq]
      | inr t' =>
          obtain ⟨-, b, hb, hd⟩ := hs
          obtain ⟨-, b', hb', hd'⟩ := hs'
          simp only [Sum.elim_inl, Sum.elim_inr] at heq
          rw [heq, Option.mem_unique hb hb'] at *
          exact absurd hd hd'
    | inr t => cases s' with
      | inl s' =>
          obtain ⟨-, b, hb, hd⟩ := hs
          obtain ⟨-, b', hb', hd'⟩ := hs'
          simp only [Sum.elim_inl, Sum.elim_inr] at heq
          rw [heq] at hb
          obtain rfl := Option.mem_unique hb hb'
          exact absurd hd' hd
      | inr t' => rw [h₂.unique hs.1 hs'.1 heq]

end format

/-! ### Formats of the basic scanners -/

theorem recognizes_pure (a : α) :
    Recognizes (pure a : Scanner β α) (fun _ : Unit => []) (fun _ _ => a) (fun _ _ => True) where
  accepts := fun _ _ _ _ => rfl
  sound := by
    intro p l b q r hok
    obtain ⟨rfl, rfl, rfl⟩ := ok_inj hok
    exact ⟨(), trivial, rfl, rfl, rfl⟩
  unique := fun _ _ _ => rfl

/-- Nothing is accepted, whatever the trees are. -/
theorem recognizes_fail (text : σ → List β) (value : ℕ → σ → α) :
    Recognizes (fail : Scanner β α) text value (fun _ _ => False) where
  accepts := fun _ _ _ h => h.elim
  sound := fun h => by cases h
  unique := fun h => h.elim

theorem recognizes_pos :
    Recognizes (pos : Scanner β ℕ) (fun _ : Unit => []) (fun p _ => p) (fun _ _ => True) where
  accepts := fun _ _ _ _ => rfl
  sound := by
    intro p l b q r hok
    obtain ⟨rfl, rfl, rfl⟩ := ok_inj hok
    exact ⟨(), trivial, rfl, rfl, rfl⟩
  unique := fun _ _ _ => rfl

theorem recognizes_next :
    Recognizes (next : Scanner β β) (fun b : β => [b]) (fun _ b => b) (fun _ _ => True) where
  accepts := fun _ _ _ _ => rfl
  sound := by
    intro p l b q r hok
    cases l with
    | nil => cases hok
    | cons b' l =>
        obtain ⟨rfl, rfl, rfl⟩ := ok_inj hok
        exact ⟨b', trivial, rfl, rfl, rfl⟩
  unique := fun _ _ heq => (List.cons.inj heq).1

theorem recognizes_reject (c : Prop) [Decidable c] :
    Recognizes (reject c : Scanner β Unit) (fun _ : Unit => []) (fun _ _ => ())
      (fun _ _ => ¬ c) where
  accepts := fun p _ r hc => by
    show (if c then fail else pure ()) (⟨p, r⟩ : Cursor β) = _
    rw [if_neg hc]
    rfl
  sound := by
    intro p l b q r hok
    have hok' : (if c then fail else pure ()) (⟨p, l⟩ : Cursor β) = .ok b ⟨q, r⟩ := hok
    split_ifs at hok' with hc
    · cases hok'
    · obtain ⟨rfl, rfl, rfl⟩ := ok_inj hok'
      exact ⟨(), hc, rfl, rfl, rfl⟩
  unique := fun _ _ _ => rfl

theorem recognizes_need (n : ℕ) :
    Recognizes (need n : Scanner β Unit) (fun _ : Unit => []) (fun _ _ => ())
      (fun _ r => n ≤ r.length) where
  accepts := fun p _ r hr => by
    show (if r.length < n then .more else .ok () ⟨p, r⟩ : Res β Unit) = _
    rw [if_neg (by omega)]
    rfl
  sound := by
    intro p l b q r hok
    have hok' : (if l.length < n then .more else .ok () ⟨p, l⟩ : Res β Unit) = .ok b ⟨q, r⟩ := hok
    split_ifs at hok' with hc
    obtain ⟨rfl, rfl, rfl⟩ := ok_inj hok'
    exact ⟨(), by omega, rfl, rfl, rfl⟩
  unique := fun _ _ _ => rfl

theorem recognizes_expect [DecidableEq β] (b : β) :
    Recognizes (expect b) (fun _ : Unit => [b]) (fun _ _ => ()) (fun _ _ => True) where
  accepts := fun p _ r _ => by
    apply bind_ok_iff.mpr
    exact ⟨b, _, rfl, by rw [if_pos rfl]; rfl⟩
  sound := by
    intro p l a q r hok
    obtain ⟨b', c, h₁, h₂⟩ := bind_ok_iff.mp hok
    cases l with
    | nil => cases h₁
    | cons b'' l =>
        obtain ⟨rfl, rfl⟩ := Res.ok.inj h₁
        split_ifs at h₂ with hb
        · obtain ⟨rfl, rfl, rfl⟩ := ok_inj h₂
          exact ⟨(), trivial, by rw [hb]; rfl, rfl, rfl⟩
        · cases h₂
  unique := fun _ _ _ => rfl

/-! ### Runs of bytes -/

/-- A run of bytes that the next byte ends. -/
def RunEnds (stop : β → Bool) (u r : List β) : Prop :=
  (∀ b ∈ u, stop b = false) ∧ ∃ b ∈ r.head?, stop b = true

/-- A run is as long as it can be. -/
theorem RunEnds.unique {stop : β → Bool} : ∀ {u u' r r' : List β}, RunEnds stop u r →
    RunEnds stop u' r' → u ++ r = u' ++ r' → u = u'
  | [], [], _, _ => fun _ _ _ => rfl
  | [], b :: u', _, _ => fun h h' heq => by
      obtain ⟨c, hc, hstop⟩ := h.2
      rw [List.nil_append] at heq
      rw [heq] at hc
      obtain rfl := Option.some.inj hc
      rw [h'.1 b List.mem_cons_self] at hstop
      cases hstop
  | b :: u, [], _, _ => fun h h' heq => by
      obtain ⟨c, hc, hstop⟩ := h'.2
      rw [List.nil_append] at heq
      rw [← heq] at hc
      obtain rfl := Option.some.inj hc
      rw [h.1 b List.mem_cons_self] at hstop
      cases hstop
  | b :: u, b' :: u', r, r' => fun h h' heq => by
      obtain ⟨rfl, htail⟩ := List.cons.inj heq
      have hu : RunEnds stop u r := ⟨fun c hc => h.1 c (List.mem_cons_of_mem _ hc), h.2⟩
      have hu' : RunEnds stop u' r' := ⟨fun c hc => h'.1 c (List.mem_cons_of_mem _ hc), h'.2⟩
      rw [hu.unique hu' htail]

theorem scanFrom_run (stop illegal : β → Bool) : ∀ (acc : List β) (p : ℕ) {u r : List β},
    RunEnds stop u r → (∀ b ∈ u, illegal b = false) →
      scanFrom stop illegal acc p (u ++ r) = .ok (acc ++ u) ⟨p + u.length, r⟩
  | acc, p, [], r => fun h _ => by
      obtain ⟨b, hb, hstop⟩ := h.2
      cases r with
      | nil => cases hb
      | cons b' r =>
          obtain rfl := Option.some.inj hb
          rw [List.nil_append, List.append_nil]
          unfold scanFrom
          rw [if_pos hstop]
          rfl
  | acc, p, b :: u, r => fun h hlegal => by
      have hu : RunEnds stop u r := ⟨fun c hc => h.1 c (List.mem_cons_of_mem _ hc), h.2⟩
      have hrec := scanFrom_run stop illegal (acc ++ [b]) (p + 1) hu
        (fun c hc => hlegal c (List.mem_cons_of_mem _ hc))
      rw [List.cons_append]
      unfold scanFrom
      rw [if_neg (by simp [h.1 b List.mem_cons_self]),
        if_neg (by simp [hlegal b List.mem_cons_self]), hrec]
      simp [Nat.add_comm, Nat.add_left_comm]

theorem scanFrom_sound (stop illegal : β → Bool) : ∀ (acc : List β) (p : ℕ) (l : List β) {a q r},
    scanFrom stop illegal acc p l = .ok a ⟨q, r⟩ →
      ∃ u, l = u ++ r ∧ q = p + u.length ∧ a = acc ++ u ∧ RunEnds stop u r ∧
        ∀ b ∈ u, illegal b = false
  | _, _, [], _, _, _ => fun h => by cases h
  | acc, p, b :: l, a, q, r => fun h => by
      unfold scanFrom at h
      split_ifs at h with hs hi
      · obtain ⟨rfl, rfl, rfl⟩ := ok_inj h
        refine ⟨[], rfl, rfl, by simp, ⟨by simp, b, rfl, hs⟩, by simp⟩
      · obtain ⟨u, rfl, rfl, rfl, hu, hlegal⟩ := scanFrom_sound stop illegal _ _ l h
        refine ⟨b :: u, rfl, by simp only [List.length_cons]; omega, by simp, ⟨?_, hu.2⟩, ?_⟩
        · simpa [hs] using hu.1
        · simpa [hi] using hlegal

theorem recognizes_scanUntil (stop illegal : β → Bool) :
    Recognizes (scanUntil stop illegal) (fun u : List β => u) (fun _ u => u)
      (fun u r => RunEnds stop u r ∧ ∀ b ∈ u, illegal b = false) where
  accepts := fun p _ _ h => scanFrom_run stop illegal [] p h.1 h.2
  sound := by
    intro p l a q r hok
    obtain ⟨u, hl, hq, ha, hu⟩ := scanFrom_sound stop illegal [] p l hok
    exact ⟨u, hu, hl, hq, ha⟩
  unique := fun h h' heq => h.1.unique h'.1 heq

end Scan
