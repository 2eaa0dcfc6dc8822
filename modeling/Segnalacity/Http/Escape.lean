import Segnalacity.Http.Utils
import Segnalacity.Lib.Store

/-! # Escaped text

`html_escape` writes the entities of a prefix of its source, as many as its guard leaves room for:
`htmlEscape_spec`.  So its output has no character that HTML gives a meaning to, apart from the
`&` at the head of an entity, and it can be read back. -/

namespace Segnalacity.Http

open CStr

/-- The loop of `html_escape` on its destination, with `i` bytes written so far. -/
def htmlEscapeIntoFrom (max : ℕ) : ℕ → Bytes → Bytes → Option Bytes
  | i, [], dest => poke dest i 0
  | i, c :: s, dest =>
      if c ≠ 0 ∧ i + 7 < max then
        (memcpy dest i (htmlEntity c)).bind (htmlEscapeIntoFrom max (i + (htmlEntity c).length) s)
      else poke dest i 0

def htmlEscapeInto (src dest : Bytes) (max : ℕ) : Option Bytes := htmlEscapeIntoFrom max 0 src dest

/-! ### Entities -/

/-- The five entities with the characters they stand for. -/
def htmlEntities : List (UInt8 × Bytes) := [
  (60, bytes "&lt;"),
  (62, bytes "&gt;"),
  (38, bytes "&amp;"),
  (34, bytes "&quot;"),
  (39, bytes "&#39;")]

/-- `<`, `>` and the two quotes. -/
def isMarkup (c : UInt8) : Bool := c = 60 || c = 62 || c = 34 || c = 39

theorem htmlEntity_cases (c : UInt8) :
    (c, htmlEntity c) ∈ htmlEntities ∨ (htmlEntity c = [c] ∧ c ≠ 38 ∧ isMarkup c = false) := by
  by_cases h₁ : c = 60
  · subst h₁
    exact Or.inl (by decide)
  by_cases h₂ : c = 62
  · subst h₂
    exact Or.inl (by decide)
  by_cases h₃ : c = 38
  · subst h₃
    exact Or.inl (by decide)
  by_cases h₄ : c = 34
  · subst h₄
    exact Or.inl (by decide)
  by_cases h₅ : c = 39
  · subst h₅
    exact Or.inl (by decide)
  right
  simp [htmlEntity, isMarkup, h₁, h₂, h₃, h₄, h₅]

/-- An entity is a `&` and plain characters. -/
theorem htmlEntities_shape : ∀ x ∈ htmlEntities,
    x.2.length ≤ 6 ∧ x.2.head? = some 38 ∧ 38 ∉ x.2.tail ∧ ∀ b ∈ x.2, isMarkup b = false := by
  decide

theorem htmlEntity_length (c : UInt8) : (htmlEntity c).length ≤ 6 := by
  rcases htmlEntity_cases c with h | ⟨h, -, -⟩
  · exact (htmlEntities_shape _ h).1
  · simp [h]

theorem htmlEntity_unmarked (c : UInt8) : ∀ b ∈ htmlEntity c, isMarkup b = false := by
  rcases htmlEntity_cases c with h | ⟨h, -, hc⟩
  · exact (htmlEntities_shape _ h).2.2.2
  · simp [h, hc]

theorem htmlEntity_ampersand {c : UInt8} {a x : Bytes} (h : htmlEntity c = a ++ 38 :: x) :
    a = [] ∧ (c, htmlEntity c) ∈ htmlEntities := by
  rcases htmlEntity_cases c with hc | ⟨hc, hne, -⟩
  · refine ⟨?_, hc⟩
    have htail := (htmlEntities_shape _ hc).2.2.1
    rw [h] at htail
    cases a with
    | nil => rfl
    | cons b a => simp at htail
  · rw [hc] at h
    cases a with
    | nil => exact absurd (List.cons.inj h).1 hne
    | cons b a => simp at h

/-! ### What is written -/

/-- The output is the entities of a prefix of the source. -/
theorem htmlEscapeFrom_flatMap (max i : ℕ) (s : Bytes) :
    ∃ p, p <+: cstr s ∧ htmlEscapeFrom max i s = p.flatMap htmlEntity := by
  induction s generalizing i with
  | nil => exact ⟨[], List.nil_prefix, rfl⟩
  | cons c s ih =>
      unfold htmlEscapeFrom
      split_ifs with h
      · obtain ⟨p, hp, heq⟩ := ih (i + (htmlEntity c).length)
        refine ⟨c :: p, ?_, by rw [heq, List.flatMap_cons]⟩
        simp only [cstr, List.takeWhile_cons, h.1, ne_eq, not_false_eq_true, decide_true, if_true]
        exact (List.prefix_cons_inj c).mpr hp
      · exact ⟨[], List.nil_prefix, rfl⟩

/-- With enough room the whole of the source is written. -/
theorem htmlEscapeFrom_whole {max i : ℕ} {s : Bytes}
    (h : i + ((cstr s).flatMap htmlEntity).length + 7 < max) :
    htmlEscapeFrom max i s = (cstr s).flatMap htmlEntity := by
  induction s generalizing i with
  | nil => rfl
  | cons c s ih =>
      unfold htmlEscapeFrom
      by_cases hc : c = 0
      · simp [cstr, hc]
      · have hcstr : cstr (c :: s) = c :: cstr s := by simp [cstr, hc]
        rw [hcstr, List.flatMap_cons, List.length_append] at h
        rw [if_pos ⟨hc, by omega⟩, hcstr, List.flatMap_cons, ih (by omega)]

/-- There is room for the NUL. -/
theorem htmlEscapeFrom_length {max i : ℕ} (s : Bytes) (h : i < max) :
    i + (htmlEscapeFrom max i s).length < max := by
  induction s generalizing i with
  | nil => exact h
  | cons c s ih =>
      unfold htmlEscapeFrom
      split_ifs with hroom
      · have hentity := htmlEntity_length c
        have hrest := ih (i := i + (htmlEntity c).length) (by omega)
        rw [List.length_append]
        omega
      · exact h

/-- No store is outside of the `max` bytes, and the bytes behind the NUL are kept. -/
theorem htmlEscapeIntoFrom_eq {max : ℕ} {dest text : Bytes} (s : Bytes) (hdest : max ≤ dest.length)
    (h : text.length < max) : htmlEscapeIntoFrom max text.length s (overlay text dest) =
      some (overlay (text ++ htmlEscapeFrom max text.length s ++ [0]) dest) := by
  induction s generalizing text with
  | nil =>
      unfold htmlEscapeIntoFrom htmlEscapeFrom
      rw [poke_overlay (by omega), List.append_nil]
  | cons c s ih =>
      unfold htmlEscapeIntoFrom htmlEscapeFrom
      split_ifs with hroom
      · have hentity := htmlEntity_length c
        have hrest := @ih (text ++ htmlEntity c) (by rw [List.length_append]; omega)
        rw [memcpy_overlay (by omega), Option.bind_some, ← List.append_assoc]
        rw [List.length_append] at hrest
        exact hrest
      · rw [poke_overlay (by omega), List.append_nil]

/-! ### Reading back -/

/-- The entity at the head of a text. -/
def entityAt (s : Bytes) : Option (UInt8 × Bytes) := htmlEntities.find? fun x => x.2.isPrefixOf s

/-- Un-escaping, with the number of bytes of an entity that are still to be passed over. -/
def htmlUnescapeFrom : ℕ → Bytes → Bytes
  | _, [] => []
  | n + 1, _ :: s => htmlUnescapeFrom n s
  | 0, c :: s => match entityAt (c :: s) with
      | some x => x.1 :: htmlUnescapeFrom (x.2.length - 1) s
      | none => c :: htmlUnescapeFrom 0 s

/-- What a browser shows of escaped text. -/
def htmlUnescape (s : Bytes) : Bytes := htmlUnescapeFrom 0 s

theorem htmlUnescapeFrom_append (x s : Bytes) :
    htmlUnescapeFrom x.length (x ++ s) = htmlUnescapeFrom 0 s := by
  induction x with
  | nil => rfl
  | cons c x ih => exact ih

theorem entityAt_append : ∀ x ∈ htmlEntities, ∀ s, entityAt (x.2 ++ s) = some x := by
  simp only [htmlEntities, List.mem_cons, List.not_mem_nil, or_false]
  rintro x (rfl | rfl | rfl | rfl | rfl) s <;> rfl

theorem entityAt_ne {c : UInt8} (s : Bytes) (h : c ≠ 38) : entityAt (c :: s) = none := by
  unfold entityAt
  rw [List.find?_eq_none]
  intro x hx hstart
  have hhead := (htmlEntities_shape x hx).2.1
  rw [List.isPrefixOf_iff_prefix] at hstart
  obtain ⟨r, hr⟩ := hstart
  cases hx2 : x.2 with
  | nil => simp [hx2] at hhead
  | cons b t =>
      rw [hx2] at hhead hr
      exact h ((List.cons.inj hr).1.symm.trans (Option.some.inj hhead))

theorem htmlUnescape_entity (c : UInt8) (s : Bytes) :
    htmlUnescape (htmlEntity c ++ s) = c :: htmlUnescape s := by
  rcases htmlEntity_cases c with h | ⟨h, hne, -⟩
  · have hat := entityAt_append _ h s
    have hhead := (htmlEntities_shape _ h).2.1
    cases hx : htmlEntity c with
    | nil => simp [hx] at hhead
    | cons b t =>
        rw [hx] at hat
        show htmlUnescapeFrom 0 (b :: (t ++ s)) = _
        unfold htmlUnescapeFrom
        rw [show entityAt (b :: (t ++ s)) = some (c, b :: t) from hat]
        show c :: htmlUnescapeFrom t.length (t ++ s) = _
        rw [htmlUnescapeFrom_append]
        rfl
  · rw [h]
    show htmlUnescapeFrom 0 (c :: s) = _
    unfold htmlUnescapeFrom
    rw [entityAt_ne s hne]
    rfl

theorem htmlUnescape_flatMap (p : Bytes) : htmlUnescape (p.flatMap htmlEntity) = p := by
  induction p with
  | nil => rfl
  | cons c p ih => rw [List.flatMap_cons, htmlUnescape_entity, ih]

/-! ### Safe text -/

/-- A text without markup in which every `&` is the head of one of the five entities. -/
structure Escaped (s : Bytes) : Prop where
  unmarked : ∀ b ∈ s, isMarkup b = false
  ampersand : ∀ a b, s = a ++ 38 :: b → ∃ x ∈ htmlEntities, x.2 <+: 38 :: b

theorem escaped_flatMap (p : Bytes) : Escaped (p.flatMap htmlEntity) := by
  constructor
  · intro b hb
    obtain ⟨c, -, hc⟩ := List.mem_flatMap.mp hb
    exact htmlEntity_unmarked c b hc
  · induction p with
    | nil => intro a b h; simp at h
    | cons c p ih =>
        intro a b h
        rw [List.flatMap_cons, List.append_eq_append_iff] at h
        rcases h with ⟨a', -, hrest⟩ | ⟨x, hentity, hrest⟩
        · exact ih a' b hrest
        · cases x with
          | nil => exact ih [] b hrest.symm
          | cons d x =>
              obtain ⟨rfl, rfl⟩ := List.cons.inj hrest
              obtain ⟨rfl, hmem⟩ := htmlEntity_ampersand hentity
              refine ⟨_, hmem, ?_⟩
              rw [hentity]
              exact ⟨p.flatMap htmlEntity, rfl⟩

theorem htmlEscape_escaped (src : Bytes) (max : ℕ) : Escaped (htmlEscape src max) := by
  obtain ⟨p, -, hp⟩ := htmlEscapeFrom_flatMap max 0 src
  rw [htmlEscape, hp]
  exact escaped_flatMap p

/-- **Escaping.**  In a destination of at least `max` bytes `html_escape` writes a text and its NUL,
at most `max` bytes, and leaves the bytes behind them as they were.  The text is escaped, it reads
back to a prefix of the source, and to the whole of it when there is room. -/
theorem htmlEscape_spec (src dest : Bytes) {max : ℕ} (hmax : 1 ≤ max) (hdest : max ≤ dest.length) :
    ∃ text, htmlEscapeInto src dest max = some (overlay (text ++ [0]) dest) ∧
      (text ++ [0]).length ≤ max ∧ Escaped text ∧ htmlUnescape text <+: cstr src ∧
      (((cstr src).flatMap htmlEntity).length + 7 < max → htmlUnescape text = cstr src) := by
  have hroom : 0 < max := hmax
  have hinto : htmlEscapeIntoFrom max ([] : Bytes).length src (overlay [] dest) = _ :=
    htmlEscapeIntoFrom_eq src hdest hroom
  have hlength := htmlEscapeFrom_length src hroom
  obtain ⟨p, hp, heq⟩ := htmlEscapeFrom_flatMap max 0 src
  refine ⟨htmlEscape src max, hinto, ?_, htmlEscape_escaped src max, ?_, ?_⟩
  · rw [List.length_append, List.length_singleton]
    unfold htmlEscape
    omega
  · rw [htmlEscape, heq, htmlUnescape_flatMap]
    exact hp
  · intro hwhole
    rw [htmlEscape, htmlEscapeFrom_whole (by omega), htmlUnescape_flatMap]

/-- A destination of 19 bytes: the guard stops at the second entity. -/
theorem htmlEscape_spec_quotes :
    ∃ text, htmlEscapeInto (bytes "a<b\"") (List.replicate 20 7) 19 =
        some (overlay (text ++ [0]) (List.replicate 20 7)) ∧
      (text ++ [0]).length ≤ 19 ∧ Escaped text ∧ htmlUnescape text <+: cstr (bytes "a<b\"") ∧
      (((cstr (bytes "a<b\"")).flatMap htmlEntity).length + 7 < 19 →
        htmlUnescape text = cstr (bytes "a<b\"")) :=
  htmlEscape_spec (bytes "a<b\"") (List.replicate 20 7) (by decide) (by decide)

end Segnalacity.Http
