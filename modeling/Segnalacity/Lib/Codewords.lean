import Mathlib.Data.List.Basic
import Mathlib.Tactic.Common

/-! # Texts of codewords

A text writes a list of symbols, each as its codeword.  In a self-synchronising code, like UTF-8, no word
starts another one and the first letter of a word can be told from the others.  Such a text can be cut in
front of a first letter and nowhere else (`isText_take_iff`), also after its words of one letter have been
replaced by texts (`isText_flatMap_take_iff`). -/

namespace Codewords

variable {α β : Type}

structure SelfSync (enc : α → List β) (First : β → Prop) : Prop where
  ne_nil : ∀ a, enc a ≠ []
  unique : ∀ {a b : α} {s t : List β}, enc a ++ s = enc b ++ t → a = b
  first_iff : ∀ {a : α} {i : ℕ} {b : β}, (enc a)[i]? = some b → (First b ↔ i = 0)

def IsText (enc : α → List β) (s : List β) : Prop := ∃ as : List α, s = as.flatMap enc

section texts
variable {enc : α → List β} {s t : List β}

theorem isText_nil : IsText enc [] := ⟨[], rfl⟩

theorem isText_word (a : α) : IsText enc (enc a) := ⟨[a], (List.flatMap_singleton _ _).symm⟩

theorem IsText.append (hs : IsText enc s) (ht : IsText enc t) : IsText enc (s ++ t) := by
  obtain ⟨as, rfl⟩ := hs
  obtain ⟨bs, rfl⟩ := ht
  exact ⟨as ++ bs, List.flatMap_append.symm⟩

variable {First : β → Prop} (h : SelfSync enc First)
include h

theorem isText_word_append {a : α} : IsText enc (enc a ++ t) ↔ IsText enc t := by
  refine ⟨fun ht => ?_, fun ht => (isText_word a).append ht⟩
  obtain ⟨bs, hbs⟩ := ht
  cases bs with
  | nil => exact absurd (List.append_eq_nil_iff.mp hbs).1 (h.ne_nil a)
  | cons b bs =>
      rw [List.flatMap_cons] at hbs
      obtain rfl := h.unique hbs
      exact ⟨bs, List.append_cancel_left hbs⟩

theorem isText_append_iff (hs : IsText enc s) : IsText enc (s ++ t) ↔ IsText enc t := by
  obtain ⟨as, rfl⟩ := hs
  induction as with
  | nil => rfl
  | cons a as ih => rw [List.flatMap_cons, List.append_assoc, isText_word_append h, ih]

/-- A part from the start of a word is no text. -/
theorem not_isText_take {a : α} {n : ℕ} (hpos : 0 < n) (hlt : n < (enc a).length) :
    ¬ IsText enc ((enc a).take n) := by
  rintro ⟨bs, hbs⟩
  cases bs with
  | nil =>
      have hlength := congrArg List.length hbs
      rw [List.length_take, List.flatMap_nil, List.length_nil] at hlength
      omega
  | cons b bs =>
      rw [List.flatMap_cons] at hbs
      have hword : enc a ++ [] = enc b ++ (bs.flatMap enc ++ (enc a).drop n) := by
        rw [List.append_nil, ← List.append_assoc, ← hbs, List.take_append_drop]
      obtain rfl := h.unique hword
      have hlength := congrArg List.length hbs
      rw [List.length_take, List.length_append] at hlength
      omega

/-- **A text is cut in front of a first letter, or not at all.** -/
theorem isText_take_iff (hs : IsText enc s) (n : ℕ) :
    IsText enc (s.take n) ↔ ∀ b, s[n]? = some b → First b := by
  obtain ⟨as, rfl⟩ := hs
  induction as generalizing n with
  | nil =>
      rw [List.flatMap_nil, List.take_nil]
      exact iff_of_true isText_nil nofun
  | cons a as ih =>
      rw [List.flatMap_cons]
      rcases Nat.lt_or_ge n (enc a).length with hlt | hge
      · rw [List.take_append_of_le_length (Nat.le_of_lt hlt), List.getElem?_append_left hlt,
          List.getElem?_eq_getElem hlt]
        have hfirst := h.first_iff (List.getElem?_eq_getElem hlt)
        rcases Nat.eq_zero_or_pos n with rfl | hpos
        · rw [List.take_zero]
          refine iff_of_true isText_nil fun b hb => ?_
          rw [← Option.some.inj hb]
          exact hfirst.mpr rfl
        · refine iff_of_false (not_isText_take h hpos hlt) fun hall => ?_
          have hzero := hfirst.mp (hall _ rfl)
          omega
      · obtain ⟨k, rfl⟩ := Nat.exists_eq_add_of_le hge
        rw [List.take_length_add_append, isText_word_append h, ih,
          List.getElem?_append_right (Nat.le_add_right _ _), Nat.add_sub_cancel_left]

/-- A letter that is a word by itself stands in no longer word. -/
theorem not_mem_of_word {a c : α} {b : β} (hlong : 1 < (enc a).length) (hc : enc c = [b])
    (hfirst : First b) : b ∉ enc a := by
  intro hb
  obtain ⟨i, hi⟩ := List.mem_iff_getElem?.mp hb
  obtain rfl := (h.first_iff hi).mp hfirst
  cases ha : enc a with
  | nil => exact h.ne_nil a ha
  | cons d r =>
      rw [ha] at hi
      have hword : enc c ++ r = enc a ++ [] := by
        rw [hc, ha, List.append_nil]
        exact congrArg (· :: r) (Option.some.inj hi).symm
      obtain rfl := h.unique hword
      rw [hc] at hlong
      exact absurd hlong (Nat.lt_irrefl 1)

/-- Replacing words of one letter changes nothing for where a text can be cut. -/
theorem isText_flatMap_take_iff {f : β → List β} (hword : ∀ a, IsText enc ((enc a).flatMap f))
    (hlong : ∀ a, 1 < (enc a).length → ∀ b ∈ enc a, f b = [b]) (hs : IsText enc s) (n : ℕ) :
    IsText enc ((s.take n).flatMap f) ↔ IsText enc (s.take n) := by
  obtain ⟨as, rfl⟩ := hs
  induction as generalizing n with
  | nil => rw [List.flatMap_nil, List.take_nil, List.flatMap_nil]
  | cons a as ih =>
      rw [List.flatMap_cons]
      rcases Nat.lt_or_ge n (enc a).length with hlt | hge
      · rw [List.take_append_of_le_length (Nat.le_of_lt hlt)]
        rcases Nat.eq_zero_or_pos n with rfl | hpos
        · rw [List.take_zero, List.flatMap_nil]
        · have hsame : ((enc a).take n).flatMap f = (enc a).take n := by
            have hf : ∀ b ∈ (enc a).take n, f b = [b] := fun b hb =>
              hlong a (by omega) b (List.mem_of_mem_take hb)
            rw [List.flatMap_congr hf, List.flatMap_singleton']
          rw [hsame]
      · obtain ⟨k, rfl⟩ := Nat.exists_eq_add_of_le hge
        rw [List.take_length_add_append, List.flatMap_append, isText_append_iff h (hword a),
          isText_word_append h, ih]

end texts

/-! ### UTF-8 -/

/-- The UTF-8 encoding of some characters. -/
def ValidUtf8 (s : List UInt8) : Prop := IsText String.utf8EncodeChar s

theorem selfSync_utf8 : SelfSync String.utf8EncodeChar UInt8.IsUTF8FirstByte where
  ne_nil _ := String.utf8EncodeChar_ne_nil
  unique := by
    intro a b s t h
    have hbytes := congrArg (fun l => ByteArray.utf8DecodeChar? (List.toByteArray l) 0) h
    simp only [List.toByteArray_append, ByteArray.utf8DecodeChar?_utf8EncodeChar_append] at hbytes
    exact Option.some.inj hbytes
  first_iff := by
    intro a i b h
    obtain ⟨hi, rfl⟩ := List.getElem?_eq_some_iff.mp h
    exact UInt8.isUTF8FirstByte_getElem_utf8EncodeChar

end Codewords
