import Segnalacity.Http.Utils
import Segnalacity.Lib.Store

/-! # Forms

The fields that `get_field` finds in a form body are those that the sender put there:
`getField_form`.  The encoding is the one of `application/x-www-form-urlencoded`, in which a sender
chooses the case of each hex digit. -/

namespace Segnalacity.Http

open CStr

/-! ### Stores -/

/-- The loop of `url_decode` on its destination, with `i` bytes written and room for `room` more. -/
def urlDecodeInto : ℕ → ℕ → Bytes → Bytes → Option Bytes
  | 0, i, _, dest => poke dest i 0
  | room + 1, i, s, dest => match decodeStep s with
      | none => poke dest i 0
      | some (b, r) => (poke dest i b).bind (urlDecodeInto room (i + 1) r)

/-- A field that has been found is decoded into an empty destination. -/
def fieldInto (src : Option Bytes) (dest : Bytes) (max : ℕ) : Option Bytes :=
  (poke dest 0 0).bind fun dest => match src with
    | none => some dest
    | some v => urlDecodeInto (max - 1) 0 v dest

def getFieldInto (src : Option Bytes) (paramName dest : Bytes) (max : ℕ) : Option Bytes :=
  fieldInto (src.bind fun p => findField paramName true (cstr p)) dest max

theorem urlDecodeInto_eq {dest text : Bytes} {room : ℕ} (s : Bytes)
    (h : text.length + room < dest.length) :
    urlDecodeInto room text.length s (overlay text dest) =
      some (overlay (text ++ urlDecode room s ++ [0]) dest) := by
  induction room generalizing text s with
  | zero =>
      unfold urlDecodeInto urlDecode
      rw [poke_overlay h, List.append_nil]
  | succ room ih =>
      unfold urlDecodeInto urlDecode
      cases decodeStep s with
      | none => simp only [List.append_nil]; exact poke_overlay (by omega)
      | some br =>
          have hrest := @ih (text ++ [br.1]) br.2 (by rw [List.length_append, List.length_singleton]; omega)
          rw [List.length_append, List.length_singleton, List.append_assoc text] at hrest
          simp only [poke_overlay (show text.length < dest.length by omega), Option.bind_some]
          exact hrest

/-- `url_decode` in a destination of at least `max` bytes. -/
theorem urlDecodeInto_start {dest : Bytes} {max : ℕ} (s : Bytes) (hmax : 1 ≤ max)
    (hdest : max ≤ dest.length) :
    urlDecodeInto (max - 1) 0 s dest = some (overlay (urlDecode (max - 1) s ++ [0]) dest) := by
  have hroom : ([] : Bytes).length + (max - 1) < dest.length := by
    rw [List.length_nil]
    omega
  exact urlDecodeInto_eq s hroom

/-- No store is outside of the destination, and the bytes behind the NUL are kept. -/
theorem fieldInto_eq {dest : Bytes} {max : ℕ} (src : Option Bytes) (hmax : 1 ≤ max)
    (hdest : max ≤ dest.length) :
    fieldInto src dest max = some (overlay (src.elim [] (urlDecode (max - 1)) ++ [0]) dest) := by
  have hpoke : poke dest 0 0 = some (overlay [0] dest) :=
    poke_overlay (show ([] : Bytes).length < dest.length by rw [List.length_nil]; omega)
  unfold fieldInto
  rw [hpoke, Option.bind_some]
  cases src with
  | none => rfl
  | some v =>
      have hlength : (overlay [0] dest).length = dest.length :=
        overlay_length (by rw [List.length_singleton]; omega)
      show urlDecodeInto (max - 1) 0 v (overlay [0] dest) = _
      rw [urlDecodeInto_start v hmax (by omega), overlay_overlay (by simp)]
      rfl

theorem getFieldInto_eq {dest : Bytes} {max : ℕ} (src : Option Bytes) (name : Bytes)
    (hmax : 1 ≤ max) (hdest : max ≤ dest.length) :
    getFieldInto src name dest max = some (overlay (getField src name max ++ [0]) dest) := by
  unfold getFieldInto getField
  rw [fieldInto_eq _ hmax hdest]
  cases src.bind fun p => findField name true (cstr p) <;> rfl

/-! ### Encoding -/

/-- The characters that stand for themselves. -/
def isPlain (c : UInt8) : Bool :=
  isDigit c || (97 ≤ c && c ≤ 122) || (65 ≤ c && c ≤ 90) || c = 42 || c = 45 || c = 46 || c = 95 ||
    c = 126

/-- A hex digit in one of the two cases. -/
def hexDigit (upper : Bool) (n : ℕ) : UInt8 :=
  UInt8.ofNat (if n < 10 then 48 + n else if upper then 55 + n else 87 + n)

/-- The encodings of one byte. -/
inductive EncodesByte : UInt8 → Bytes → Prop
  | plain {c : UInt8} : isPlain c = true → EncodesByte c [c]
  | space : EncodesByte 32 [43]
  | percent (c : UInt8) (u v : Bool) :
      EncodesByte c [37, hexDigit u (c.toNat / 16), hexDigit v (c.toNat % 16)]

inductive EncodesText : Bytes → Bytes → Prop
  | nil : EncodesText [] []
  | cons {c : UInt8} {x v s : Bytes} : EncodesByte c x → EncodesText v s →
      EncodesText (c :: v) (x ++ s)

/-- A key of plain characters and a value without NUL. -/
inductive EncodesPair : Bytes × Bytes → Bytes → Prop
  | mk {k v s : Bytes} : k ≠ [] → (∀ c ∈ k, isPlain c = true) → (0 : UInt8) ∉ v →
      EncodesText v s → EncodesPair (k, v) (k ++ 61 :: s)

inductive EncodesForm : List (Bytes × Bytes) → Bytes → Prop
  | nil : EncodesForm [] []
  | single {p : Bytes × Bytes} {x : Bytes} : EncodesPair p x → EncodesForm [p] x
  | cons {p q : Bytes × Bytes} {ps : List (Bytes × Bytes)} {x s : Bytes} : EncodesPair p x →
      EncodesForm (q :: ps) s → EncodesForm (p :: q :: ps) (x ++ 38 :: s)

/-- The value of the first pair with a key, empty when there is none. -/
def formValue (k : Bytes) (pairs : List (Bytes × Bytes)) : Bytes :=
  ((pairs.find? fun p => p.1 = k).map Prod.snd).getD []

/-! ### Decoding -/

theorem isPlain_not {c : UInt8} (h : isPlain c = true) :
    isDelimiter c = false ∧ c ≠ 37 ∧ c ≠ 43 ∧ c ≠ 61 ∧ c ≠ 38 := by
  refine ⟨?_, ?_, ?_, ?_, ?_⟩
  · by_contra hd
    simp only [Bool.not_eq_false, isDelimiter, Bool.or_eq_true, decide_eq_true_eq] at hd
    rcases hd with (((rfl | rfl) | rfl) | rfl) | rfl <;> exact absurd h (by decide)
  all_goals
    rintro rfl
    exact absurd h (by decide)

theorem hexDigit_xdigit : ∀ (u : Bool), ∀ n < 16, isXDigit (hexDigit u n) = true := by decide

theorem hexDigit_byte : ∀ (u v : Bool), ∀ n < 256,
    (hexVal (hexDigit u (n / 16)) <<< 4) ||| hexVal (hexDigit v (n % 16)) = UInt8.ofNat n := by
  decide +kernel

theorem percentByte_encoded (c : UInt8) (u v : Bool) (s : Bytes) :
    percentByte (37 :: hexDigit u (c.toNat / 16) :: hexDigit v (c.toNat % 16) :: s) =
      some (c, s) := by
  have hc := c.toNat_lt
  rw [percentByte_cons, hexDigit_xdigit u _ (by omega), hexDigit_xdigit v _ (by omega),
    hexDigit_byte u v _ hc, UInt8.ofNat_toNat]
  rfl

theorem percentByte_ne {c : UInt8} (s : Bytes) (h : c ≠ 37) : percentByte (c :: s) = none := by
  match s with
  | [] => rfl
  | [_] => rfl
  | _ :: _ :: _ => simp [percentByte, h]

/-- An encoded byte is read back and nothing behind it is looked at. -/
theorem EncodesByte.decodeStep {c : UInt8} {x : Bytes} (h : EncodesByte c x) (hc : c ≠ 0)
    (s : Bytes) : decodeStep (x ++ s) = some (c, s) := by
  cases h with
  | plain hplain =>
      obtain ⟨hd, hp, hplus, -, -⟩ := isPlain_not hplain
      rw [List.singleton_append, decodeStep_cons s hd, percentByte_ne s hp]
      simp [hplus]
  | space =>
      rw [List.singleton_append, decodeStep_cons s (by decide), percentByte_ne s (by decide)]
      rfl
  | percent _ u v =>
      have hp := percentByte_encoded c u v s
      show Http.decodeStep (37 :: _ :: _ :: s) = _
      rw [decodeStep_cons _ (by decide), hp]
      simp [hc]

theorem EncodesText.urlDecode {v s : Bytes} (h : EncodesText v s) (hv : (0 : UInt8) ∉ v)
    {rest : Bytes} (hrest : Http.decodeStep rest = none) (room : ℕ) :
    urlDecode room (s ++ rest) = v.take room := by
  induction h generalizing room with
  | nil => cases room <;> simp [Http.urlDecode, hrest]
  | cons hc htext ih =>
      rw [List.mem_cons, not_or] at hv
      cases room with
      | zero => rfl
      | succ room =>
          unfold Http.urlDecode
          rw [List.append_assoc, hc.decodeStep (Ne.symm hv.1), List.take_succ_cons]
          exact congrArg _ (ih hv.2 room)

/-! ### Finding -/

theorem EncodesByte.mem {c : UInt8} {x : Bytes} (h : EncodesByte c x) :
    ∀ b ∈ x, isPlain b = true ∨ b = 37 ∨ b = 43 := by
  have hdigit : ∀ (u : Bool), ∀ n < 16, isPlain (hexDigit u n) = true := by decide
  intro b hb
  cases h with
  | plain hplain =>
      rw [List.mem_singleton.mp hb]
      exact Or.inl hplain
  | space => exact Or.inr (Or.inr (List.mem_singleton.mp hb))
  | percent _ u v =>
      have hc := c.toNat_lt
      simp only [List.mem_cons, List.not_mem_nil, or_false] at hb
      rcases hb with rfl | rfl | rfl
      · exact Or.inr (Or.inl rfl)
      · exact Or.inl (hdigit u _ (by omega))
      · exact Or.inl (hdigit v _ (by omega))

theorem EncodesText.mem {v s : Bytes} (h : EncodesText v s) :
    ∀ b ∈ s, isPlain b = true ∨ b = 37 ∨ b = 43 := by
  induction h with
  | nil => simp
  | cons hc htext ih =>
      intro b hb
      rcases List.mem_append.mp hb with hb | hb
      · exact hc.mem b hb
      · exact ih b hb

theorem EncodesPair.mem {p : Bytes × Bytes} {x : Bytes} (h : EncodesPair p x) :
    ∀ b ∈ x, isPlain b = true ∨ b = 37 ∨ b = 43 ∨ b = 61 := by
  obtain ⟨-, hplain, -, htext⟩ := h
  intro b hb
  simp only [List.mem_append, List.mem_cons] at hb
  rcases hb with hb | hb | hb
  · exact Or.inl (hplain b hb)
  · simp [hb]
  · have := htext.mem b hb
    tauto

theorem EncodesPair.notMem {p : Bytes × Bytes} {x : Bytes} (h : EncodesPair p x) : 38 ∉ x := by
  intro hb
  have := h.mem _ hb
  revert this
  decide

/-- Inside a pair the search goes on to the next one. -/
theorem findField_pass {name x : Bytes} (h : 38 ∉ x) (s : Bytes) :
    findField name false (x ++ 38 :: s) = findField name true s := by
  induction x with
  | nil => simp [findField]
  | cons c x ih =>
      rw [List.mem_cons, not_or] at h
      rw [List.cons_append, findField]
      simp only [Bool.false_and, Bool.false_eq_true, if_false, Ne.symm h.1, decide_false]
      exact ih h.2

theorem findField_end {name x : Bytes} (h : 38 ∉ x) : findField name false x = none := by
  induction x with
  | nil => simp [findField]
  | cons c x ih =>
      rw [List.mem_cons, not_or] at h
      rw [findField]
      simp only [Bool.false_and, Bool.false_eq_true, if_false, Ne.symm h.1, decide_false]
      exact ih h.2

/-- Keys that are suffixes or prefixes of one another are told apart by the `=`. -/
theorem isPrefixOf_key {k k' : Bytes} (hk : (61 : UInt8) ∉ k) (hk' : (61 : UInt8) ∉ k') (s : Bytes) :
    (k ++ [61]).isPrefixOf (k' ++ 61 :: s) = true ↔ k = k' := by
  induction k generalizing k' with
  | nil =>
      cases k' with
      | nil => simp [List.isPrefixOf]
      | cons c k' =>
          rw [List.mem_cons, not_or] at hk'
          simp [List.isPrefixOf, hk'.1]
  | cons b k ih =>
      rw [List.mem_cons, not_or] at hk
      cases k' with
      | nil => simp [List.isPrefixOf, Ne.symm hk.1]
      | cons c k' =>
          rw [List.mem_cons, not_or] at hk'
          have hrest := ih hk.2 hk'.2
          simp only [List.cons_append, List.isPrefixOf, Bool.and_eq_true, beq_iff_eq,
            List.cons.injEq]
          rw [hrest]

theorem findField_start (name : Bytes) (c : UInt8) (s : Bytes) :
    findField name true (c :: s) =
      if name.isPrefixOf (c :: s) then some ((c :: s).drop name.length)
      else findField name (c = 38) s := rfl

/-- At the start of a pair the search ends, or goes on behind the key. -/
theorem EncodesPair.findField {p : Bytes × Bytes} {x : Bytes} (h : EncodesPair p x) {k : Bytes}
    (hk : ∀ c ∈ k, isPlain c = true) (rest : Bytes) :
    (p.1 = k ∧ ∃ s, EncodesText p.2 s ∧ findField (k ++ [61]) true (x ++ rest) = some (s ++ rest)) ∨
      (p.1 ≠ k ∧ ∃ y, 38 ∉ y ∧
        findField (k ++ [61]) true (x ++ rest) = findField (k ++ [61]) false (y ++ rest)) := by
  have hno := h.notMem
  obtain ⟨hne, hplain, -, htext⟩ := h
  rename_i k' v s
  have hhead := @isPrefixOf_key k k'
    (fun h61 => (isPlain_not (hk _ h61)).2.2.2.1 rfl)
    (fun h61 => (isPlain_not (hplain _ h61)).2.2.2.1 rfl) (s ++ rest)
  obtain ⟨c, t, rfl⟩ := List.exists_cons_of_ne_nil hne
  rw [List.append_assoc, List.cons_append, List.cons_append]
  rw [List.cons_append] at hhead
  rw [findField_start]
  by_cases heq : k = c :: t
  · refine Or.inl ⟨heq.symm, s, htext, ?_⟩
    rw [if_pos (hhead.mpr heq), heq]
    simp
  · refine Or.inr ⟨Ne.symm heq, t ++ 61 :: s, fun hmem => hno (List.mem_cons_of_mem c hmem), ?_⟩
    have hc := (isPlain_not (hplain c List.mem_cons_self)).2.2.2.2
    rw [if_neg (fun hp => heq (hhead.mp hp)), decide_eq_false hc, List.append_assoc,
      List.cons_append]

theorem EncodesPair.value {p : Bytes × Bytes} {x : Bytes} (h : EncodesPair p x) :
    (0 : UInt8) ∉ p.2 := by
  obtain ⟨-, -, hv, -⟩ := h
  exact hv

/-- What is found is decoded up to the next pair. -/
theorem EncodesForm.getField {pairs : List (Bytes × Bytes)} {body k : Bytes}
    (h : EncodesForm pairs body) (hk : ∀ c ∈ k, isPlain c = true) (room : ℕ) :
    ((Http.findField (k ++ [61]) true body).map (Http.urlDecode room)).getD [] =
      (formValue k pairs).take room := by
  induction h with
  | nil =>
      have hnone : Http.findField (k ++ [61]) true [] = none := by simp [Http.findField]
      rw [hnone]
      simp [formValue]
  | @single p x hp =>
      have hfind := hp.findField hk []
      rw [List.append_nil] at hfind
      rcases hfind with ⟨hkey, s, htext, heq⟩ | ⟨hkey, y, hy, heq⟩
      · rw [heq]
        simp only [Option.map_some, Option.getD_some, htext.urlDecode hp.value
          (show Http.decodeStep [] = none from rfl), formValue]
        simp [hkey]
      · rw [heq, List.append_nil, findField_end hy]
        simp [formValue, hkey]
  | @cons p q ps x s hp hform ih =>
      rcases hp.findField hk (38 :: s) with ⟨hkey, t, htext, heq⟩ | ⟨hkey, y, hy, heq⟩
      · rw [heq]
        simp only [Option.map_some, Option.getD_some, htext.urlDecode hp.value
          (show Http.decodeStep (38 :: s) = none from rfl), formValue]
        simp [hkey]
      · rw [heq, findField_pass hy, ih]
        simp [formValue, List.find?_cons, hkey]

/-! ### An encoder -/

def encodeByte (c : UInt8) : Bytes :=
  if c = 32 then [43]
  else if isPlain c then [c]
  else [37, hexDigit true (c.toNat / 16), hexDigit true (c.toNat % 16)]

def formEncode : List (Bytes × Bytes) → Bytes
  | [] => []
  | [p] => p.1 ++ 61 :: p.2.flatMap encodeByte
  | p :: q :: ps => p.1 ++ 61 :: p.2.flatMap encodeByte ++ 38 :: formEncode (q :: ps)

theorem encodesByte_encodeByte (c : UInt8) : EncodesByte c (encodeByte c) := by
  unfold encodeByte
  split_ifs with h₁ h₂
  · rw [h₁]
    exact .space
  · exact .plain h₂
  · exact .percent c true true

theorem encodesText_flatMap (v : Bytes) : EncodesText v (v.flatMap encodeByte) := by
  induction v with
  | nil => exact .nil
  | cons c v ih => exact .cons (encodesByte_encodeByte c) ih

/-- What may stand in a form: plain keys and values without NUL. -/
def FormPair (p : Bytes × Bytes) : Prop :=
  p.1 ≠ [] ∧ (∀ c ∈ p.1, isPlain c = true) ∧ (0 : UInt8) ∉ p.2

instance (p : Bytes × Bytes) : Decidable (FormPair p) :=
  inferInstanceAs (Decidable (p.1 ≠ [] ∧ (∀ c ∈ p.1, isPlain c = true) ∧ (0 : UInt8) ∉ p.2))

theorem encodesForm_formEncode (pairs : List (Bytes × Bytes)) (h : ∀ p ∈ pairs, FormPair p) :
    EncodesForm pairs (formEncode pairs) := by
  have hpair : ∀ p : Bytes × Bytes, FormPair p →
      EncodesPair p (p.1 ++ 61 :: p.2.flatMap encodeByte) := fun p hp =>
    .mk hp.1 hp.2.1 hp.2.2 (encodesText_flatMap p.2)
  match pairs with
  | [] => exact .nil
  | [p] => exact .single (hpair p (h p List.mem_cons_self))
  | p :: q :: ps =>
      exact .cons (hpair p (h p List.mem_cons_self))
        (encodesForm_formEncode (q :: ps) fun x hx => h x (List.mem_cons_of_mem p hx))

theorem EncodesForm.field {pairs : List (Bytes × Bytes)} {src k : Bytes}
    (hform : EncodesForm pairs (cstr src)) (hk : ∀ c ∈ k, isPlain c = true) (max : ℕ) :
    Http.getField (some src) (k ++ [61]) max = (formValue k pairs).take (max - 1) := by
  rw [← hform.getField hk (max - 1)]
  unfold Http.getField
  rw [Option.bind_some]
  cases Http.findField (k ++ [61]) true (cstr src) <;> rfl

/-- **Form fields.**  When the C string at `src` encodes a list of pairs, `get_field` writes the
value of the first pair with the key, cut off at `max - 1` bytes, and a NUL; it leaves the bytes
behind the NUL as they were. -/
theorem getField_form {pairs : List (Bytes × Bytes)} {src k : Bytes}
    (hform : EncodesForm pairs (cstr src)) (hk : ∀ c ∈ k, isPlain c = true) {max : ℕ}
    (hmax : 1 ≤ max) {dest : Bytes} (hdest : max ≤ dest.length) :
    getFieldInto (some src) (k ++ [61]) dest max =
        some (overlay ((formValue k pairs).take (max - 1) ++ [0]) dest) ∧
      ((formValue k pairs).take (max - 1) ++ [0]).length ≤ max := by
  refine ⟨by rw [getFieldInto_eq _ _ hmax hdest, hform.field hk], ?_⟩
  rw [List.length_append, List.length_singleton, List.length_take]
  omega

/-- A key that ends in another one, a value that spells a key, and a key that is repeated. -/
def sampleForm : List (Bytes × Bytes) := [
  (bytes "city", bytes "Aosta"),
  (bytes "ty", bytes "y=1&y=2"),
  (bytes "y", bytes "à b"),
  (bytes "y", bytes "c")]

theorem getField_form_sampleForm :
    getFieldInto (some (formEncode sampleForm ++ [0, 38, 121, 61])) (bytes "y" ++ [61])
        (List.replicate 8 7) 3 =
      some (overlay ((formValue (bytes "y") sampleForm).take (3 - 1) ++ [0]) (List.replicate 8 7)) ∧
      ((formValue (bytes "y") sampleForm).take (3 - 1) ++ [0]).length ≤ 3 :=
  getField_form
    (by
      rw [show cstr (formEncode sampleForm ++ [0, 38, 121, 61]) = formEncode sampleForm by
        decide +kernel]
      exact encodesForm_formEncode sampleForm (by decide))
    (by decide) (by decide) (by decide)

end Segnalacity.Http
