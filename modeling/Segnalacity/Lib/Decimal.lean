import Segnalacity.Lib.CStr

/-! # Decimal numbers

What `%d` and `%zu` print is read back by `strtol`. -/

namespace CStr

/-! ### Digits -/

theorem digit_utf8 : ∀ n < 10, String.utf8EncodeChar (Nat.digitChar n) = [UInt8.ofNat (48 + n)] := by
  decide

theorem showNat_of_lt {n : ℕ} (h : n < 10) : showNat n = [UInt8.ofNat (48 + n)] := by
  unfold showNat
  rw [Nat.toDigits_of_lt_base h, List.flatMap_cons, List.flatMap_nil, List.append_nil,
    digit_utf8 n h]

theorem showNat_of_ge {n : ℕ} (h : 10 ≤ n) :
    showNat n = showNat (n / 10) ++ [UInt8.ofNat (48 + n % 10)] := by
  have hmod : n % 10 < 10 := Nat.mod_lt _ (by decide)
  unfold showNat
  rw [Nat.toDigits_of_base_le (by decide) h, List.flatMap_append, List.flatMap_cons,
    List.flatMap_nil, List.append_nil, digit_utf8 _ hmod]

theorem showNat_digits (n : ℕ) : showNat n ≠ [] ∧ ∀ c ∈ showNat n, isDigit c = true := by
  have hdigit : ∀ k < 10, isDigit (UInt8.ofNat (48 + k)) = true := by decide
  induction n using Nat.strongRecOn with
  | ind n ih =>
      rcases Nat.lt_or_ge n 10 with h | h
      · rw [showNat_of_lt h]
        refine ⟨List.cons_ne_nil _ _, fun c hc => ?_⟩
        rw [List.mem_singleton.mp hc]
        exact hdigit n h
      · have hrest := ih (n / 10) (by omega)
        have hlast := hdigit (n % 10) (by omega)
        rw [showNat_of_ge h]
        simp only [List.mem_append, List.mem_singleton]
        refine ⟨by simp, ?_⟩
        rintro c (hc | rfl)
        · exact hrest.2 c hc
        · exact hlast

theorem decimal_showNat (n : ℕ) : decimal (showNat n) = n := by
  have hvalue : ∀ k < 10, (UInt8.ofNat (48 + k)).toNat - 48 = k := by decide
  induction n using Nat.strongRecOn with
  | ind n ih =>
      rcases Nat.lt_or_ge n 10 with h | h
      · rw [showNat_of_lt h]
        simp only [decimal, List.foldl_cons, List.foldl_nil]
        rw [hvalue n h]
        omega
      · have hrest := ih (n / 10) (by omega)
        have hlast := hvalue (n % 10) (by omega)
        unfold decimal at hrest ⊢
        rw [showNat_of_ge h, List.foldl_append, hrest]
        simp only [List.foldl_cons, List.foldl_nil]
        omega

/-- `%d` of an `int`. -/
def showSigned : ℤ → Bytes
  | .ofNat n => showNat n
  | .negSucc n => 45 :: showNat (n + 1)

theorem strtol_digits {s : Bytes} {neg : Bool} {d : Bytes} {n : ℕ} (h0 : (0 : UInt8) ∉ s)
    (hspace : s.dropWhile isSpace = s) (hsign : signOf s = (neg, d)) (hd : d = showNat n)
    (hn : n < 2 ^ 63) : strtol s = if neg then -(n : ℤ) else n := by
  have hdigits : decimal (d.takeWhile isDigit) = n := by
    rw [hd, List.takeWhile_eq_self_iff.mpr (showNat_digits n).2, decimal_showNat]
  unfold strtol
  rw [cstr_eq_self h0, hspace, hsign]
  simp only [hdigits]
  split_ifs <;> omega

theorem isDigit_facts {c : UInt8} (h : isDigit c = true) :
    c ≠ 0 ∧ c ≠ 45 ∧ c ≠ 43 ∧ isSpace c = false ∧ c ≠ 32 ∧ c ≠ 13 := by
  have key : ∀ n < 256, isDigit (UInt8.ofNat n) = true → UInt8.ofNat n ≠ 0 ∧
      UInt8.ofNat n ≠ 45 ∧ UInt8.ofNat n ≠ 43 ∧ isSpace (UInt8.ofNat n) = false ∧
      UInt8.ofNat n ≠ 32 ∧ UInt8.ofNat n ≠ 13 := by decide +kernel
  have hc := key c.toNat c.toNat_lt
  rw [UInt8.ofNat_toNat] at hc
  exact hc h

/-- `strtol` reads back what `%d` and `%zu` print. -/
theorem strtol_showSigned {z : ℤ} (hlow : -2 ^ 63 < z) (hhigh : z < 2 ^ 63) :
    strtol (showSigned z) = z := by
  cases z with
  | ofNat n =>
      have hn : n < 2 ^ 63 := by
        have : (n : ℤ) < 2 ^ 63 := hhigh
        omega
      obtain ⟨hne, hdigits⟩ := showNat_digits n
      obtain ⟨c, t, hct⟩ := List.exists_cons_of_ne_nil hne
      have hc := isDigit_facts (hdigits c (by rw [hct]; exact List.mem_cons_self))
      have hzero : (0 : UInt8) ∉ showNat n := fun h => (isDigit_facts (hdigits 0 h)).1 rfl
      have hspace : (showNat n).dropWhile isSpace = showNat n := by
        rw [hct, List.dropWhile_cons_of_neg (by simp [hc.2.2.2.1])]
      have hsign : signOf (showNat n) = (false, showNat n) := by
        rw [hct]
        unfold signOf
        split
        · rename_i h
          exact absurd (List.cons.inj h).1 hc.2.1
        · rename_i h
          exact absurd (List.cons.inj h).1 hc.2.2.1
        · rfl
      show strtol (showNat n) = _
      rw [strtol_digits hzero hspace hsign rfl hn]
      rfl
  | negSucc n =>
      have hn : n + 1 < 2 ^ 63 := by omega
      have hdigits := (showNat_digits (n + 1)).2
      have hzero : (0 : UInt8) ∉ (45 : UInt8) :: showNat (n + 1) := by
        rw [List.mem_cons, not_or]
        exact ⟨by decide, fun h => (isDigit_facts (hdigits 0 h)).1 rfl⟩
      show strtol (45 :: showNat (n + 1)) = _
      rw [strtol_digits hzero rfl rfl rfl hn]
      simp [Int.negSucc_eq]

end CStr
