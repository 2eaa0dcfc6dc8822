import Segnalacity.Lib.CStr

/-! # Stores into a buffer

A buffer is a block of memory of fixed size.  A store outside of it is a fault, the result `none`.
A loop that writes a text from the start of a buffer goes through the buffers `overlay text buf`,
and the two rules below say what one more store does there. -/

namespace CStr

/-- `buf[i] = b`. -/
def poke (buf : Bytes) (i : ℕ) (b : UInt8) : Option Bytes :=
  if i < buf.length then some (buf.set i b) else none

/-- `memcpy(buf + i, src, src.length)`. -/
def memcpy (buf : Bytes) (i : ℕ) (src : Bytes) : Option Bytes :=
  if i + src.length ≤ buf.length then
    some (buf.take i ++ src ++ buf.drop (i + src.length))
  else none

section overlay
variable {text buf : Bytes}

theorem overlay_length (h : text.length ≤ buf.length) :
    (overlay text buf).length = buf.length := by
  rw [overlay, List.length_append, List.length_drop]
  omega

@[simp] theorem overlay_nil (buf : Bytes) : overlay [] buf = buf := rfl

/-- A text that is written over a shorter one. -/
theorem overlay_overlay {old : Bytes} (h : old.length ≤ text.length) :
    overlay text (overlay old buf) = overlay text buf := by
  unfold overlay
  rw [List.drop_append, List.drop_eq_nil_of_le h, List.nil_append, List.drop_drop,
    Nat.add_sub_cancel' h]

/-- The C string at the start of the buffer is the text that ends with the NUL. -/
theorem cstr_overlay (h : (0 : UInt8) ∉ text) : cstr (overlay (text ++ [0]) buf) = text := by
  have htext : text.takeWhile (· ≠ 0) = text := cstr_eq_self h
  rw [List.takeWhile_eq_self_iff] at htext
  unfold cstr overlay
  rw [List.append_assoc, List.takeWhile_append_of_pos htext]
  simp

/-- Copying behind the text that has been written so far. -/
theorem memcpy_overlay {src : Bytes} (h : text.length + src.length ≤ buf.length) :
    memcpy (overlay text buf) text.length src = some (overlay (text ++ src) buf) := by
  have hlength : (overlay text buf).length = buf.length := overlay_length (by omega)
  unfold memcpy
  rw [hlength, if_pos h]
  simp [overlay, List.drop_drop, List.append_assoc]

/-- Storing a byte behind the text that has been written so far. -/
theorem poke_overlay {b : UInt8} (h : text.length < buf.length) :
    poke (overlay text buf) text.length b = some (overlay (text ++ [b]) buf) := by
  have hlength : (overlay text buf).length = buf.length := overlay_length (by omega)
  unfold poke
  rw [hlength, if_pos h]
  unfold overlay
  rw [List.set_append_right _ _ (le_refl _), Nat.sub_self, List.drop_eq_getElem_cons h,
    List.set_cons_zero]
  simp [List.append_assoc]

end overlay

/-! ### A text that grows at the start of a buffer -/

/-- `vsnprintf(buf + i, n, …)` of `text`. -/
def vsnprintf (buf : Bytes) (i n : ℕ) (text : Bytes) : Option Bytes :=
  if n = 0 then some buf
  else (memcpy buf i (text.take (n - 1))).bind fun buf =>
    poke buf (i + (text.take (n - 1)).length) 0

theorem memcpy_append {a b src : Bytes} (h : src.length ≤ b.length) :
    memcpy (a ++ b) a.length src = some (a ++ src ++ b.drop src.length) := by
  unfold memcpy
  rw [if_pos (by rw [List.length_append]; omega)]
  simp [List.drop_append]

theorem poke_append {a b : Bytes} {x : UInt8} (h : 0 < b.length) :
    poke (a ++ b) a.length x = some (a ++ x :: b.drop 1) := by
  unfold poke
  rw [if_pos (by rw [List.length_append]; omega), List.set_append_right _ _ (le_refl _), Nat.sub_self]
  cases b with
  | nil => exact absurd h (by decide)
  | cons c b => rfl

theorem drop_behind {a b : Bytes} {m : ℕ} (h : a.length ≤ m) :
    (a ++ b).drop m = b.drop (m - a.length) := by
  rw [List.drop_append, List.drop_eq_nil_of_le h, List.nil_append]

/-- The buffer starts with the text, and nothing behind its first `outMax` bytes has changed. -/
structure Written (out : Bytes) (outMax : ℕ) (text mem : Bytes) : Prop where
  starts : text <+: mem
  length : mem.length = out.length
  behind : mem.drop outMax = out.drop outMax
  room : text.length ≤ outMax

section written
variable {out text mem : Bytes} {outMax : ℕ}

theorem written_nil : Written out outMax [] out := ⟨List.nil_prefix, rfl, rfl, Nat.zero_le _⟩

theorem Written.memcpy (h : Written out outMax text mem) (hout : outMax ≤ out.length) {s : Bytes}
    (hs : text.length + s.length ≤ outMax) :
    ∃ mem', CStr.memcpy mem text.length s = some mem' ∧ Written out outMax (text ++ s) mem' := by
  obtain ⟨⟨b, rfl⟩, hlength, hbehind, -⟩ := h
  have hb := hlength
  rw [List.length_append] at hb
  refine ⟨_, memcpy_append (by omega), List.prefix_append _ _, ?_, ?_, ?_⟩
  · simp only [List.length_append, List.length_drop]
    omega
  · have hle : (text ++ s).length ≤ outMax := by
      rw [List.length_append]
      exact hs
    rw [← hbehind, drop_behind hle, drop_behind (show text.length ≤ outMax by omega), List.drop_drop,
      List.length_append]
    congr 1
    omega
  · rw [List.length_append]
    exact hs

/-- The NUL behind the text is not part of it. -/
theorem Written.poke (h : Written out outMax text mem) (hout : outMax ≤ out.length) {b : UInt8}
    (hroom : text.length < outMax) :
    ∃ mem', CStr.poke mem text.length b = some mem' ∧ Written out outMax text mem' := by
  obtain ⟨⟨t, rfl⟩, hlength, hbehind, hle⟩ := h
  have ht := hlength
  rw [List.length_append] at ht
  refine ⟨_, poke_append (by omega), List.prefix_append _ _, ?_, ?_, hle⟩
  · simp only [List.length_append, List.length_cons, List.length_drop]
    omega
  · obtain ⟨k, hk⟩ := Nat.exists_eq_add_one.mpr (Nat.sub_pos_of_lt hroom)
    rw [← hbehind, drop_behind hle, drop_behind hle, hk, List.drop_succ_cons, List.drop_drop,
      Nat.add_comm]

theorem Written.vsnprintf (h : Written out outMax text mem) (hout : outMax ≤ out.length)
    (s : Bytes) : ∃ mem', CStr.vsnprintf mem text.length (outMax - text.length) s = some mem' ∧
      Written out outMax (text ++ s.take (outMax - text.length - 1)) mem' := by
  have hroom := h.room
  unfold CStr.vsnprintf
  split_ifs with hfull
  · refine ⟨mem, rfl, ?_⟩
    rw [hfull]
    simpa using h
  · have hs := List.length_take_le (outMax - text.length - 1) s
    obtain ⟨mem₁, h₁, hw₁⟩ := h.memcpy hout (s := s.take (outMax - text.length - 1)) (by omega)
    have hlength : (text ++ s.take (outMax - text.length - 1)).length < outMax := by
      rw [List.length_append]
      omega
    obtain ⟨mem₂, h₂, hw₂⟩ := hw₁.poke hout (b := 0) hlength
    rw [List.length_append] at h₂
    exact ⟨mem₂, by rw [h₁, Option.bind_some, h₂], hw₂⟩

end written

end CStr
