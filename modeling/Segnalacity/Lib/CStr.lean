import Mathlib.Algebra.Group.Int.Defs
import Mathlib.Algebra.Group.Nat.Defs
import Mathlib.Data.List.Basic
import Mathlib.Data.List.TakeWhile

/-! # Byte buffers and C strings

A pointer into a buffer is the list of the bytes from it to the end of the buffer; the byte
after the last one is the terminating NUL.  `cstr` is the string such a pointer denotes.  The
functions below are the ones of `<string.h>`, `<ctype.h>` and `<stdlib.h>` that the program
calls, with the results the C standard (and glibc, for the saturating conversions) gives. -/

namespace CStr

/-- A byte buffer. -/
abbrev Bytes := List UInt8

/-- A quantifier over the bytes of a buffer is decided by a look at these bytes, not at all that
there are. -/
instance decidableForallBytes (p : UInt8 → Prop) [DecidablePred p] (s : Bytes) :
    Decidable (∀ c ∈ s, p c) := List.decidableBAll p s

/-- The bytes of a string literal. -/
def bytes (s : String) : Bytes := s.toList.flatMap String.utf8EncodeChar

/-- The C string starting at a pointer: the bytes before the first NUL. -/
def cstr (s : Bytes) : Bytes := s.takeWhile (· ≠ 0)

/-- The C string in a zeroed buffer after `strncpy(buf, src, n)`. -/
def strncpy (src : Bytes) (n : ℕ) : Bytes := (cstr src).take n

/-- The C string in `buf` after `snprintf(buf, n, …)` of `text`. -/
def snprintf (n : ℕ) (text : Bytes) : Bytes := text.take (n - 1)

/-- `strncmp(a, b, n) == 0`. -/
def strncmpEq (a b : Bytes) (n : ℕ) : Bool := (cstr a).take n = (cstr b).take n

/-- Writing `new` at the start of a buffer leaves the bytes behind it as they were. -/
def overlay (new old : Bytes) : Bytes := new ++ old.drop new.length

theorem take_overlay {new : Bytes} {n : ℕ} (h : n ≤ new.length) (old : Bytes) :
    (overlay new old).take n = new.take n := by
  rw [overlay, List.take_append_of_le_length h]

/-- The text is read back, whatever was written behind it. -/
theorem take_overlay_text (text rest old : Bytes) :
    (overlay (text ++ rest) old).take text.length = text := by
  rw [overlay, List.append_assoc, List.take_left]

/-! ### Character classes -/

def isSpace (c : UInt8) : Bool := c = 32 || (9 ≤ c && c ≤ 13)

def isDigit (c : UInt8) : Bool := 48 ≤ c && c ≤ 57

def isXDigit (c : UInt8) : Bool := isDigit c || (97 ≤ c && c ≤ 102) || (65 ≤ c && c ≤ 70)

def toLower (c : UInt8) : UInt8 := if 65 ≤ c && c ≤ 90 then c + 32 else c

/-- `strncasecmp(a, b, n) == 0` for two slices of at least `n` bytes. -/
def strncasecmpEq (a b : Bytes) (n : ℕ) : Bool := (a.take n).map toLower = (b.take n).map toLower

/-! ### Number parsing -/

/-- The value of a run of decimal digits. -/
def decimal (s : Bytes) : ℕ := s.foldl (fun v c => 10 * v + (c.toNat - 48)) 0

/-- An optional sign: whether it is a minus, and what follows it. -/
def signOf : Bytes → Bool × Bytes
  | 45 :: s => (true, s)
  | 43 :: s => (false, s)
  | s => (false, s)

/-- `strtol(s, NULL, 10)` with a 64-bit `long`: saturates at both ends. -/
def strtol (s : Bytes) : ℤ :=
  let (neg, d) := signOf ((cstr s).dropWhile isSpace)
  let v : ℤ := decimal (d.takeWhile isDigit)
  if neg then max (-v) (-2 ^ 63) else min v (2 ^ 63 - 1)

/-- `strtoull(s, NULL, 10)`: `ULLONG_MAX` on overflow, a minus sign negates modulo `2^64`. -/
def strtoull (s : Bytes) : UInt64 :=
  let (neg, d) := signOf ((cstr s).dropWhile isSpace)
  let v := decimal (d.takeWhile isDigit)
  if 2 ^ 64 ≤ v then UInt64.ofNat (2 ^ 64 - 1)
  else if neg then -(UInt64.ofNat v) else UInt64.ofNat v

/-- `atoi`: `strtol` cast to a 32-bit `int`. -/
def atoi (s : Bytes) : ℤ := (strtol s).bmod (2 ^ 32)

/-- `%d` and `%zu` of a natural number. -/
def showNat (n : ℕ) : Bytes := (Nat.toDigits 10 n).flatMap String.utf8EncodeChar

/-! ### Strings without NUL -/

theorem cstr_eq_self {s : Bytes} (h : (0 : UInt8) ∉ s) : cstr s = s := by
  unfold cstr
  rw [List.takeWhile_eq_self_iff]
  intro c hc
  simp only [decide_eq_true_eq]
  rintro rfl
  exact h hc

theorem zero_notMem_cstr (s : Bytes) : (0 : UInt8) ∉ cstr s := by
  intro h
  have := List.mem_takeWhile_imp h
  simp at this

@[simp] theorem cstr_cstr (s : Bytes) : cstr (cstr s) = cstr s := cstr_eq_self (zero_notMem_cstr s)

/-- A short C string fits the destination of `strncpy`. -/
theorem strncpy_eq_self {s : Bytes} {n : ℕ} (h0 : (0 : UInt8) ∉ s) (hl : s.length ≤ n) :
    strncpy s n = s := by
  unfold strncpy
  rw [cstr_eq_self h0, List.take_of_length_le hl]

/-- On strings shorter than the bound `strncmp` decides equality. -/
theorem strncmpEq_iff {a b : Bytes} {n : ℕ} (ha0 : (0 : UInt8) ∉ a) (hb0 : (0 : UInt8) ∉ b)
    (ha : a.length ≤ n) (hb : b.length ≤ n) : strncmpEq a b n = true ↔ a = b := by
  unfold strncmpEq
  rw [cstr_eq_self ha0, cstr_eq_self hb0, List.take_of_length_le ha, List.take_of_length_le hb,
    decide_eq_true_iff]

end CStr
