import Segnalacity.Lib.Mixing
import Segnalacity.Session

/-! # The hash of a key

`hash_key` is a fold of steps that each lose nothing, with a last mix that loses nothing: both
multipliers are odd, and every shift moves at least one bit.  Two keys of one length that differ in one
byte never have the same 64-bit hash, and the seed can be read back from the hash and the key. -/

namespace Segnalacity

open CStr Mixing

/-- The last mix of `hash_key`, behind the loop. -/
theorem finalMix_injective :
    Function.Injective fun h : UInt64 => (h ^^^ (h >>> 13)) * (0x85ebca6b : UInt64) ^^^
      (((h ^^^ (h >>> 13)) * (0x85ebca6b : UInt64)) >>> 16) :=
  have hmul : (0x85ebca6b : UInt64) * 2941351004705347 = 1 := by decide
  (@wordXorShift_injective 16 (by decide)).comp
    ((mul_injective hmul).comp (@wordXorShift_injective 13 (by decide)))

/-- What a round does behind its exclusive or. -/
theorem roundMix_injective :
    Function.Injective fun h : UInt64 => h * (0x5bd1e995 : UInt64) ^^^ ((h * (0x5bd1e995 : UInt64)) >>> 15) :=
  have hmul : (0x5bd1e995 : UInt64) * 4164118071752726973 = 1 := by decide
  (@wordXorShift_injective 15 (by decide)).comp (mul_injective hmul)

theorem murmurRound_state_injective (b : UInt8) : Function.Injective fun h => murmurRound h b := by
  intro h h' heq
  have hxor : h ^^^ b.toUInt64 = h' ^^^ b.toUInt64 := roundMix_injective heq
  rw [UInt64.xor_comm h, UInt64.xor_comm h'] at hxor
  exact xor_injective _ hxor

theorem murmurRound_byte_injective (h : UInt64) : Function.Injective (murmurRound h) := by
  intro b b' heq
  have hxor : h ^^^ b.toUInt64 = h ^^^ b'.toUInt64 := roundMix_injective heq
  have hword : b.toUInt64 = b'.toUInt64 := xor_injective _ hxor
  have hnat := congrArg UInt64.toNat hword
  rw [UInt8.toNat_toUInt64, UInt8.toNat_toUInt64] at hnat
  exact UInt8.toNat_inj.mp hnat

/-- **No byte is lost.**  For every key the hash determines the seed, and for every seed two keys of
the same length with exactly one different byte have different hashes. -/
theorem hashKey_injective :
    (∀ key : Bytes, Function.Injective fun seed => hashKey key seed) ∧
    ∀ (seed : UInt64) (key key' : Bytes), key.length = key'.length →
      (∃! i : ℕ, key[i]? ≠ key'[i]?) → hashKey key seed ≠ hashKey key' seed := by
  constructor
  · exact fun key => finalMix_injective.comp (foldl_injective murmurRound_state_injective key)
  · intro seed key key' hlength hdiff heq
    obtain ⟨front, a, b, back, rfl, rfl, hne⟩ := exists_of_unique_difference hlength hdiff
    exact foldl_ne murmurRound_state_injective murmurRound_byte_injective seed hne front back
      (finalMix_injective heq)

theorem hashKey_injective_sample : hashKey [108, 111, 0] 7 ≠ hashKey [108, 117, 0] 7 := by
  refine hashKey_injective.2 7 [108, 111, 0] [108, 117, 0] rfl ⟨1, by decide, ?_⟩
  intro i hi
  match i with
  | 0 => exact absurd rfl hi
  | 1 => rfl
  | 2 => exact absurd rfl hi
  | j + 3 => exact absurd rfl hi

end Segnalacity
