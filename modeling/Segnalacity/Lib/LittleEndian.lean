import Mathlib.Algebra.Order.Ring.Nat
import Mathlib.Tactic.Ring
import Mathlib.Tactic.Linarith

/-! # Little-endian numbers

`leBytes k v` are the `k` bytes of a number, the lowest first, and `leValue` reads bytes as a number.
Reading back what was written gives the number modulo `256 ^ k` (`leValue_leBytes`), and `k` bytes are
those of exactly one number below `256 ^ k` (`leBytes_leValue`). -/

namespace LittleEndian

def leBytes : ℕ → ℕ → List UInt8
  | 0, _ => []
  | k + 1, v => UInt8.ofNat v :: leBytes k (v / 256)

def leValue : List UInt8 → ℕ
  | [] => 0
  | b :: bs => b.toNat + 256 * leValue bs

@[simp] theorem leBytes_length (k v : ℕ) : (leBytes k v).length = k := by
  induction k generalizing v with
  | zero => rfl
  | succ k ih => rw [leBytes, List.length_cons, ih]

theorem leValue_leBytes (k v : ℕ) : leValue (leBytes k v) = v % 256 ^ k := by
  induction k generalizing v with
  | zero => rw [pow_zero, Nat.mod_one]; rfl
  | succ k ih =>
      rw [leBytes, leValue, ih, pow_succ', Nat.mod_mul]
      rfl

theorem leValue_leBytes_of_lt {k v : ℕ} (h : v < 256 ^ k) : leValue (leBytes k v) = v := by
  rw [leValue_leBytes, Nat.mod_eq_of_lt h]

theorem leValue_lt (bs : List UInt8) : leValue bs < 256 ^ bs.length := by
  induction bs with
  | nil => exact Nat.one_pos
  | cons b bs ih =>
      have hb := b.toNat_lt
      rw [leValue, List.length_cons, pow_succ']
      omega

theorem leBytes_leValue (bs : List UInt8) : leBytes bs.length (leValue bs) = bs := by
  induction bs with
  | nil => rfl
  | cons b bs ih =>
      have hb := b.toNat_lt
      have hdiv : leValue (b :: bs) / 256 = leValue bs := by
        rw [leValue]
        omega
      have hhead : UInt8.ofNat (leValue (b :: bs)) = b := by
        apply UInt8.toNat_inj.mp
        rw [UInt8.toNat_ofNat', leValue]
        omega
      rw [List.length_cons, leBytes, hdiv, hhead, ih]

/-- The byte of each place. -/
theorem leBytes_eq_map (k v : ℕ) :
    leBytes k v = (List.range k).map fun j => UInt8.ofNat (v / 256 ^ j) := by
  induction k generalizing v with
  | zero => rfl
  | succ k ih =>
      rw [leBytes, List.range_succ_eq_map, List.map_cons, List.map_map, pow_zero, Nat.div_one, ih]
      congr 1
      refine List.map_congr_left fun j _ => ?_
      show _ = UInt8.ofNat (v / 256 ^ (j + 1))
      rw [pow_succ', Nat.div_div_eq_div_mul]

end LittleEndian
