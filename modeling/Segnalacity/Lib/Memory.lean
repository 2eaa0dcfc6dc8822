import Segnalacity.Lib.LittleEndian

/-! # A memory of bytes

Numbers of `k` bytes are loaded and stored at any address, aligned or not.  A store is read back by a
load at its address (`load_store`) and not seen by one of other bytes (`load_store_of_apart`). -/

namespace Memory

open LittleEndian

abbrev Mem := ℕ → UInt8

/-- The number in the `k` bytes at `a`. -/
def load (m : Mem) (k a : ℕ) : ℕ := leValue ((List.range k).map fun j => m (a + j))

def store (m : Mem) (k a v : ℕ) : Mem := fun x =>
  if a ≤ x ∧ x < a + k then UInt8.ofNat (v / 256 ^ (x - a)) else m x

theorem load_congr {m m' : Mem} {k a : ℕ} (h : ∀ x, a ≤ x → x < a + k → m' x = m x) :
    load m' k a = load m k a := by
  unfold load
  congr 1
  refine List.map_congr_left fun j hj => h (a + j) (Nat.le_add_right a j) ?_
  exact Nat.add_lt_add_left (List.mem_range.mp hj) a

theorem load_lt (m : Mem) (k a : ℕ) : load m k a < 256 ^ k := by
  have h := leValue_lt ((List.range k).map fun j => m (a + j))
  rwa [List.length_map, List.length_range] at h

theorem load_zero {m : Mem} {k a : ℕ} (h : ∀ x, a ≤ x → x < a + k → m x = 0) : load m k a = 0 := by
  have hzero : ∀ n, leValue (List.replicate n 0) = 0 := by
    intro n
    induction n with
    | zero => rfl
    | succ n ih => rw [List.replicate_succ, leValue, ih]; rfl
  unfold load
  rw [← hzero k, ← List.length_range (n := k), ← List.map_const', List.length_range]
  congr 1
  refine List.map_congr_left fun j hj => h (a + j) (Nat.le_add_right a j) ?_
  exact Nat.add_lt_add_left (List.mem_range.mp hj) a

section store
variable {m : Mem} {k a v : ℕ}

theorem store_of_outside {x : ℕ} (h : x < a ∨ a + k ≤ x) : store m k a v x = m x := by
  refine if_neg ?_
  omega

theorem load_store : load (store m k a v) k a = v % 256 ^ k := by
  have hbytes : ((List.range k).map fun j => store m k a v (a + j)) = leBytes k v := by
    rw [leBytes_eq_map]
    refine List.map_congr_left fun j hj => ?_
    have hj' := List.mem_range.mp hj
    unfold store
    rw [if_pos ⟨Nat.le_add_right a j, Nat.add_lt_add_left hj' a⟩, Nat.add_sub_cancel_left]
  unfold load
  rw [hbytes, leValue_leBytes]

theorem load_store_of_lt (h : v < 256 ^ k) : load (store m k a v) k a = v := by
  rw [load_store, Nat.mod_eq_of_lt h]

theorem load_store_of_apart {j b : ℕ} (h : b + j ≤ a ∨ a + k ≤ b) :
    load (store m k a v) j b = load m j b := by
  refine load_congr fun x hx hx' => store_of_outside ?_
  omega

end store

end Memory
