import Mathlib.Data.Nat.ModEq
import Mathlib.Tactic.Common

/-!
# Little-endian numbers of a fixed width
-/

namespace LittleEndian

/-- The `n` low bytes of `x`, lowest first. -/
def leBytes : ℕ → ℕ → List UInt8
  | 0, _ => []
  | n + 1, x => UInt8.ofNat x :: leBytes n (x / 256)

/-- The number with these bytes, lowest first. -/
def ofLe : List UInt8 → ℕ
  | [] => 0
  | x :: xs => x.toNat + 256 * ofLe xs

@[simp] theorem length_leBytes (n x : ℕ) : (leBytes n x).length = n := by
  induction n generalizing x with
  | zero => rfl
  | succ n ih => rw [leBytes, List.length_cons, ih]

theorem ofLe_lt (xs : List UInt8) : ofLe xs < 256 ^ xs.length := by
  induction xs with
  | nil => exact Nat.one_pos
  | cons x xs ih =>
    have hx : x.toNat < 256 := x.toNat_lt
    rw [ofLe, List.length_cons, Nat.pow_succ]
    omega

theorem ofLe_eq_zero_iff (xs : List UInt8) : ofLe xs = 0 ↔ ∀ x ∈ xs, x = 0 := by
  induction xs with
  | nil => simp [ofLe]
  | cons x xs ih =>
    have hzero : x.toNat = 0 ↔ x = 0 := ⟨fun h => UInt8.toNat_inj.1 h, fun h => by rw [h]; rfl⟩
    have hmul : 256 * ofLe xs = 0 ↔ ofLe xs = 0 := by omega
    rw [ofLe, Nat.add_eq_zero_iff, hzero, hmul, List.forall_mem_cons, ih]

/-- Reading back what was written gives the number modulo the width. -/
theorem ofLe_leBytes (n x : ℕ) : ofLe (leBytes n x) = x % 256 ^ n := by
  induction n generalizing x with
  | zero => rw [leBytes, ofLe, Nat.pow_zero, Nat.mod_one]
  | succ n ih =>
    rw [leBytes, ofLe, ih, Nat.pow_succ, Nat.mul_comm (256 ^ n), Nat.mod_mul, UInt8.toNat_ofNat']

theorem ofLe_leBytes_of_lt {n x : ℕ} (h : x < 256 ^ n) : ofLe (leBytes n x) = x := by
  rw [ofLe_leBytes, Nat.mod_eq_of_lt h]

end LittleEndian
