import Mathlib.Data.Nat.ModEq
import Mathlib.Tactic.Common

/-!
# Places of a circular buffer

A circular buffer of `n` places is addressed by the residues modulo `n`.  `dist n a b` is the number
of steps forward from `a` to `b`.
-/

namespace Circular

variable {n : ℕ}

/-- Within one revolution, distinct offsets from a start are distinct places. -/
theorem add_mod_inj {t i j : ℕ} (hi : i < n) (hj : j < n) (h : (t + i) % n = (t + j) % n) :
    i = j :=
  Nat.ModEq.eq_of_lt_of_lt (Nat.ModEq.add_left_cancel' t h) hi hj

/-- One step past the last place is the first. -/
theorem add_mod_of_le {a k : ℕ} (ha : a < n) (hk : k ≤ n) (h : n ≤ a + k) :
    (a + k) % n = a + k - n := by
  rw [Nat.mod_eq_sub_mod h]
  rcases Nat.lt_or_ge (a + k - n) n with hlt | hge
  · exact Nat.mod_eq_of_lt hlt
  · omega

/-- The place after this one. -/
def next (n a : ℕ) : ℕ := if a + 1 = n then 0 else a + 1

/-- The place before this one. -/
def prev (n a : ℕ) : ℕ := if a = 0 then n - 1 else a - 1

/-- The steps forward from one place to another. -/
def dist (n a b : ℕ) : ℕ := if a ≤ b then b - a else n + b - a

section Dist

variable {a b c : ℕ}

theorem next_lt (ha : a < n) : next n a < n := by
  unfold next
  split_ifs <;> omega

theorem prev_lt (ha : a < n) : prev n a < n := by
  unfold prev
  split_ifs <;> omega

theorem prev_next (a : ℕ) : prev n (next n a) = a := by
  unfold next
  split_ifs with hlast
  · rw [prev, if_pos rfl]
    omega
  · rw [prev, if_neg (Nat.succ_ne_zero a), Nat.add_sub_cancel]

theorem next_prev (ha : a < n) : next n (prev n a) = a := by
  unfold prev
  split_ifs with hzero
  · rw [hzero, next, if_pos (by omega)]
  · rw [next, if_neg (by omega)]
    omega

theorem dist_lt (ha : a < n) (hb : b < n) : dist n a b < n := by
  unfold dist
  split_ifs <;> omega

theorem dist_eq_emod (ha : a < n) (hb : b < n) : (dist n a b : ℤ) = ((b : ℤ) - a) % n := by
  unfold dist
  split_ifs with hle
  · rw [Int.emod_eq_of_lt (by omega) (by omega)]
    omega
  · rw [← Int.add_emod_right, Int.emod_eq_of_lt (by omega) (by omega)]
    omega

/-- Places at the same distance are the same. -/
theorem dist_inj (ha : a < n) (hb : b < n) (hc : c < n) (h : dist n a b = dist n a c) : b = c := by
  unfold dist at h
  split_ifs at h <;> omega

@[simp] theorem dist_self (a : ℕ) : dist n a a = 0 := by simp [dist]

theorem dist_eq_zero (ha : a < n) : dist n a b = 0 ↔ a = b := by
  unfold dist
  split_ifs <;> omega

/-- A step forward is one more step, unless it leads back to the start. -/
theorem dist_next (ha : a < n) (h : next n b ≠ a) :
    dist n a (next n b) = dist n a b + 1 := by
  unfold next at h ⊢
  unfold dist
  split_ifs at h ⊢ <;> omega

/-- A place before another is a step before the place after it at most. -/
theorem dist_next_of_ne (ha : a < n) (hb : b < n) (hc : c < n) (hle : dist n a b ≤ dist n a c)
    (hne : b ≠ c) : dist n a (next n b) = dist n a b + 1 ∧ dist n a b + 1 ≤ dist n a c := by
  unfold next
  unfold dist at hle ⊢
  split_ifs at hle ⊢ <;> omega

/-- The distance from a place on the way. -/
theorem dist_of_le (ha : a < n) (hb : b < n) (hc : c < n) (hle : dist n a c ≤ dist n a b) :
    dist n c b = dist n a b - dist n a c := by
  unfold dist at hle ⊢
  split_ifs at hle ⊢ <;> omega

/-- Seen from a place ahead, a place behind it is almost a revolution away. -/
theorem dist_of_lt (ha : a < n) (hc : c < n) (hlt : dist n a b < dist n a c) :
    dist n c b + dist n a c = n + dist n a b := by
  unfold dist at hlt ⊢
  split_ifs at hlt ⊢ <;> omega

theorem dist_from_next (ha : a < n) (hb : b < n) (hne : a ≠ b) :
    dist n a b = dist n (next n a) b + 1 := by
  unfold next dist
  split_ifs <;> omega

/-! ## The places on the way -/

/-- `k` places from `a` on. -/
def places (n : ℕ) : ℕ → ℕ → List ℕ
  | _, 0 => []
  | a, k + 1 => a :: places n (next n a) k

/-- The places from `a` up to `b`, without `b`. -/
def walk (n a b : ℕ) : List ℕ := places n a (dist n a b)

@[simp] theorem length_places (a k : ℕ) : (places n a k).length = k := by
  induction k generalizing a with
  | zero => rfl
  | succ k ih => rw [places, List.length_cons, ih]

@[simp] theorem length_walk (a b : ℕ) : (walk n a b).length = dist n a b := length_places a _

@[simp] theorem walk_self (a : ℕ) : walk n a a = [] := by rw [walk, dist_self, places]

/-- A walk begins with its start. -/
theorem walk_cons (ha : a < n) (hb : b < n) (hne : a ≠ b) :
    walk n a b = a :: walk n (next n a) b := by
  rw [walk, dist_from_next ha hb hne, places, walk]

/-- A walk can be interrupted at a place on the way. -/
theorem walk_append (ha : a < n) (hb : b < n) (hc : c < n) (hle : dist n a c ≤ dist n a b) :
    walk n a c ++ walk n c b = walk n a b := by
  induction hd : dist n a c generalizing a with
  | zero =>
    rw [(dist_eq_zero ha).1 hd, walk_self, List.nil_append]
  | succ d ih =>
    have hac : a ≠ c := by
      rintro rfl
      rw [dist_self] at hd
      cases hd
    have hab : a ≠ b := by
      rintro rfl
      rw [dist_self] at hle
      omega
    have hc' := dist_from_next ha hc hac
    have hb' := dist_from_next ha hb hab
    rw [walk_cons ha hc hac, walk_cons ha hb hab, List.cons_append,
      ih (next_lt ha) (by omega) (by omega)]

/-- A walk one step longer passes one more place. -/
theorem walk_concat (ha : a < n) (hb : b < n) (hne : next n b ≠ a) :
    walk n a (next n b) = walk n a b ++ [b] := by
  have hstep := dist_next ha hne
  have hnext : b ≠ next n b := by
    intro h
    rw [← h] at hstep
    omega
  rw [← walk_append ha (next_lt hb) hb (by omega), walk_cons hb (next_lt hb) hnext, walk_self]

/-- A walk does not pass its end. -/
theorem not_mem_walk (ha : a < n) (hb : b < n) : b ∉ walk n a b := by
  induction hd : dist n a b generalizing a with
  | zero =>
    rw [(dist_eq_zero ha).1 hd, walk_self]
    exact List.not_mem_nil
  | succ d ih =>
    have hab : a ≠ b := by
      rintro rfl
      rw [dist_self] at hd
      cases hd
    have hstep := dist_from_next ha hb hab
    rw [walk_cons ha hb hab, List.mem_cons, not_or]
    exact ⟨hab.symm, ih (next_lt ha) (by omega)⟩

end Dist

end Circular
