import Mathlib.Data.List.Basic
import Mathlib.Tactic.Common

/-!
# Files of records and slices of files

A file of records of one size is read back piece by piece.  `Tiles` says that slices of a file,
given by their starts and lengths, follow on one another from one position to another.
-/

namespace Records

variable {α β : Type*}

/-- The pieces of `n` elements that a file is made of. -/
def pieces (n : ℕ) (file : List β) : List (List β) :=
  (List.range (file.length / n)).map fun k => (file.drop (n * k)).take n

section FixedSize

variable {n : ℕ} {enc : α → List β} (size : ∀ a, (enc a).length = n)

include size

theorem length_flatMap_of_length (l : List α) : (l.flatMap enc).length = n * l.length := by
  induction l with
  | nil => rfl
  | cons a l ih =>
    rw [List.flatMap_cons, List.length_append, ih, size, List.length_cons, Nat.mul_succ,
      Nat.add_comm]

theorem take_drop_flatMap (l : List α) {k : ℕ} (hk : k < l.length) :
    ((l.flatMap enc).drop (n * k)).take n = enc l[k] := by
  induction l generalizing k with
  | nil => cases hk
  | cons a l ih =>
    rw [List.flatMap_cons]
    cases k with
    | zero => rw [Nat.mul_zero, List.drop_zero, List.take_left' (size a)]; rfl
    | succ k =>
      rw [Nat.mul_succ, Nat.add_comm, ← List.drop_drop, List.drop_left' (size a),
        ih (Nat.lt_of_succ_lt_succ hk), List.getElem_cons_succ]

/-- The pieces of a file of records are the records. -/
theorem pieces_flatMap (pos : 0 < n) (l : List α) : pieces n (l.flatMap enc) = l.map enc := by
  have hlen : (l.flatMap enc).length / n = l.length := by
    rw [length_flatMap_of_length size, Nat.mul_div_cancel_left _ pos]
  have hcount : (pieces n (l.flatMap enc)).length = (l.map enc).length := by
    rw [pieces, List.length_map, List.length_range, hlen, List.length_map]
  refine List.ext_getElem hcount fun k hk hk' => ?_
  rw [List.length_map] at hk'
  simp only [pieces, List.getElem_map, List.getElem_range]
  exact take_drop_flatMap size l hk'

end FixedSize

/-- The slices, given by start and length, follow on one another from `pos` to `stop`. -/
def Tiles : ℕ → List (ℕ × ℕ) → ℕ → Prop
  | pos, [], stop => pos = stop
  | pos, (start, length) :: rest, stop => start = pos ∧ Tiles (pos + length) rest stop

/-- What lies between the start and the end of a slice in a file that was extended afterwards. -/
theorem take_drop_append (before slice after : List β) :
    ((before ++ slice ++ after).drop before.length).take slice.length = slice := by
  rw [List.append_assoc, List.drop_left, List.take_left]

end Records
