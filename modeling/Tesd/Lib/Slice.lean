import Mathlib.Data.List.Basic
import Mathlib.Tactic.Common

/-!
# Finite stretches of a function on the naturals

`slice f off len` lists the values of `f` at `off, …, off + len - 1`.  A memory or a file is such a
function; a circular buffer of `n` cells is read through `fun i => f (i % n)`, whose slices are the
windows that may wrap around.
-/

namespace Slice

variable {α : Type*}

/-- The values of `f` at the `len` places from `off` on. -/
def slice (f : ℕ → α) (off len : ℕ) : List α := (List.range' off len).map f

@[simp] theorem length_slice (f : ℕ → α) (off len : ℕ) : (slice f off len).length = len := by
  simp [slice]

@[simp] theorem slice_zero (f : ℕ → α) (off : ℕ) : slice f off 0 = [] := rfl

theorem slice_succ (f : ℕ → α) (off len : ℕ) :
    slice f off (len + 1) = f off :: slice f (off + 1) len := rfl

theorem slice_append (f : ℕ → α) (off m n : ℕ) :
    slice f off (m + n) = slice f off m ++ slice f (off + m) n := by
  rw [slice, slice, slice, ← List.map_append, ← List.range'_append_1]

theorem slice_congr {f g : ℕ → α} {off len : ℕ} (h : ∀ i, off ≤ i → i < off + len → f i = g i) :
    slice f off len = slice g off len := by
  refine List.map_congr_left fun i hi => ?_
  rw [List.mem_range'_1] at hi
  exact h i hi.1 hi.2

/-- Reading a function through a translation is reading further along. -/
theorem slice_eq_of_shift {f g : ℕ → α} {off off' len : ℕ}
    (h : ∀ k, k < len → f (off + k) = g (off' + k)) : slice f off len = slice g off' len := by
  induction len generalizing off off' with
  | zero => rfl
  | succ len ih =>
    rw [slice_succ, slice_succ, ih fun k hk => ?_]
    · exact congrArg (· :: _) (h 0 (Nat.succ_pos _))
    · have := h (k + 1) (Nat.succ_lt_succ hk)
      rwa [show off + (k + 1) = off + 1 + k by omega,
        show off' + (k + 1) = off' + 1 + k by omega] at this

/-- Equal stretches have equal parts. -/
theorem slice_part {f g : ℕ → α} {off off' len i n : ℕ} (h : slice f off len = slice g off' len)
    (part : i + n ≤ len) : slice f (off + i) n = slice g (off' + i) n := by
  obtain ⟨rest, rfl⟩ := Nat.exists_eq_add_of_le part
  rw [Nat.add_assoc, slice_append, slice_append, slice_append, slice_append] at h
  have hlen : (slice f off i).length = (slice g off' i).length := by
    rw [length_slice, length_slice]
  have hlen' : (slice f (off + i) n).length = (slice g (off' + i) n).length := by
    rw [length_slice, length_slice]
  exact (List.append_inj (List.append_inj h hlen).2 hlen').1

theorem slice_eq_of_getElem {f : ℕ → α} {off : ℕ} {l : List α}
    (h : ∀ k (hk : k < l.length), f (off + k) = l[k]) : slice f off l.length = l := by
  induction l generalizing off with
  | nil => rfl
  | cons x l ih =>
    rw [List.length_cons, slice_succ, ih fun k hk => ?_]
    · exact congrArg (· :: l) (h 0 (Nat.succ_pos _))
    · have := h (k + 1) (Nat.succ_lt_succ hk)
      rwa [show off + (k + 1) = off + 1 + k by omega, List.getElem_cons_succ] at this

/-! ## Writing a list -/

/-- The function with the list written over the values from `off` on. -/
def write (f : ℕ → α) (off : ℕ) (l : List α) : ℕ → α := fun i =>
  if off ≤ i then (l[i - off]?).getD (f i) else f i

/-- Writing at the end of a stretch that starts at 0 appends to it. -/
theorem slice_write (f : ℕ → α) (off : ℕ) (l : List α) :
    slice (write f off l) 0 (off + l.length) = slice f 0 off ++ l := by
  rw [slice_append, Nat.zero_add]
  congr 1
  · apply slice_congr
    intro i _ hi
    rw [write, if_neg (by omega)]
  · apply slice_eq_of_getElem
    intro k hk
    rw [write, if_pos (Nat.le_add_right off k), Nat.add_sub_cancel_left,
      List.getElem?_eq_getElem hk, Option.getD_some]

/-! ## Circular windows -/

/-- A window of a circular buffer depends on its start only up to a revolution. -/
theorem slice_mod_start (f : ℕ → α) (n a len : ℕ) :
    slice (fun i => f (i % n)) (a % n) len = slice (fun i => f (i % n)) a len :=
  slice_eq_of_shift fun k _ => by rw [Nat.mod_add_mod]

end Slice
