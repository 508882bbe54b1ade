import Mathlib.Data.List.Basic
import Mathlib.Tactic.Common

/-!
# A sequence distributed over channels

The items of a list are each put on a channel.  What a channel gets is its share, in the order of
the list.
-/

namespace Shares

variable {ι α : Type*} [DecidableEq ι]

/-- The items that are put on channel `c`. -/
def share (c : ι) (l : List (ι × α)) : List α := (l.filter fun x => x.1 = c).map Prod.snd

/-- The items that are put on other channels. -/
def others (c : ι) (l : List (ι × α)) : List (ι × α) := l.filter fun x => x.1 ≠ c

@[simp] theorem share_cons_self (c : ι) (a : α) (l : List (ι × α)) :
    share c ((c, a) :: l) = a :: share c l := by
  simp [share]

theorem share_cons_of_ne {c d : ι} (h : d ≠ c) (a : α) (l : List (ι × α)) :
    share c ((d, a) :: l) = share c l := by
  simp [share, h]

theorem share_append (c : ι) (l m : List (ι × α)) : share c (l ++ m) = share c l ++ share c m := by
  rw [share, List.filter_append, List.map_append]
  rfl

theorem share_of_forall {c : ι} {l : List (ι × α)} (h : ∀ x ∈ l, x.1 = c) :
    share c l = l.map Prod.snd := by
  rw [share, List.filter_eq_self.2 fun x hx => decide_eq_true (h x hx)]

theorem share_eq_nil {c : ι} {l : List (ι × α)} : share c l = [] ↔ ∀ x ∈ l, x.1 ≠ c := by
  rw [share, List.map_eq_nil_iff, List.filter_eq_nil_iff]
  simp

theorem share_others_self (c : ι) (l : List (ι × α)) : share c (others c l) = [] := by
  rw [share_eq_nil]
  intro x hx
  simpa using (List.mem_filter.1 hx).2

theorem share_others_of_ne {c d : ι} (h : d ≠ c) (l : List (ι × α)) :
    share d (others c l) = share d l := by
  rw [share, others, List.filter_filter, share]
  congr 1
  apply List.filter_congr
  intro x _
  by_cases hx : x.1 = d
  · simp [hx, h]
  · simp [hx]

theorem length_share_add_others (c : ι) (l : List (ι × α)) :
    (share c l).length + (others c l).length = l.length := by
  rw [share, others, List.length_map]
  induction l with
  | nil => rfl
  | cons x l ih =>
    by_cases h : x.1 = c
    · simp [h] at ih ⊢
      omega
    · simp [h] at ih ⊢
      omega

theorem mem_share {c : ι} {l : List (ι × α)} {a : α} : a ∈ share c l ↔ (c, a) ∈ l := by
  simp [share]

end Shares
