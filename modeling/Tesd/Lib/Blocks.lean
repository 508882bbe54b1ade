import Mathlib.Data.List.Forall2
import Mathlib.Tactic.Common

/-!
# Blocks of a sequence and their places in a file

Every element of a sequence leaves some bytes in a file.  The sequence is cut into gaps and blocks;
`places` are the slices of the file, given by start and length, that the blocks take.
-/

namespace Blocks

variable {α β : Type*}

/-- The blocks lie in the sequence, in order and apart from one another. -/
def Within : List (List α) → List α → Prop
  | [], _ => True
  | block :: blocks, l => ∃ gap rest, l = gap ++ block ++ rest ∧ Within blocks rest

/-- The gaps and blocks put together. -/
def joined (es : List (List α × List α)) : List α := es.flatMap fun e => e.1 ++ e.2

theorem within_joined (es : List (List α × List α)) (rest : List α) :
    Within (es.map Prod.snd) (joined es ++ rest) := by
  induction es with
  | nil => trivial
  | cons e es ih =>
    refine ⟨e.1, joined es ++ rest, ?_, ih⟩
    rw [joined, List.flatMap_cons, List.append_assoc]
    rfl

theorem joined_concat (es : List (List α × List α)) (gap block : List α) :
    joined (es ++ [(gap, block)]) = joined es ++ (gap ++ block) := by
  simp [joined]

variable (bytes : α → List β)

/-- The number of bytes that these elements leave. -/
def size (l : List α) : ℕ := (l.flatMap bytes).length

theorem size_append (l m : List α) : size bytes (l ++ m) = size bytes l + size bytes m := by
  simp [size]

/-- Where the blocks lie in a file in which the first gap starts at `pos`. -/
def places : ℕ → List (List α × List α) → List (ℕ × ℕ)
  | _, [] => []
  | pos, (gap, block) :: es =>
    (pos + size bytes gap, size bytes block) ::
      places (pos + size bytes gap + size bytes block) es

theorem length_places (pos : ℕ) (es : List (List α × List α)) :
    (places bytes pos es).length = es.length := by
  induction es generalizing pos with
  | nil => rfl
  | cons e es ih => rw [places, List.length_cons, ih, List.length_cons]

theorem places_concat (pos : ℕ) (es : List (List α × List α)) (gap block : List α) :
    places bytes pos (es ++ [(gap, block)]) =
      places bytes pos es ++ [(pos + size bytes (joined es ++ gap), size bytes block)] := by
  induction es generalizing pos with
  | nil => simp [places, joined]
  | cons e es ih =>
    rw [List.cons_append, places, ih, places, List.cons_append]
    simp only [joined, List.flatMap_cons, size_append, Nat.add_assoc]

theorem le_of_mem_places {pos : ℕ} {es : List (List α × List α)} {p : ℕ × ℕ}
    (h : p ∈ places bytes pos es) : pos ≤ p.1 := by
  induction es generalizing pos with
  | nil => cases h
  | cons e es ih =>
    rw [places, List.mem_cons] at h
    rcases h with rfl | h
    · exact Nat.le_add_right _ _
    · exact Nat.le_trans (by rw [Nat.add_assoc]; exact Nat.le_add_right _ _) (ih h)

theorem add_le_of_mem_places {pos : ℕ} {es : List (List α × List α)} {p : ℕ × ℕ}
    (h : p ∈ places bytes pos es) : p.1 + p.2 ≤ pos + size bytes (joined es) := by
  induction es generalizing pos with
  | nil => cases h
  | cons e es ih =>
    rw [places, List.mem_cons] at h
    rw [joined, List.flatMap_cons, size_append, size_append]
    rcases h with rfl | h
    · dsimp only
      omega
    · have := ih h
      rw [joined] at this
      omega

/-- The places are in order and do not overlap. -/
theorem pairwise_places (pos : ℕ) (es : List (List α × List α)) :
    (places bytes pos es).Pairwise fun p q => p.1 + p.2 ≤ q.1 := by
  induction es generalizing pos with
  | nil => exact List.Pairwise.nil
  | cons e es ih =>
    rw [places, List.pairwise_cons]
    exact ⟨fun q hq => le_of_mem_places bytes hq, ih _⟩

/-- What lies in the places is what the blocks left. -/
theorem forall₂_places (before : List β) (es : List (List α × List α)) (rest : List α) :
    List.Forall₂ (fun e p => p.2 = size bytes e.2 ∧
      p.1 + p.2 ≤ (before ++ (joined es ++ rest).flatMap bytes).length ∧
      ((before ++ (joined es ++ rest).flatMap bytes).drop p.1).take p.2 = e.2.flatMap bytes)
      es (places bytes before.length es) := by
  induction es generalizing before with
  | nil => exact List.Forall₂.nil
  | cons e es ih =>
    obtain ⟨gap, block⟩ := e
    have hfile : before ++ (joined ((gap, block) :: es) ++ rest).flatMap bytes =
        (before ++ gap.flatMap bytes ++ block.flatMap bytes) ++
          (joined es ++ rest).flatMap bytes := by
      simp [joined, List.flatMap_cons, List.append_assoc]
    have hpos : (before ++ gap.flatMap bytes).length = before.length + size bytes gap :=
      List.length_append
    have hnext : (before ++ gap.flatMap bytes ++ block.flatMap bytes).length =
        before.length + size bytes gap + size bytes block := by
      rw [List.length_append, hpos]
      rfl
    rw [hfile, places, ← hnext]
    refine List.Forall₂.cons ⟨rfl, ?_, ?_⟩ (ih _)
    · rw [List.length_append, hnext]
      exact Nat.le_add_right _ _
    · rw [← hpos, List.append_assoc (before ++ gap.flatMap bytes), List.drop_left]
      exact List.take_left' rfl

end Blocks
