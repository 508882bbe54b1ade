import Mathlib.Data.List.Infix
import Mathlib.Tactic.Common

/-!
# Pipes

A pipe hands on what is sent into it, in that order.  What has been taken out is kept, so that a
pipe that was used by its two ends alone holds all that was ever sent.
-/

/-- What has been taken out of a pipe, and what is still in it. -/
structure Pipe (α : Type*) where
  taken : List α
  queue : List α
  deriving DecidableEq

namespace Pipe

variable {α β : Type*}

def empty : Pipe α := ⟨[], []⟩

/-- All that was sent into the pipe. -/
def sent (p : Pipe α) : List α := p.taken ++ p.queue

def send (a : α) (p : Pipe α) : Pipe α := { p with queue := p.queue ++ [a] }

/-- The first thing in a list that `f` makes something of, with what is before and after it. -/
def firstOf (f : α → Option β) : List α → Option (List α × β × List α)
  | [] => none
  | a :: as =>
    match f a with
    | some b => some ([a], b, as)
    | none => (firstOf f as).map fun (skipped, b, rest) => (a :: skipped, b, rest)

/-- Takes out the first thing that `f` makes something of.  All that comes before it is lost. -/
def recv (f : α → Option β) (p : Pipe α) : Option (β × Pipe α) :=
  (firstOf f p.queue).map fun (skipped, b, rest) => (b, ⟨p.taken ++ skipped, rest⟩)

variable {f : α → Option β} {p p' : Pipe α} {a : α} {b : β}

@[simp] theorem taken_send (a : α) (p : Pipe α) : (p.send a).taken = p.taken := rfl

@[simp] theorem sent_send (a : α) (p : Pipe α) : (p.send a).sent = p.sent ++ [a] := by
  simp [sent, send]

@[simp] theorem taken_empty : (empty : Pipe α).taken = [] := rfl

@[simp] theorem sent_empty : (empty : Pipe α).sent = [] := rfl

theorem firstOf_of_some {as : List α} (h : f a = some b) : firstOf f (a :: as) = some ([a], b, as) := by
  rw [firstOf, h]

theorem append_of_firstOf {as skipped rest : List α} (h : firstOf f as = some (skipped, b, rest)) :
    as = skipped ++ rest := by
  induction as generalizing skipped with
  | nil => cases h
  | cons a as ih =>
    rw [firstOf] at h
    cases hf : f a with
    | some b' =>
      rw [hf] at h
      obtain ⟨rfl, -, rfl⟩ : [a] = skipped ∧ b' = b ∧ as = rest := by simpa using h
      rfl
    | none =>
      rw [hf] at h
      obtain ⟨⟨skipped', b', rest'⟩, hfirst, heq⟩ := Option.map_eq_some_iff.1 h
      obtain ⟨rfl, rfl, rfl⟩ : a :: skipped' = skipped ∧ b' = b ∧ rest' = rest := by
        simpa using heq
      rw [ih hfirst, List.cons_append]

/-- Taking something out does not change what was sent. -/
theorem sent_of_recv (h : p.recv f = some (b, p')) : p'.sent = p.sent := by
  obtain ⟨⟨skipped, b', rest⟩, hfirst, heq⟩ := Option.map_eq_some_iff.1 h
  obtain ⟨-, rfl⟩ := Prod.mk.inj heq
  rw [sent, sent, append_of_firstOf hfirst, List.append_assoc]

/-- If the next thing is of the kind that is waited for, it is what is taken out. -/
theorem recv_of_queue {rest : List α} (hqueue : p.queue = a :: rest) (hf : f a = some b) :
    p.recv f = some (b, ⟨p.taken ++ [a], rest⟩) := by
  rw [recv, hqueue, firstOf_of_some hf]
  rfl

theorem firstOf_ne_nil {as skipped rest : List α} (h : firstOf f as = some (skipped, b, rest)) :
    skipped ≠ [] := by
  cases as with
  | nil => cases h
  | cons a as =>
    rw [firstOf] at h
    rintro rfl
    cases hf : f a <;> rw [hf] at h <;> simp at h

/-- Something is taken out. -/
theorem length_queue_of_recv (h : p.recv f = some (b, p')) :
    p'.queue.length < p.queue.length := by
  obtain ⟨⟨skipped, b', rest⟩, hfirst, heq⟩ := Option.map_eq_some_iff.1 h
  obtain ⟨-, rfl⟩ := Prod.mk.inj heq
  have := List.length_pos_iff.2 (firstOf_ne_nil hfirst)
  have hqueue := congrArg List.length (append_of_firstOf hfirst)
  rw [List.length_append] at hqueue
  dsimp only
  omega

@[simp] theorem length_queue_send (a : α) (p : Pipe α) :
    (p.send a).queue.length = p.queue.length + 1 := by
  simp [send]

theorem recv_of_queue_nil (h : p.queue = []) : p.recv f = none := by
  rw [recv, h]
  rfl

end Pipe
