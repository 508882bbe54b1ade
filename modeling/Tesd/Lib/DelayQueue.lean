import Mathlib.Algebra.GroupWithZero.Nat
import Mathlib.Data.List.Induction
import Mathlib.Tactic.Common

/-!
# Delays before and after the events of a stream

A stream of events, each with the delay since the event before it, some of them labelled.  For every
labelled event one wants the delay from the start of the stream up to it, and the delay from it to
the end, both cut off at `bound`, for no more than `cap` events.  A queue finds them event by event.
In a longer stream the events of one label `ref` end one such stream and begin the next.
-/

namespace DelayQueue

variable {κ : Type*}

/-- An event, and the delay since the one before it. -/
structure Event (κ : Type*) where
  label : Option κ
  delay : ℕ

/-- A labelled event with the delays before and after it. -/
structure Point (κ : Type*) where
  since : ℕ
  till : ℕ
  label : κ
  deriving DecidableEq

/-- The points of the stream so far, and the delay since its start. -/
structure Queue (κ : Type*) where
  opens : List (Point κ)
  since : ℕ

/-- The delays of all these events. -/
def total (es : List (Event κ)) : ℕ := (es.map Event.delay).sum

/-- The labelled events of a stream, of which each has come `s` later after the start than the
delays in the stream say, and that ends `last` after the last one. -/
def batch (bound last : ℕ) : ℕ → List (Event κ) → List (Point κ)
  | _, [] => []
  | s, e :: es =>
    match e.label with
    | none => batch bound last (s + e.delay) es
    | some l =>
      ⟨min (s + e.delay) bound, min (total es + last) bound, l⟩ :: batch bound last (s + e.delay) es

/-- The points, some time later. -/
def later (bound delay : ℕ) (opens : List (Point κ)) : List (Point κ) :=
  opens.map fun p => { p with till := min (p.till + delay) bound }

/-- One event. -/
def step (cap bound : ℕ) (e : Event κ) (q : Queue κ) : Queue κ :=
  let opens := later bound e.delay q.opens
  let since := min (q.since + e.delay) bound
  match e.label with
  | none => ⟨opens, since⟩
  | some l => if opens.length < cap then ⟨opens ++ [⟨since, 0, l⟩], since⟩ else ⟨opens, since⟩

/-- One event after the other. -/
def run (cap bound : ℕ) (es : List (Event κ)) (q : Queue κ) : Queue κ :=
  es.foldl (fun q e => step cap bound e q) q

variable {cap bound last delay s : ℕ} {es : List (Event κ)} {e : Event κ} {q : Queue κ}

@[simp] theorem total_nil : total ([] : List (Event κ)) = 0 := rfl

@[simp] theorem total_cons : total (e :: es) = e.delay + total es := by
  rw [total, List.map_cons, List.sum_cons, total]

theorem total_append (es es' : List (Event κ)) : total (es ++ es') = total es + total es' := by
  rw [total, List.map_append, List.sum_append, total, total]

theorem min_add_min (a b c : ℕ) : min (min a c + b) c = min (a + b) c := by
  omega

@[simp] theorem length_later (opens : List (Point κ)) :
    (later bound delay opens).length = opens.length := List.length_map _

/-- Waiting at the end of a stream. -/
theorem later_batch (bound last delay s : ℕ) (es : List (Event κ)) :
    later bound delay (batch bound last s es) = batch bound (last + delay) s es := by
  induction es generalizing s with
  | nil => rfl
  | cons e es ih =>
    unfold batch
    cases e.label with
    | none => exact ih _
    | some l =>
      have hrest := ih (s + e.delay)
      unfold later at hrest ⊢
      rw [List.map_cons, hrest]
      dsimp only
      rw [min_add_min, Nat.add_assoc]

/-- Another event at the end of a stream. -/
theorem batch_concat (bound last s : ℕ) (es : List (Event κ)) (e : Event κ) :
    batch bound last s (es ++ [e]) = batch bound (last + e.delay) s es ++
      match e.label with
      | none => []
      | some l => [⟨min (s + total es + e.delay) bound, min last bound, l⟩] := by
  induction es generalizing s with
  | nil =>
    rw [List.nil_append, batch, batch, batch, total_nil, List.nil_append, Nat.add_zero]
    cases e.label with
    | none => rfl
    | some l =>
      dsimp only
      rw [Nat.zero_add]
  | cons e' es ih =>
    rw [List.cons_append]
    unfold batch
    cases e'.label with
    | none =>
      dsimp only
      rw [ih, total_cons, Nat.add_assoc s]
    | some l =>
      dsimp only
      rw [ih, total_cons, Nat.add_assoc s, total_append, total_cons, total_nil, List.cons_append,
        show total es + (e.delay + 0) + last = total es + (last + e.delay) by omega]

theorem later_take (n : ℕ) (opens : List (Point κ)) :
    later bound delay (opens.take n) = (later bound delay opens).take n := List.map_take

theorem run_concat (es : List (Event κ)) (e : Event κ) (q : Queue κ) :
    run cap bound (es ++ [e]) q = step cap bound e (run cap bound es q) := by
  rw [run, List.foldl_append]
  rfl

/-- What the queue holds after a stream that has been under way for `s`: the first `cap` labelled
events. -/
theorem run_eq (cap bound s : ℕ) (es : List (Event κ)) :
    run cap bound es ⟨[], min s bound⟩ =
      ⟨(batch bound 0 s es).take cap, min (s + total es) bound⟩ := by
  induction es using List.reverseRecOn with
  | nil =>
    rw [run, List.foldl_nil, batch, List.take_nil, total_nil, Nat.add_zero]
  | append_singleton es e ih =>
    rw [run_concat, ih, step, batch_concat, total_append, total_cons, total_nil, Nat.add_zero,
      Nat.zero_add, later_take, later_batch, Nat.zero_add]
    dsimp only
    rw [min_add_min, ← Nat.add_assoc]
    cases e.label with
    | none => rw [List.append_nil]
    | some l =>
      dsimp only
      rw [Nat.zero_min]
      by_cases hroom : (batch bound e.delay s es).length < cap
      · have hall : ((batch bound e.delay s es).take cap).length < cap := by
          rw [List.length_take]
          omega
        rw [if_pos hall, List.take_of_length_le (Nat.le_of_lt hroom), List.take_of_length_le]
        rw [List.length_append]
        exact hroom
      · have hfull : ¬ ((batch bound e.delay s es).take cap).length < cap := by
          rw [List.length_take]
          omega
        rw [if_neg hfull, List.take_append_of_le_length (Nat.le_of_not_lt hroom)]

/-- The points when the stream ends. -/
theorem later_run (cap bound s : ℕ) (es : List (Event κ)) (last : ℕ) :
    later bound last (run cap bound es ⟨[], min s bound⟩).opens =
      (batch bound last s es).take cap := by
  rw [run_eq, later_take, later_batch, Nat.zero_add]

/-- What a point says of its stream. -/
theorem mem_batch {p : Point κ} (h : p ∈ batch bound last s es) : ∃ before e l after,
    es = before ++ e :: after ∧ e.label = some l ∧
      p = ⟨min (s + total before + e.delay) bound, min (total after + last) bound, l⟩ := by
  induction es generalizing s with
  | nil => cases h
  | cons e es ih =>
    unfold batch at h
    have hrest : p ∈ batch bound last (s + e.delay) es → ∃ before e' l after,
        e :: es = before ++ e' :: after ∧ e'.label = some l ∧
          p = ⟨min (s + total before + e'.delay) bound, min (total after + last) bound, l⟩ := by
      intro hmem
      obtain ⟨before, e', l, after, rfl, hl, rfl⟩ := ih hmem
      refine ⟨e :: before, e', l, after, rfl, hl, ?_⟩
      rw [total_cons, ← Nat.add_assoc s]
    cases hlabel : e.label with
    | none =>
      rw [hlabel] at h
      exact hrest h
    | some l =>
      rw [hlabel] at h
      rcases List.mem_cons.1 h with rfl | h
      · exact ⟨[], e, l, es, rfl, hlabel, rfl⟩
      · exact hrest h

/-! ## Streams that follow each other -/

section Pass

variable {ref : κ} {r : List (Point κ) × Queue κ} {p : κ → Prop}

/-- The delay since the last event labelled `ref`. -/
def sinceLast [DecidableEq κ] (ref : κ) (es : List (Event κ)) : ℕ :=
  es.foldl (fun s e => if e.label = some ref then 0 else s + e.delay) 0

/-- One event, with the points of all streams that have ended. -/
def pass [DecidableEq κ] (cap bound : ℕ) (ref : κ) (r : List (Point κ) × Queue κ) (e : Event κ) :
    List (Point κ) × Queue κ :=
  if e.label = some ref then (r.1 ++ later bound e.delay r.2.opens, ⟨[], 0⟩)
  else (r.1, step cap bound e r.2)

/-- One event after the other. -/
def passes [DecidableEq κ] (cap bound : ℕ) (ref : κ) (es : List (Event κ))
    (r : List (Point κ) × Queue κ) : List (Point κ) × Queue κ := es.foldl (pass cap bound ref) r

/-- No event with such a label becomes a point, when there are `n` points at first. -/
def NoneMade [DecidableEq κ] (p : κ → Prop) (cap : ℕ) (ref : κ) : ℕ → List (Event κ) → Prop
  | _, [] => True
  | n, e :: es =>
    match e.label with
    | none => NoneMade p cap ref n es
    | some l =>
      if l = ref then NoneMade p cap ref 0 es
      else if n < cap then ¬ p l ∧ NoneMade p cap ref (n + 1) es
      else NoneMade p cap ref n es

theorem since_step (cap bound : ℕ) (e : Event κ) (q : Queue κ) :
    (step cap bound e q).since = min (q.since + e.delay) bound := by
  unfold step
  dsimp only
  cases e.label with
  | none => rfl
  | some l =>
    dsimp only
    split_ifs <;> rfl

variable [DecidableEq κ]

theorem passes_concat (es : List (Event κ)) (e : Event κ) (r : List (Point κ) × Queue κ) :
    passes cap bound ref (es ++ [e]) r = pass cap bound ref (passes cap bound ref es r) e := by
  rw [passes, List.foldl_append]
  rfl

theorem sinceLast_concat (es : List (Event κ)) (e : Event κ) :
    sinceLast ref (es ++ [e]) = if e.label = some ref then 0 else sinceLast ref es + e.delay := by
  rw [sinceLast, List.foldl_append]
  rfl

theorem since_passes (cap bound : ℕ) (ref : κ) (es : List (Event κ)) (ps : List (Point κ)) :
    (passes cap bound ref es (ps, ⟨[], 0⟩)).2.since = min (sinceLast ref es) bound := by
  induction es using List.reverseRecOn with
  | nil => exact (Nat.zero_min bound).symm
  | append_singleton es e ih =>
    rw [passes_concat, sinceLast_concat, pass]
    by_cases href : e.label = some ref
    · rw [if_pos href, if_pos href, Nat.zero_min]
    · rw [if_neg href, if_neg href, since_step, ih, min_add_min]

theorem sinceLast_of_last (last : ∀ e ∈ es.getLast?, e.label = some ref) :
    sinceLast ref es = 0 := by
  induction es using List.reverseRecOn with
  | nil => rfl
  | append_singleton es e ih =>
    rw [List.getLast?_concat] at last
    rw [sinceLast_concat, if_pos (last e rfl)]

/-- Points are left if the last event is not labelled `ref`. -/
theorem opens_passes (bound : ℕ) (ref : κ) (pos : 0 < cap) (labels : ∀ e ∈ es, e.label ≠ none)
    (ps : List (Point κ)) :
    (passes cap bound ref es (ps, ⟨[], 0⟩)).2.opens = [] ↔
      ∀ e ∈ es.getLast?, e.label = some ref := by
  induction es using List.reverseRecOn with
  | nil => simp [passes]
  | append_singleton es e ih =>
    rw [passes_concat, pass, List.getLast?_concat]
    simp only [Option.mem_def, Option.some.injEq, forall_eq']
    by_cases href : e.label = some ref
    · rw [if_pos href]
      exact ⟨fun _ => href, fun _ => rfl⟩
    · rw [if_neg href]
      refine ⟨fun hnil => absurd hnil ?_, fun h => absurd h href⟩
      obtain ⟨l, hl⟩ := Option.ne_none_iff_exists'.1 (labels e List.mem_concat_self)
      unfold step
      rw [hl]
      dsimp only
      split_ifs with hroom
      · exact List.append_ne_nil_of_right_ne_nil _ (List.cons_ne_nil _ _)
      · intro hnil
        dsimp only at hnil
        rw [hnil] at hroom
        exact hroom pos

/-- The points of the streams that have ended, and those that are left. -/
theorem forall_passes (cap bound : ℕ) (ref : κ) (p : κ → Prop) (es : List (Event κ))
    (r : List (Point κ) × Queue κ) :
    (∀ q ∈ (passes cap bound ref es r).1 ++ (passes cap bound ref es r).2.opens, ¬ p q.label) ↔
      (∀ q ∈ r.1 ++ r.2.opens, ¬ p q.label) ∧ NoneMade p cap ref r.2.opens.length es := by
  have hlater : ∀ delay (opens : List (Point κ)),
      (∀ q ∈ later bound delay opens, ¬ p q.label) ↔ ∀ q ∈ opens, ¬ p q.label := by
    intro delay opens
    unfold later
    rw [List.forall_mem_map]
  induction es generalizing r with
  | nil => exact ⟨fun h => ⟨h, trivial⟩, And.left⟩
  | cons e es ih =>
    refine (ih (pass cap bound ref r e)).trans ?_
    rw [NoneMade]
    unfold pass step
    cases hl : e.label with
    | none =>
      rw [if_neg (by simp)]
      simp only [List.forall_mem_append, hlater, length_later]
    | some l =>
      by_cases href : l = ref
      · subst href
        rw [if_pos rfl]
        simp only [List.forall_mem_append, hlater, if_true, List.length_nil, List.not_mem_nil,
          false_imp_iff, implies_true, and_true]
      · rw [if_neg (fun h => href (Option.some.inj h))]
        dsimp only
        rw [length_later, if_neg href]
        by_cases hroom : r.2.opens.length < cap
        · rw [if_pos hroom, if_pos hroom]
          simp only [List.forall_mem_append, hlater, List.forall_mem_singleton,
            List.length_append, length_later, List.length_singleton]
          tauto
        · rw [if_neg hroom, if_neg hroom]
          simp only [List.forall_mem_append, hlater, length_later]

/-- No event labelled `ref` becomes a point. -/
theorem noneMade_ref (cap : ℕ) (ref : κ) (n : ℕ) (es : List (Event κ)) :
    NoneMade (· = ref) cap ref n es := by
  induction es generalizing n with
  | nil => trivial
  | cons e es ih =>
    rw [NoneMade]
    cases e.label with
    | none => exact ih n
    | some l =>
      dsimp only
      split_ifs with href hroom
      · exact ih 0
      · exact ⟨href, ih (n + 1)⟩
      · exact ih n

theorem label_ne_of_passes (cap bound : ℕ) (ref : κ) (es : List (Event κ)) :
    ∀ q ∈ (passes cap bound ref es ([], ⟨[], 0⟩)).1, q.label ≠ ref := fun q hq =>
  (forall_passes cap bound ref (· = ref) es ([], ⟨[], 0⟩)).2
    ⟨fun _ h => absurd h List.not_mem_nil, noneMade_ref cap ref _ es⟩ q (List.mem_append_left _ hq)

/-- The points of the streams that have ended, if none is left. -/
theorem forall_passes_of_nil (nil : (passes cap bound ref es ([], ⟨[], 0⟩)).2.opens = [])
    (p : κ → Prop) : (∀ q ∈ (passes cap bound ref es ([], ⟨[], 0⟩)).1, ¬ p q.label) ↔
      NoneMade p cap ref 0 es := by
  have hall := forall_passes cap bound ref p es ([], ⟨[], 0⟩)
  rw [nil, List.append_nil] at hall
  exact hall.trans ⟨And.right, fun h => ⟨fun q hq => absurd hq List.not_mem_nil, h⟩⟩

/-- An event labelled `ref` at the end leaves nothing. -/
theorem queue_passes_of_last (bound : ℕ) (pos : 0 < cap) (labels : ∀ e ∈ es, e.label ≠ none)
    (last : ∀ e ∈ es.getLast?, e.label = some ref) (ps : List (Point κ)) :
    (passes cap bound ref es (ps, ⟨[], 0⟩)).2 = ⟨[], 0⟩ := by
  have hopens := (opens_passes bound ref pos labels ps).2 last
  have hsince := since_passes cap bound ref es ps
  rw [sinceLast_of_last last, Nat.zero_min] at hsince
  generalize (passes cap bound ref es (ps, ⟨[], 0⟩)).2 = q at hopens hsince
  obtain ⟨opens, since⟩ := q
  obtain rfl : opens = [] := hopens
  obtain rfl : since = 0 := hsince
  rfl

/-- There are no more points than events. -/
theorem length_passes (cap bound : ℕ) (ref : κ) (es : List (Event κ))
    (r : List (Point κ) × Queue κ) :
    (passes cap bound ref es r).1.length + (passes cap bound ref es r).2.opens.length ≤
      r.1.length + r.2.opens.length + es.length := by
  induction es generalizing r with
  | nil => exact Nat.le_refl _
  | cons e es ih =>
    refine Nat.le_trans (ih (pass cap bound ref r e)) ?_
    have hone : (pass cap bound ref r e).1.length + (pass cap bound ref r e).2.opens.length ≤
        r.1.length + r.2.opens.length + 1 := by
      unfold pass step
      split_ifs
      · rw [List.length_append, length_later]
        exact Nat.le_succ _
      · dsimp only
        cases e.label with
        | none =>
          rw [length_later]
          exact Nat.le_succ _
        | some l =>
          dsimp only
          split_ifs
          · rw [List.length_append, length_later, List.length_singleton]
            exact Nat.le_refl _
          · rw [length_later]
            exact Nat.le_succ _
    rw [List.length_cons]
    omega

end Pass

end DelayQueue
