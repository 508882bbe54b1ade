import Mathlib.Data.Nat.ModEq
import Mathlib.Tactic.Common

/-!
# Runs of a step function

A system with states `σ` takes an action if `step` gives it a next state.  A condition on the steps
of a run is a predicate of the action and the state before it, and what a run amounts to is a sum or
a list over its steps.
-/

namespace Runs

variable {σ α β : Type*} (step : α → σ → Option σ)

/-- The state after these actions, if each of them can be taken. -/
def run : List α → σ → Option σ
  | [], s => some s
  | a :: as, s => (step a s).bind (run as)

/-- Every step of the run meets the condition. -/
def Along (p : α → σ → Prop) : List α → σ → Prop
  | [], _ => True
  | a :: as, s => p a s ∧ ∀ s', step a s = some s' → Along p as s'

/-- What the steps of a run yield, put together. -/
def collect (out : α → σ → List β) : List α → σ → List β
  | [], _ => []
  | a :: as, s => out a s ++
    match step a s with
    | none => []
    | some s' => collect out as s'

/-- The sum of what the steps of a run yield. -/
def total (f : α → σ → ℕ) (as : List α) (s : σ) : ℕ := (collect step (fun a s => [f a s]) as s).sum

/-- Every step of the run meets the condition, which may look at what the run has yielded before. -/
def AlongHistory (out : α → σ → List β) (p : List β → α → σ → Prop) : List β → List α → σ → Prop
  | _, [], _ => True
  | b, a :: as, s => p b a s ∧ ∀ s', step a s = some s' → AlongHistory out p (b ++ out a s) as s'

variable {step}

theorem run_cons {a : α} {as : List α} {s s'' : σ} (h : run step (a :: as) s = some s'') :
    ∃ s', step a s = some s' ∧ run step as s' = some s'' := by
  rw [run] at h
  exact Option.bind_eq_some_iff.1 h

theorem run_append (as bs : List α) (s : σ) :
    run step (as ++ bs) s = (run step as s).bind (run step bs) := by
  induction as generalizing s with
  | nil => rfl
  | cons a as ih =>
    rw [List.cons_append, run, run]
    cases step a s with
    | none => rfl
    | some s' => exact ih s'

theorem run_concat {as : List α} {a : α} {s s'' : σ} (h : run step (as ++ [a]) s = some s'') :
    ∃ s', run step as s = some s' ∧ step a s' = some s'' := by
  rw [run_append] at h
  obtain ⟨s', h₁, h₂⟩ := Option.bind_eq_some_iff.1 h
  obtain ⟨t, ht, hrest⟩ := run_cons h₂
  exact ⟨s', h₁, ht.trans hrest⟩

/-- What every step that meets the condition preserves holds at the end of the run. -/
theorem invariant_of_along {p : α → σ → Prop} {Inv : σ → Prop}
    (keep : ∀ a s s', Inv s → p a s → step a s = some s' → Inv s') {as : List α} {s s' : σ}
    (inv : Inv s) (along : Along step p as s) (h : run step as s = some s') : Inv s' := by
  induction as generalizing s with
  | nil =>
    obtain rfl := Option.some.inj h
    exact inv
  | cons a as ih =>
    obtain ⟨t, ht, hrest⟩ := run_cons h
    exact ih (keep a s t inv along.1 ht) (along.2 t ht) hrest

theorem along_append {p : α → σ → Prop} {as bs : List α} {s : σ} (h₁ : Along step p as s)
    (h₂ : ∀ s', run step as s = some s' → Along step p bs s') : Along step p (as ++ bs) s := by
  induction as generalizing s with
  | nil => exact h₂ s rfl
  | cons a as ih =>
    refine ⟨h₁.1, fun t ht => ih (h₁.2 t ht) fun s' hs' => h₂ s' ?_⟩
    rw [run, ht]
    exact hs'

theorem along_of_append {p : α → σ → Prop} {as bs : List α} {s s' : σ}
    (h : Along step p (as ++ bs) s) (hrun : run step as s = some s') : Along step p bs s' := by
  induction as generalizing s with
  | nil =>
    obtain rfl := Option.some.inj hrun
    exact h
  | cons a as ih =>
    obtain ⟨t, ht, hrest⟩ := run_cons hrun
    exact ih (h.2 t ht) hrest

theorem along_of_forall {p : α → σ → Prop} {as : List α} (h : ∀ a ∈ as, ∀ s, p a s) (s : σ) :
    Along step p as s := by
  induction as generalizing s with
  | nil => trivial
  | cons a as ih =>
    exact ⟨h a (by simp) s, fun s' _ => ih (fun b hb => h b (List.mem_cons_of_mem _ hb)) s'⟩

theorem along_left {p : α → σ → Prop} {as bs : List α} {s : σ} (h : Along step p (as ++ bs) s) :
    Along step p as s := by
  induction as generalizing s with
  | nil => trivial
  | cons a as ih => exact ⟨h.1, fun t ht => ih (h.2 t ht)⟩

theorem along_and {p q : α → σ → Prop} {as : List α} {s : σ} (hp : Along step p as s)
    (hq : Along step q as s) : Along step (fun a s => p a s ∧ q a s) as s := by
  induction as generalizing s with
  | nil => trivial
  | cons a as ih => exact ⟨⟨hp.1, hq.1⟩, fun t ht => ih (hp.2 t ht) (hq.2 t ht)⟩

/-- A condition that follows from what every step preserves. -/
theorem along_of_invariant {p : α → σ → Prop} {Inv : σ → Prop} {as : List α}
    (keep : ∀ a ∈ as, ∀ s s', Inv s → step a s = some s' → Inv s')
    (meets : ∀ a ∈ as, ∀ s, Inv s → p a s) {s : σ} (inv : Inv s) : Along step p as s := by
  induction as generalizing s with
  | nil => trivial
  | cons a as ih =>
    refine ⟨meets a (by simp) s inv, fun t ht => ?_⟩
    exact ih (fun b hb => keep b (List.mem_cons_of_mem _ hb))
      (fun b hb => meets b (List.mem_cons_of_mem _ hb)) (keep a (by simp) s t inv ht)

/-- A condition that follows from another one and from what the steps that meet it preserve. -/
theorem along_of_along {p q : α → σ → Prop} (Inv : σ → Prop)
    (keep : ∀ a s s', Inv s → p a s → step a s = some s' → Inv s')
    (meets : ∀ a s, Inv s → p a s → q a s) {as : List α} {s : σ} (inv : Inv s)
    (along : Along step p as s) : Along step q as s := by
  induction as generalizing s with
  | nil => trivial
  | cons a as ih =>
    refine ⟨meets a s inv along.1, fun t ht => ?_⟩
    exact ih (keep a s t inv along.1 ht) (along.2 t ht)

/-- What every step preserves holds at the end of the run. -/
theorem invariant {Inv : σ → Prop} (keep : ∀ a s s', Inv s → step a s = some s' → Inv s')
    {as : List α} {s s' : σ} (inv : Inv s) (h : run step as s = some s') : Inv s' :=
  invariant_of_along (p := fun _ _ => True) (fun a s s' hi _ => keep a s s' hi) inv
    (along_of_forall (fun _ _ _ => trivial) s) h

/-! ## What a run yields -/

section Yields

variable {γ : Type*} {out : α → σ → List β} {inp : α → σ → List γ}

theorem collect_cons {a : α} {as : List α} {s s' : σ} (h : step a s = some s') :
    collect step out (a :: as) s = out a s ++ collect step out as s' := by
  rw [collect, h]

theorem collect_append {as : List α} {s s' : σ} (bs : List α) (h : run step as s = some s') :
    collect step out (as ++ bs) s = collect step out as s ++ collect step out bs s' := by
  induction as generalizing s with
  | nil =>
    obtain rfl := Option.some.inj h
    rfl
  | cons a as ih =>
    obtain ⟨t, ht, hrest⟩ := run_cons h
    rw [List.cons_append, collect_cons ht, collect_cons ht, ih hrest, List.append_assoc]

theorem total_cons {f : α → σ → ℕ} {a : α} {as : List α} {s s' : σ} (h : step a s = some s') :
    total step f (a :: as) s = f a s + total step f as s' := by
  rw [total, collect_cons h, List.sum_append, List.sum_singleton, total]

theorem total_append {f : α → σ → ℕ} {as : List α} {s s' : σ} (bs : List α)
    (h : run step as s = some s') :
    total step f (as ++ bs) s = total step f as s + total step f bs s' := by
  rw [total, collect_append bs h, List.sum_append, total, total]

theorem total_singleton (f : α → σ → ℕ) (a : α) (s : σ) : total step f [a] s = f a s := by
  rw [total, collect]
  cases step a s <;> simp [collect]

/-- What every step preserves, given the actions so far, holds at the end of the run. -/
theorem trace_of_along {p : α → σ → Prop} {Inv : List α → σ → Prop}
    (keep : ∀ as a s s', Inv as s → p a s → step a s = some s' → Inv (as ++ [a]) s')
    {before as : List α} {s s' : σ} (inv : Inv before s) (along : Along step p as s)
    (h : run step as s = some s') : Inv (before ++ as) s' := by
  induction as generalizing before s with
  | nil =>
    obtain rfl := Option.some.inj h
    rw [List.append_nil]
    exact inv
  | cons a as ih =>
    obtain ⟨t, ht, hrest⟩ := run_cons h
    have hstep := ih (keep before a s t inv along.1 ht) (along.2 t ht) hrest
    rwa [List.append_assoc] at hstep

/-- What every step that meets the condition preserves, given what the run has yielded so far. -/
theorem history_of_alongHistory {p : List β → α → σ → Prop} {Inv : List β → σ → Prop}
    (keep : ∀ b a s s', Inv b s → p b a s → step a s = some s' → Inv (b ++ out a s) s')
    {as : List α} {s s' : σ} {b : List β} (inv : Inv b s)
    (along : AlongHistory step out p b as s) (h : run step as s = some s') :
    Inv (b ++ collect step out as s) s' := by
  induction as generalizing s b with
  | nil =>
    obtain rfl := Option.some.inj h
    rw [collect, List.append_nil]
    exact inv
  | cons a as ih =>
    obtain ⟨t, ht, hrest⟩ := run_cons h
    rw [collect_cons ht, ← List.append_assoc]
    exact ih (keep b a s t inv along.1 ht) (along.2 t ht) hrest

/-- What every step preserves, given what the run has yielded so far, holds at the end of the run.
-/
theorem history_of_along {p : α → σ → Prop} {Inv : List β → List γ → σ → Prop}
    (keep : ∀ b c a s s', Inv b c s → p a s → step a s = some s' →
      Inv (b ++ out a s) (c ++ inp a s) s') {as : List α} {s s' : σ} {b : List β} {c : List γ}
    (inv : Inv b c s) (along : Along step p as s) (h : run step as s = some s') :
    Inv (b ++ collect step out as s) (c ++ collect step inp as s) s' := by
  induction as generalizing s b c with
  | nil =>
    obtain rfl := Option.some.inj h
    rw [collect, collect, List.append_nil, List.append_nil]
    exact inv
  | cons a as ih =>
    obtain ⟨t, ht, hrest⟩ := run_cons h
    rw [collect_cons ht, collect_cons ht, ← List.append_assoc, ← List.append_assoc]
    exact ih (keep b c a s t inv along.1 ht) (along.2 t ht) hrest

theorem history {Inv : List β → List γ → σ → Prop}
    (keep : ∀ b c a s s', Inv b c s → step a s = some s' → Inv (b ++ out a s) (c ++ inp a s) s')
    {as : List α} {s s' : σ} (inv : Inv [] [] s) (h : run step as s = some s') :
    Inv (collect step out as s) (collect step inp as s) s' :=
  history_of_along (p := fun _ _ => True) (fun b c a s s' hi _ => keep b c a s s' hi) inv
    (along_of_forall (fun _ _ _ => trivial) s) h

/-- A quantity that every step raises by what it yields. -/
theorem total_run {Inv : σ → Prop} (m : σ → ℕ) {gain : α → σ → ℕ}
    (keep : ∀ a s s', Inv s → step a s = some s' → Inv s' ∧ m s' = m s + gain a s)
    {as : List α} {s s' : σ} (inv : Inv s) (h : run step as s = some s') :
    m s' = m s + total step gain as s := by
  induction as generalizing s with
  | nil =>
    obtain rfl := Option.some.inj h
    rfl
  | cons a as ih =>
    obtain ⟨t, ht, hrest⟩ := run_cons h
    obtain ⟨inv', hstep⟩ := keep a s t inv ht
    have := ih inv' hrest
    simp only [total, collect_cons ht, List.singleton_append, List.sum_cons] at this ⊢
    omega

/-- A quantity that every step that meets the condition raises by what it yields. -/
theorem total_of_along {p : α → σ → Prop} {Inv : σ → Prop} (m : σ → ℕ) {gain : α → σ → ℕ}
    (keep : ∀ a s s', Inv s → p a s → step a s = some s' → Inv s' ∧ m s' = m s + gain a s)
    {as : List α} {s s' : σ} (inv : Inv s) (along : Along step p as s)
    (h : run step as s = some s') : m s' = m s + total step gain as s := by
  induction as generalizing s with
  | nil =>
    obtain rfl := Option.some.inj h
    rfl
  | cons a as ih =>
    obtain ⟨t, ht, hrest⟩ := run_cons h
    obtain ⟨inv', hstep⟩ := keep a s t inv along.1 ht
    have hsum := ih inv' (along.2 t ht) hrest
    rw [total_cons ht]
    omega

end Yields

end Runs
