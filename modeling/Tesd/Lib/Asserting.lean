import Mathlib.Tactic.Common

/-!
# Computations with assertions

A computation changes a state and gives a value, unless an assertion fails, which ends everything.
`Returns` says that no assertion fails, from any state, and what holds of the value then; `Within`
says how the state has changed if none fails.
-/

/-- A computation that changes a state of this type, unless it ends the process. -/
abbrev Asserting (σ : Type) := StateT σ Option

namespace Asserting

variable {σ α β : Type}

/-- A call that always comes back. -/
def call (f : σ → α × σ) : Asserting σ α := fun s => some (f s)

/-- A call without a result. -/
def act (f : σ → σ) : Asserting σ Unit := fun s => some ((), f s)

/-- An assertion. -/
def check (p : Prop) [Decidable p] : Asserting σ Unit := if p then pure () else fun _ => none

/-! ## Running -/

@[simp] theorem pure_run (a : α) (s : σ) : (pure a : Asserting σ α) s = some (a, s) := rfl

@[simp] theorem call_run (f : σ → α × σ) (s : σ) : call f s = some (f s) := rfl

@[simp] theorem act_run (f : σ → σ) (s : σ) : act f s = some ((), f s) := rfl

theorem bind_run (x : Asserting σ α) (f : α → Asserting σ β) (s : σ) :
    (x >>= f) s = (x s).bind fun r => f r.1 r.2 := rfl

theorem check_pos {p : Prop} [Decidable p] (h : p) : (check p : Asserting σ Unit) = pure () :=
  if_pos h

theorem check_neg {p : Prop} [Decidable p] (h : ¬p) (s : σ) :
    (check p : Asserting σ Unit) s = none := by
  rw [check, if_neg h]

theorem bind_eq_some {x : Asserting σ α} {f : α → Asserting σ β} {s s' : σ} {b : β} :
    (x >>= f) s = some (b, s') ↔ ∃ a s₁, x s = some (a, s₁) ∧ f a s₁ = some (b, s') := by
  rw [bind_run]
  cases x s with
  | none => simp
  | some r =>
    constructor
    · exact fun h => ⟨r.1, r.2, rfl, h⟩
    · rintro ⟨a, s₁, hr, h⟩
      obtain rfl := Option.some.inj hr
      exact h

theorem check_bind_eq_some {p : Prop} [Decidable p] {x : Asserting σ α} {s s' : σ} {a : α} :
    (check p >>= fun _ => x) s = some (a, s') ↔ p ∧ x s = some (a, s') := by
  by_cases h : p
  · rw [check_pos h, pure_bind, and_iff_right h]
  · rw [bind_run, check_neg h]
    exact iff_of_false (fun h => by cases h) fun h' => h h'.1

/-! ## Returning -/

/-- No assertion fails, and the value is as stated. -/
def Returns (x : Asserting σ α) (post : α → Prop) : Prop :=
  ∀ s, ∃ a s', x s = some (a, s') ∧ post a

variable {x : Asserting σ α} {f : α → Asserting σ β} {mid post : α → Prop} {post' : β → Prop}

theorem Returns.mono (h : Returns x mid) (hpost : ∀ a, mid a → post a) : Returns x post := by
  intro s
  obtain ⟨a, s', hx, ha⟩ := h s
  exact ⟨a, s', hx, hpost a ha⟩

theorem returns_pure {a : α} (h : post a) : Returns (pure a : Asserting σ α) post :=
  fun s => ⟨a, s, rfl, h⟩

theorem returns_call {g : σ → α × σ} (h : ∀ s, post (g s).1) : Returns (call g) post :=
  fun s => ⟨(g s).1, (g s).2, rfl, h s⟩

theorem returns_always {g : σ → α × σ} : Returns (call g) fun _ => True :=
  returns_call fun _ => trivial

theorem Returns.bind (hx : Returns x mid) (hf : ∀ a, mid a → Returns (f a) post') :
    Returns (x >>= f) post' := by
  intro s
  obtain ⟨a, s₁, hs, ha⟩ := hx s
  obtain ⟨b, s', hs', hb⟩ := hf a ha s₁
  exact ⟨b, s', bind_eq_some.2 ⟨a, s₁, hs, hs'⟩, hb⟩

theorem returns_call_bind {g : σ → α × σ} (hf : ∀ a, Returns (f a) post') :
    Returns (call g >>= f) post' :=
  returns_always.bind fun a _ => hf a

theorem returns_act_bind {g : σ → σ} {x : Asserting σ α} (h : Returns x post) :
    Returns (act g >>= fun _ => x) post :=
  fun s => h (g s)

theorem returns_check_bind {p : Prop} [Decidable p] {x : Asserting σ α} (hp : p)
    (h : Returns x post) : Returns (check p >>= fun _ => x) post := by
  rw [check_pos hp, pure_bind]
  exact h

theorem returns_ite {p : Prop} [Decidable p] {x y : Asserting σ α} (hx : p → Returns x post)
    (hy : ¬p → Returns y post) : Returns (if p then x else y) post := by
  split_ifs with h
  · exact hx h
  · exact hy h

/-! ## What changes -/

/-- If no assertion fails, the state before and the one after are related. -/
def Within (R : σ → σ → Prop) (x : Asserting σ α) : Prop :=
  ∀ s a s', x s = some (a, s') → R s s'

section Within

variable {R : σ → σ → Prop}

theorem within_pure (refl : ∀ s, R s s) (a : α) : Within R (pure a : Asserting σ α) := by
  rintro s _ _ ⟨⟩
  exact refl s

theorem within_call {g : σ → α × σ} (h : ∀ s, R s (g s).2) : Within R (call g) := by
  intro s a s' hg
  have hs := h s
  rw [Option.some.inj hg] at hs
  exact hs

theorem within_act {g : σ → σ} (h : ∀ s, R s (g s)) : Within R (act g) := by
  rintro s _ _ ⟨⟩
  exact h s

theorem within_check (refl : ∀ s, R s s) (p : Prop) [Decidable p] :
    Within R (check p : Asserting σ Unit) := by
  by_cases hp : p
  · rw [check_pos hp]
    exact within_pure refl ()
  · intro s a s' h
    rw [check_neg hp] at h
    cases h

theorem Within.bind (trans : ∀ s₁ s₂ s₃, R s₁ s₂ → R s₂ s₃ → R s₁ s₃) (hx : Within R x)
    (hf : ∀ a, Within R (f a)) : Within R (x >>= f) := by
  intro s b s' h
  obtain ⟨a, s₁, hs, hrest⟩ := bind_eq_some.1 h
  exact trans s s₁ s' (hx s a s₁ hs) (hf a s₁ b s' hrest)

theorem within_ite {p : Prop} [Decidable p] {x y : Asserting σ α} (hx : Within R x)
    (hy : Within R y) : Within R (if p then x else y) := by
  split_ifs
  · exact hx
  · exact hy

end Within

end Asserting
