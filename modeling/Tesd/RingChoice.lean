import Tesd.RingOrder

/-!
# The first ring after an activation

The first call of `s_task_next_ring` after an activation looks for the earliest packet among the
task's heads of the rings.  It takes ring 0 if there is a packet on it, and from then on a ring whose
sequence number lies more than `0x7FFF` above the one before the packet it has.  The difference is an
`int`, so it is never large when the sequence numbers have not wrapped around in between.
-/

namespace Tesd

namespace Task

variable {nr : ℕ} {δ : Type} (rings : Fin nr → Ring) (task : Task nr δ)

/-- The sequence number of the packet at the task's head of a ring, if there is one. -/
def headFseq (r : Fin nr) : Option ℕ :=
  if (rings r).tail = task.heads r then none else some ((rings r).slot (task.heads r)).pkt.fseq

/-- The sequence number before this one, a `uint16_t`. -/
def before (fseq : ℕ) : ℕ := (((fseq : ℤ) - 1) % 2 ^ 16).toNat

/-- The comparison of `s_task_next_ring`. -/
def Ahead (fseq prev : ℕ) : Prop := (fseq : ℤ) - prev > 0x7FFF

instance (fseq prev : ℕ) : Decidable (Ahead fseq prev) := inferInstanceAs (Decidable (_ > _))

/-- How far into a window that starts at `w` a sequence number lies. -/
def age (w fseq : ℕ) : ℕ := (((fseq : ℤ) - w) % 2 ^ 16).toNat

/-- The head of this ring is the earliest one in the window. -/
def Earliest (w : ℕ) (r : Fin nr) (f : ℕ) : Prop :=
  task.headFseq rings r = some f ∧
    ∀ q g, task.headFseq rings q = some g → age w f ≤ age w g

/-- What the first call after an activation should do: it finds a ring unless all are empty, the
earliest one, and sets `prev_fseq` accordingly. -/
structure ChoosesEarliest (w : ℕ) : Prop where
  empty : (task.nextRing rings).1.1 = none → ∀ r, task.headFseq rings r = none
  earliest : ∀ q g, task.headFseq rings q = some g →
    ∃ r f, (task.nextRing rings).1.1 = some r ∧ task.Earliest rings w r f ∧
      (task.nextRing rings).2.prevFseq = before f

/-- What the rings after the first one are compared with: the sequence number before the one on
ring 0, or what `prev_fseq` was when the task was activated. -/
def seed : ℕ :=
  match (List.finRange nr).head?.bind (task.headFseq rings) with
  | none => task.prevFseq
  | some f => before f

/-- The earliest packet is on ring 0, or its sequence number is more than `0x7FFF` above the seed,
and the same holds neither of a ring on the way to it nor, with respect to it, of one after it. -/
def Reached (w : ℕ) : Prop :=
  ∃ e f, task.Earliest rings w e f ∧ (e.val = 0 ∨ Ahead f (task.seed rings)) ∧
    (∀ r g, task.headFseq rings r = some g → 0 < r.val → r < e → ¬Ahead g (task.seed rings)) ∧
    ∀ r g, task.headFseq rings r = some g → e < r → ¬Ahead g (before f)

variable {rings task}

/-! ## The loop -/

theorem firstRing_cons (r : Fin nr) (l : List (Fin nr)) (next : Option (Fin nr)) :
    firstRing rings (r :: l) next task =
      match task.headFseq rings r with
      | none => firstRing rings l next task
      | some f =>
        if r.val = 0 ∨ Ahead f task.prevFseq then
          firstRing rings l (some r) { task with prevFseq := before f }
        else firstRing rings l next task := by
  unfold headFseq
  rw [firstRing]
  split_ifs <;> rfl

/-- The loop over the rings after the first one passes over all of them, or it takes one. -/
theorem firstRing_cases (l : List (Fin nr)) (pos : ∀ r ∈ l, r.val ≠ 0) (next : Option (Fin nr))
    (task : Task nr δ) :
    ((∀ r ∈ l, ∀ f, task.headFseq rings r = some f → ¬Ahead f task.prevFseq) ∧
        firstRing rings l next task = (next, task)) ∨
      ∃ l₁ r f l₂, l = l₁ ++ r :: l₂ ∧ task.headFseq rings r = some f ∧ Ahead f task.prevFseq ∧
        (∀ q ∈ l₁, ∀ g, task.headFseq rings q = some g → ¬Ahead g task.prevFseq) ∧
        firstRing rings l next task =
          firstRing rings l₂ (some r) { task with prevFseq := before f } := by
  induction l with
  | nil => exact Or.inl ⟨by simp, rfl⟩
  | cons r l ih =>
    have hr := pos r (by simp)
    rw [firstRing_cons]
    by_cases hahead : ∃ f, task.headFseq rings r = some f ∧ Ahead f task.prevFseq
    · obtain ⟨f, hf, hahead⟩ := hahead
      refine Or.inr ⟨[], r, f, l, rfl, hf, hahead, by simp, ?_⟩
      rw [hf]
      simp only [hahead, or_true, if_true]
    · have hpass : ∀ f, task.headFseq rings r = some f → ¬Ahead f task.prevFseq :=
        fun f hf h => hahead ⟨f, hf, h⟩
      have hskip : (match task.headFseq rings r with
          | none => firstRing rings l next task
          | some f =>
            if r.val = 0 ∨ Ahead f task.prevFseq then
              firstRing rings l (some r) { task with prevFseq := before f }
            else firstRing rings l next task) = firstRing rings l next task := by
        cases hf : task.headFseq rings r with
        | none => rfl
        | some f => simp only [hr, hpass f hf, or_self, if_false]
      rw [hskip]
      rcases ih fun q hq => pos q (by simp [hq]) with
        ⟨hall, hres⟩ | ⟨l₁, q, f, l₂, rfl, hf, htaken, hbefore, hres⟩
      · refine Or.inl ⟨?_, hres⟩
        intro q hq
        rcases List.mem_cons.1 hq with rfl | hq
        · exact hpass
        · exact hall q hq
      · refine Or.inr ⟨r :: l₁, q, f, l₂, rfl, hf, htaken, ?_, hres⟩
        intro q' hq'
        rcases List.mem_cons.1 hq' with rfl | hq'
        · exact hpass
        · exact hbefore q' hq'

theorem headFseq_lt {r : Fin nr} {f : ℕ} (h : task.headFseq rings r = some f) : f < 2 ^ 16 := by
  unfold headFseq at h
  split_ifs at h
  obtain rfl := Option.some.inj h
  exact Tespkt.u16_lt 16

/-- A ring that is taken after another one that was ahead of the seed lies at the very end of the
sequence numbers, and the other one in their middle. -/
theorem eq_of_ahead {prev f g : ℕ} (first : Ahead f prev) (second : Ahead g (before f))
    (hf : f < 2 ^ 16) (hg : g < 2 ^ 16) : f = 0x8000 ∧ g = 0xFFFF := by
  unfold Ahead before at *
  omega

theorem age_lt_of_eq {w : ℕ} (h : age w 0x8000 < 2 ^ 15) : age w 0x8000 < age w 0xFFFF := by
  unfold age at *
  omega

/-! ## The rings in their order -/

/-- The rings from ring 1 on. -/
def laterRings (n : ℕ) : List (Fin (n + 1)) := (List.finRange n).map Fin.succ

theorem ne_zero_of_mem_laterRings {n : ℕ} {r : Fin (n + 1)} (h : r ∈ laterRings n) :
    r.val ≠ 0 := by
  obtain ⟨q, -, rfl⟩ := List.mem_map.1 h
  simp

/-- Around one of them are those with smaller and those with larger numbers. -/
theorem laterRings_split {n : ℕ} {l₁ l₂ : List (Fin (n + 1))} {r : Fin (n + 1)}
    (h : laterRings n = l₁ ++ r :: l₂) (q : Fin (n + 1)) :
    (q ∈ l₁ ↔ q.val ≠ 0 ∧ q < r) ∧ (q ∈ l₂ ↔ r < q) := by
  have hsorted : (laterRings n).Pairwise (· < ·) := by
    refine List.pairwise_map.2 ((List.pairwise_lt_finRange n).imp ?_)
    exact fun hlt => Fin.succ_lt_succ_iff.2 hlt
  have hmem : q ∈ laterRings n ↔ q.val ≠ 0 := by
    refine ⟨ne_zero_of_mem_laterRings, fun hq => ?_⟩
    obtain ⟨q', rfl⟩ : ∃ q', Fin.succ q' = q := Fin.exists_succ_eq.2 fun h0 => hq (by rw [h0]; rfl)
    exact List.mem_map_of_mem (List.mem_finRange q')
  rw [h] at hsorted hmem
  obtain ⟨-, hafter, hbefore⟩ := List.pairwise_append.1 hsorted
  have hlt₁ : q ∈ l₁ → q < r := fun hq => hbefore q hq r (by simp)
  have hlt₂ : q ∈ l₂ → r < q := fun hq => List.rel_of_pairwise_cons hafter hq
  rw [List.mem_append, List.mem_cons] at hmem
  constructor
  · constructor
    · exact fun hq => ⟨hmem.1 (Or.inl hq), hlt₁ hq⟩
    · rintro ⟨hne, hlt⟩
      rcases hmem.2 hne with hq | rfl | hq
      · exact hq
      · exact absurd hlt (lt_irrefl q)
      · exact absurd (hlt₂ hq) (lt_asymm hlt)
  · refine ⟨hlt₂, fun hlt => ?_⟩
    have hne : q.val ≠ 0 := by
      have : r.val < q.val := hlt
      omega
    rcases hmem.2 hne with hq | rfl | hq
    · exact absurd (hlt₁ hq) (lt_asymm hlt)
    · exact absurd hlt (lt_irrefl q)
    · exact hq

/-- The call after an activation, from ring 1 on. -/
theorem nextRing_succ {n : ℕ} (rings : Fin (n + 1) → Ring) {task : Task (n + 1) δ}
    (just : task.justActivated = true) :
    ∃ next, ((task.nextRing rings).1.1, (task.nextRing rings).2) =
        firstRing rings (laterRings n) next
          { task with prevFseq := task.seed rings } ∧
      (task.headFseq rings 0 = none ∧ next = none ∨
        ∃ f, task.headFseq rings 0 = some f ∧ next = some 0 ∧ task.seed rings = before f) := by
  unfold nextRing seed
  rw [if_pos just, List.finRange_succ, firstRing_cons]
  dsimp only [List.head?_cons, Option.bind_some]
  cases hf : task.headFseq rings 0 with
  | none => exact ⟨none, rfl, Or.inl ⟨rfl, rfl⟩⟩
  | some f => exact ⟨some 0, by simp [laterRings], Or.inr ⟨f, rfl, rfl, rfl⟩⟩

/-- The rings that the first call takes after ring 0: none, one, or two at the two ends of the upper
half of the sequence numbers. -/
theorem nextRing_cases {n : ℕ} (rings : Fin (n + 1) → Ring) {task : Task (n + 1) δ}
    (just : task.justActivated = true) :
    ((∀ r f, task.headFseq rings r = some f → r.val ≠ 0 → ¬Ahead f (task.seed rings)) ∧
      (task.headFseq rings 0 = none ∧ (task.nextRing rings).1.1 = none ∨
        ∃ f, task.headFseq rings 0 = some f ∧ (task.nextRing rings).1.1 = some 0 ∧
          (task.nextRing rings).2.prevFseq = before f ∧ task.seed rings = before f)) ∨
    ∃ r f, r.val ≠ 0 ∧ task.headFseq rings r = some f ∧ Ahead f (task.seed rings) ∧
      (∀ q g, task.headFseq rings q = some g → q.val ≠ 0 → q < r → ¬Ahead g (task.seed rings)) ∧
      ((∀ q g, task.headFseq rings q = some g → r < q → ¬Ahead g (before f)) ∧
          (task.nextRing rings).1.1 = some r ∧ (task.nextRing rings).2.prevFseq = before f ∨
        ∃ q, r < q ∧ f = 0x8000 ∧ task.headFseq rings q = some 0xFFFF ∧
          (task.nextRing rings).1.1 = some q) := by
  obtain ⟨next, hnext, hzero⟩ := nextRing_succ rings just
  rw [Prod.ext_iff] at hnext
  obtain ⟨hring, htask⟩ := hnext
  dsimp only at hring htask
  rw [hring, htask]
  rcases firstRing_cases (laterRings n) (fun r => ne_zero_of_mem_laterRings) next
    { task with prevFseq := task.seed rings } with
    ⟨hall, hres⟩ | ⟨l₁, r, f, l₂, hsplit, hf, hahead, hbefore, hres⟩
  · left
    rw [hres]
    refine ⟨fun r f hf hne => hall r ?_ f hf, ?_⟩
    · obtain ⟨q, rfl⟩ : ∃ q, Fin.succ q = r := Fin.exists_succ_eq.2 fun h0 => hne (by rw [h0]; rfl)
      exact List.mem_map_of_mem (List.mem_finRange q)
    · rcases hzero with ⟨hnone, rfl⟩ | ⟨f, hf, rfl, hseed⟩
      · exact Or.inl ⟨hnone, rfl⟩
      · exact Or.inr ⟨f, hf, rfl, hseed, hseed⟩
  · right
    have hmem : r ∈ laterRings n := by simp [hsplit]
    have hin := laterRings_split hsplit
    refine ⟨r, f, ne_zero_of_mem_laterRings hmem, hf, hahead,
      fun q g hg hne hlt => hbefore q ((hin q).1.2 ⟨hne, hlt⟩) g hg, ?_⟩
    rw [hres]
    have hne₂ : ∀ q ∈ l₂, q.val ≠ 0 := fun q hq =>
      ne_zero_of_mem_laterRings (by rw [hsplit]; simp [hq])
    rcases firstRing_cases l₂ hne₂ (some r) { task with prevFseq := before f } with
      ⟨hall₂, hres₂⟩ | ⟨k₁, q, g, k₂, rfl, hg, hahead₂, -, hres₂⟩
    · left
      rw [hres₂]
      exact ⟨fun q g hg hlt => hall₂ q ((hin q).2.2 hlt) g hg, rfl, rfl⟩
    · right
      obtain ⟨rfl, rfl⟩ := eq_of_ahead hahead hahead₂ (headFseq_lt hf) (headFseq_lt hg)
      refine ⟨q, (hin q).2.1 (by simp), rfl, hg, ?_⟩
      rw [hres₂]
      rcases firstRing_cases k₂ (fun q' hq' => hne₂ q' (by simp [hq'])) (some q)
        { task with prevFseq := before 0xFFFF } with
        ⟨-, hres₃⟩ | ⟨-, q', g', -, -, hg', hahead₃, -⟩
      · rw [hres₃]
      · have hlt := headFseq_lt hg'
        dsimp only [Ahead, before] at hahead₃
        omega

/-! ## When the earliest ring is chosen -/

theorem seed_of_zero {n : ℕ} {rings : Fin (n + 1) → Ring} {task : Task (n + 1) δ} {f : ℕ}
    (h : task.headFseq rings 0 = some f) : task.seed rings = before f := by
  unfold seed
  rw [List.finRange_succ, List.head?_cons, Option.bind_some, h]

theorem reached_of_result {n : ℕ} {rings : Fin (n + 1) → Ring} {task : Task (n + 1) δ} {w : ℕ}
    {r : Fin (n + 1)} {f : ℕ} (just : task.justActivated = true)
    (window : ∀ r f, task.headFseq rings r = some f → age w f < 2 ^ 15)
    (hres : (task.nextRing rings).1.1 = some r) (hearliest : task.Earliest rings w r f) :
    task.Reached rings w := by
  rcases nextRing_cases rings just with
    ⟨hpass, ⟨-, hnone⟩ | ⟨g, hg, hzero, -, hseed⟩⟩ |
      ⟨q, g, hne, hg, hahead, hbefore, ⟨hafter, htaken, -⟩ | ⟨p, -, rfl, hp, htaken⟩⟩
  · rw [hnone] at hres
    cases hres
  · obtain rfl : 0 = r := Option.some.inj (hzero.symm.trans hres)
    obtain rfl : g = f := Option.some.inj (hg.symm.trans hearliest.1)
    refine ⟨0, g, hearliest, Or.inl rfl, fun r k hk hpos _ => hpass r k hk (by omega), ?_⟩
    rw [← hseed]
    exact fun r k hk hpos => hpass r k hk (Nat.ne_of_gt hpos)
  · obtain rfl : q = r := Option.some.inj (htaken.symm.trans hres)
    obtain rfl : g = f := Option.some.inj (hg.symm.trans hearliest.1)
    exact ⟨q, g, hearliest, Or.inr hahead, fun r k hk hpos => hbefore r k hk (by omega), hafter⟩
  · -- the ring that was taken first has the earlier packet
    obtain rfl : p = r := Option.some.inj (htaken.symm.trans hres)
    obtain rfl : 0xFFFF = f := Option.some.inj (hp.symm.trans hearliest.1)
    have hle := hearliest.2 q 0x8000 hg
    have hlt := age_lt_of_eq (window q 0x8000 hg)
    omega

theorem result_of_reached {n : ℕ} {rings : Fin (n + 1) → Ring} {task : Task (n + 1) δ} {w : ℕ}
    (just : task.justActivated = true) (hreached : task.Reached rings w) :
    ∃ e f, task.Earliest rings w e f ∧ (task.nextRing rings).1.1 = some e ∧
      (task.nextRing rings).2.prevFseq = before f := by
  obtain ⟨e, f, hearliest, hor, hpass, hstay⟩ := hreached
  have hf := hearliest.1
  refine ⟨e, f, hearliest, ?_⟩
  rcases nextRing_cases rings just with
    ⟨hall, hzero⟩ | ⟨q, g, hne, hg, hahead, hbefore, hrest⟩
  · have he : e = 0 := by
      by_contra hne
      have hpos : e.val ≠ 0 := fun h0 => hne (Fin.ext h0)
      exact hall e f hf hpos (hor.resolve_left hpos)
    subst he
    rcases hzero with ⟨hnone, -⟩ | ⟨g, hg, hres, hprev, -⟩
    · rw [hf] at hnone
      cases hnone
    · obtain rfl : f = g := Option.some.inj (hf.symm.trans hg)
      exact ⟨hres, hprev⟩
  · have he : e.val ≠ 0 := by
      intro h0
      obtain rfl : e = 0 := Fin.ext h0
      rw [seed_of_zero hf] at hahead
      exact hstay q g hg (Nat.pos_of_ne_zero hne) hahead
    have hae := hor.resolve_left he
    rcases lt_trichotomy e q with hlt | rfl | hgt
    · exact absurd hae (hbefore e f hf he hlt)
    · obtain rfl : f = g := Option.some.inj (hf.symm.trans hg)
      rcases hrest with ⟨-, hres, hprev⟩ | ⟨p, hlt, rfl, hp, -⟩
      · exact ⟨hres, hprev⟩
      · exact absurd (by unfold Ahead before; omega) (hstay p 0xFFFF hp hlt)
    · exact absurd hahead (hpass q g hg (by omega) hgt)

/-- The first call after an activation chooses the earliest ring of a window of `2 ^ 15` sequence
numbers exactly if all rings are empty or the loop gets to that ring and stays there. -/
theorem choosesEarliest_iff (rings : Fin nr → Ring) (task : Task nr δ)
    (just : task.justActivated = true) (w : ℕ)
    (window : ∀ r f, task.headFseq rings r = some f → age w f < 2 ^ 15) :
    task.ChoosesEarliest rings w ↔
      (∀ r, task.headFseq rings r = none) ∨ task.Reached rings w := by
  cases nr with
  | zero => exact ⟨fun _ => Or.inl fun r => r.elim0, fun _ => ⟨fun _ r => r.elim0, fun r => r.elim0⟩⟩
  | succ n =>
    constructor
    · intro chooses
      by_cases hall : ∀ r, task.headFseq rings r = none
      · exact Or.inl hall
      · right
        obtain ⟨q, hq⟩ := not_forall.1 hall
        obtain ⟨g, hg⟩ := Option.ne_none_iff_exists'.1 hq
        obtain ⟨r, f, hres, hearliest, -⟩ := chooses.earliest q g hg
        exact reached_of_result just window hres hearliest
    · rintro (hall | hreached)
      · exact ⟨fun _ => hall, fun q g hg => absurd (hall q) (by simp [hg])⟩
      · obtain ⟨e, f, hearliest, hres, hprev⟩ := result_of_reached just hreached
        exact ⟨fun hnone => absurd (hnone.symm.trans hres) (by simp),
          fun _ _ _ => ⟨e, f, hres, hearliest, hprev⟩⟩

/-! ## Small rings -/

/-- A task that has just been activated. -/
def taskActivated : Task 4 Unit := { taskAt0 with justActivated := true }

/-- Packets 3 and 5 are on rings 0 and 1. -/
theorem choosesEarliest_of_ring0 :
    taskActivated.ChoosesEarliest (ringsWith [(0, tickAt 3), (1, tickAt 5)]) 0 := by
  apply (choosesEarliest_iff _ _ rfl 0 (by decide)).2
  exact Or.inr ⟨0, 3, ⟨rfl, by decide⟩, Or.inl rfl, by decide, by decide⟩

/-- With packet 5 on ring 0 and packet 3 on ring 1 the task starts with packet 5. -/
theorem not_choosesEarliest :
    ¬∀ (rings : Fin 4 → Ring) (task : Task 4 Unit) (w : ℕ), task.justActivated = true →
      (∀ r f, task.headFseq rings r = some f → age w f < 2 ^ 15) →
      task.ChoosesEarliest rings w := by
  intro h
  have hearliest := (h (ringsWith [(0, tickAt 5), (1, tickAt 3)]) taskActivated 0 rfl
    (by decide)).earliest 1 3 rfl
  obtain ⟨r, f, hres, ⟨hf, hmin⟩, -⟩ := hearliest
  obtain rfl : 0 = r := Option.some.inj hres
  obtain rfl : 5 = f := Option.some.inj hf
  exact absurd (hmin 1 3 rfl) (by decide)

end Task

end Tesd
