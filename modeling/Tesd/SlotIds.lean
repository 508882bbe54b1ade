import Mathlib.Data.List.MinMax
import Mathlib.Order.Lattice
import Tesd.Ring

/-!
# Slot ids

The functions of `tesif.c` that compare and count slots, on the 32-bit fields of a ring.  They agree
with those of `Ring`, whose fields are natural numbers, and with the distance from the head.
-/

namespace Tesd

/-- The fields of `struct netmap_ring` that number slots. -/
structure IfRing where
  numSlots : UInt32
  head : UInt32
  cur : UInt32
  tail : UInt32

namespace IfRing

variable (ring : IfRing)

/-- `tes_ifring_preceding`. -/
def preceding (idx : UInt32) : UInt32 := if idx = 0 then ring.numSlots - 1 else idx - 1

/-- `tes_ifring_following`. -/
def following (idx : UInt32) : UInt32 := if idx + 1 = ring.numSlots then 0 else idx + 1

/-- Both slots are in the same region of the ring. -/
def SameRegion (ida idb : UInt32) : Prop :=
  (ring.head ≤ ida ∧ ring.head ≤ idb) ∨ (ring.head > ida ∧ ring.head > idb)

instance (ida idb : UInt32) : Decidable (ring.SameRegion ida idb) :=
  inferInstanceAs (Decidable (_ ∨ _))

/-- `tes_ifring_compare_ids`. -/
def compareIds (ida idb : UInt32) : ℤ :=
  if ida = idb then 0
  else if ring.SameRegion ida idb then if ida < idb then -1 else 1
  else if ida < idb then 1 else -1

/-- `tes_ifring_earlier_id`. -/
def earlierId (ida idb : UInt32) : UInt32 :=
  if ida = idb then ida
  else if ring.SameRegion ida idb then if ida < idb then ida else idb
  else if ida < idb then idb else ida

/-- `tes_ifring_later_id`. -/
def laterId (ida idb : UInt32) : UInt32 :=
  if ida = idb then ida
  else if ring.SameRegion ida idb then if ida < idb then idb else ida
  else if ida < idb then ida else idb

/-- `tes_ifring_pending`. -/
def pending : UInt32 :=
  if ring.tail ≥ ring.cur then ring.tail - ring.cur else ring.numSlots + ring.tail - ring.cur

/-- `tes_ifring_done`. -/
def done : UInt32 :=
  if ring.cur ≥ ring.head then ring.cur - ring.head else ring.numSlots + ring.cur - ring.head

/-- `tes_ifring_total`. -/
def total : UInt32 :=
  if ring.tail ≥ ring.head then ring.tail - ring.head else ring.numSlots + ring.tail - ring.head

/-- The circular distance of a slot from the head. -/
def dist (id : UInt32) : ℤ := ((id.toNat : ℤ) - ring.head.toNat) % ring.numSlots.toNat

/-- A slot of the ring. -/
abbrev Id := {id : UInt32 // id < ring.numSlots}

/-- The earliest of some slots, found one after the other as `tasks_get_heads` does. -/
def foldEarlier : List UInt32 → Option UInt32
  | [] => none
  | id :: ids => some (ids.foldl ring.earlierId id)

/-- What the functions on slots have to do with the distance from the head. -/
structure AgreesWithDist : Prop where
  compare : ∀ ida < ring.numSlots, ∀ idb < ring.numSlots,
    ring.compareIds ida idb = Int.sign (ring.dist ida - ring.dist idb)
  ordered : ∃ order : LinearOrder ring.Id,
    (∀ a b : ring.Id, order.le a b ↔ ring.dist a ≤ ring.dist b) ∧
    (∀ a b : ring.Id, ring.earlierId a b = order.min a b) ∧
    ∀ a b : ring.Id, ring.laterId a b = order.max a b
  fold : ∀ ids ids' : List UInt32, (∀ id ∈ ids, id < ring.numSlots) → ids.Perm ids' →
    ring.foldEarlier ids = ring.foldEarlier ids'
  least : ∀ ids id, (∀ id ∈ ids, id < ring.numSlots) → ring.foldEarlier ids = some id →
    id ∈ ids ∧ ∀ id' ∈ ids, ring.dist id ≤ ring.dist id'
  following : ∀ id < ring.numSlots,
    ring.following id < ring.numSlots ∧ ring.preceding (ring.following id) = id
  preceding : ∀ id < ring.numSlots,
    ring.preceding id < ring.numSlots ∧ ring.following (ring.preceding id) = id
  counts : ring.dist ring.cur ≤ ring.dist ring.tail →
    ring.done.toNat + ring.pending.toNat = ring.total.toNat

variable {ring} {ida idb : UInt32}

/-! ## The functions on natural numbers -/

theorem toNat_following (h : ida < ring.numSlots) :
    (ring.following ida).toNat = Circular.next ring.numSlots.toNat ida.toNat := by
  have hlt := UInt32.lt_iff_toNat_lt.1 h
  have hsize := ring.numSlots.toNat_lt
  have hsucc : (ida + 1).toNat = ida.toNat + 1 := by
    rw [UInt32.toNat_add, UInt32.toNat_one]
    omega
  unfold following Circular.next
  simp only [← UInt32.toNat_inj, hsucc]
  split_ifs
  · rfl
  · exact hsucc

theorem toNat_preceding (h : ida < ring.numSlots) :
    (ring.preceding ida).toNat = Circular.prev ring.numSlots.toNat ida.toNat := by
  have hlt := UInt32.lt_iff_toNat_lt.1 h
  have hpred : ∀ x : UInt32, 0 < x.toNat → (x - 1).toNat = x.toNat - 1 := by
    intro x hx
    have := x.toNat_lt
    rw [UInt32.toNat_sub, UInt32.toNat_one]
    omega
  unfold preceding Circular.prev
  simp only [← UInt32.toNat_inj, UInt32.toNat_zero]
  split_ifs
  · exact hpred _ (by omega)
  · exact hpred _ (by omega)

theorem toNat_steps {a b : UInt32} (ha : a < ring.numSlots) (hb : b < ring.numSlots) :
    (if b ≥ a then b - a else ring.numSlots + b - a).toNat =
      Circular.dist ring.numSlots.toNat a.toNat b.toNat := by
  have hlt := UInt32.lt_iff_toNat_lt.1 ha
  have hlt' := UInt32.lt_iff_toNat_lt.1 hb
  have hsize := ring.numSlots.toNat_lt
  unfold Circular.dist
  simp only [ge_iff_le, UInt32.le_iff_toNat_le]
  -- the sum of size and slot may wrap around, and the difference wraps back
  split_ifs
  · rw [UInt32.toNat_sub]
    omega
  · rw [UInt32.toNat_sub, UInt32.toNat_add]
    omega

/-- The ring with these contents, its fields as natural numbers. -/
def withSlots (slot : ℕ → Slot) (ring : IfRing) : Ring where
  numSlots := ring.numSlots.toNat
  head := ring.head.toNat
  cur := ring.cur.toNat
  tail := ring.tail.toNat
  slot := slot

/-- A ring that counts in natural numbers finds the same slots. -/
theorem withSlots_eq (slot : ℕ → Slot) (head : ring.head < ring.numSlots)
    (cur : ring.cur < ring.numSlots) :
    (∀ id < ring.numSlots, (ring.withSlots slot).following id.toNat = (ring.following id).toNat ∧
      (ring.withSlots slot).preceding id.toNat = (ring.preceding id).toNat) ∧
    (∀ ida idb, (ring.withSlots slot).earlierId ida.toNat idb.toNat =
      (ring.earlierId ida idb).toNat) ∧
    (ring.withSlots slot).done = ring.done.toNat := by
  refine ⟨fun id h => ⟨(toNat_following h).symm, (toNat_preceding h).symm⟩, fun ida idb => ?_, ?_⟩
  · unfold earlierId Ring.earlierId SameRegion withSlots
    simp only [← UInt32.toNat_inj, UInt32.le_iff_toNat_le, UInt32.lt_iff_toNat_lt, gt_iff_lt]
    split_ifs <;> rfl
  · exact (toNat_steps head cur).symm

/-! ## Order and distance -/

/-- The three functions that compare slots distinguish the same cases. -/
theorem earlierId_eq_compare (ring : IfRing) (ida idb : UInt32) :
    ring.earlierId ida idb = if ring.compareIds ida idb ≤ 0 then ida else idb := by
  unfold earlierId compareIds
  split_ifs <;> first | rfl | omega

theorem laterId_eq_compare (ring : IfRing) (ida idb : UInt32) :
    ring.laterId ida idb = if ring.compareIds ida idb ≤ 0 then idb else ida := by
  unfold laterId compareIds
  split_ifs with heq <;> first | exact heq | rfl | omega

/-- The distance of a slot from the head, as that of two places. -/
def steps (ring : IfRing) (id : UInt32) : ℕ :=
  Circular.dist ring.numSlots.toNat ring.head.toNat id.toNat

variable (head : ring.head < ring.numSlots)
include head

theorem dist_eq {id : UInt32} (h : id < ring.numSlots) : ring.dist id = ring.steps id :=
  (Circular.dist_eq_emod (UInt32.lt_iff_toNat_lt.1 head) (UInt32.lt_iff_toNat_lt.1 h)).symm

theorem steps_injective : Function.Injective fun id : ring.Id => ring.steps id := by
  intro a b h
  apply Subtype.ext
  apply UInt32.toNat_inj.1
  exact Circular.dist_inj (UInt32.lt_iff_toNat_lt.1 head) (UInt32.lt_iff_toNat_lt.1 a.2)
    (UInt32.lt_iff_toNat_lt.1 b.2) h

/-- The slots in the order in which they come from the head on. -/
abbrev order : LinearOrder ring.Id :=
  LinearOrder.lift' (fun id => ring.steps id) (steps_injective head)

theorem compareIds_eq (ha : ida < ring.numSlots) (hb : idb < ring.numSlots) :
    ring.compareIds ida idb = Int.sign (ring.dist ida - ring.dist idb) := by
  have hhead := UInt32.lt_iff_toNat_lt.1 head
  have ha' := UInt32.lt_iff_toNat_lt.1 ha
  have hb' := UInt32.lt_iff_toNat_lt.1 hb
  rw [dist_eq head ha, dist_eq head hb]
  unfold compareIds SameRegion
  simp only [← UInt32.toNat_inj, UInt32.le_iff_toNat_le, UInt32.lt_iff_toNat_lt, gt_iff_lt]
  rcases lt_trichotomy (ring.steps ida) (ring.steps idb) with hlt | heq | hgt
  · rw [Int.sign_eq_neg_one_of_neg (by omega)]
    unfold steps Circular.dist at hlt
    split_ifs at hlt ⊢ <;> omega
  · rw [heq, Int.sub_self, Int.sign_zero, if_pos (Circular.dist_inj hhead ha' hb' heq)]
  · rw [Int.sign_eq_one_of_pos (by omega)]
    unfold steps Circular.dist at hgt
    split_ifs at hgt ⊢ <;> omega

theorem compareIds_nonpos_iff (ha : ida < ring.numSlots) (hb : idb < ring.numSlots) :
    ring.compareIds ida idb ≤ 0 ↔ ring.steps ida ≤ ring.steps idb := by
  rw [compareIds_eq head ha hb, dist_eq head ha, dist_eq head hb, Int.sign_nonpos_iff]
  omega

theorem earlierId_eq (ha : ida < ring.numSlots) (hb : idb < ring.numSlots) :
    ring.earlierId ida idb = if ring.steps ida ≤ ring.steps idb then ida else idb := by
  rw [earlierId_eq_compare]
  simp only [compareIds_nonpos_iff head ha hb]

theorem laterId_eq (ha : ida < ring.numSlots) (hb : idb < ring.numSlots) :
    ring.laterId ida idb = if ring.steps ida ≤ ring.steps idb then idb else ida := by
  rw [laterId_eq_compare]
  simp only [compareIds_nonpos_iff head ha hb]

/-- Folding `tes_ifring_earlier_id` over slots finds the one nearest to the head. -/
theorem foldEarlier_eq_argmin (ids : List UInt32) (h : ∀ id ∈ ids, id < ring.numSlots) :
    ring.foldEarlier ids = ids.argmin ring.steps := by
  induction ids using List.reverseRecOn with
  | nil => rfl
  | append_singleton ids id ih =>
    have hids : ∀ id ∈ ids, id < ring.numSlots := fun id hid =>
      h id (List.mem_append_left _ hid)
    have hid : id < ring.numSlots := h id (by simp)
    rw [List.argmin_concat, ← ih hids]
    cases ids with
    | nil => rfl
    | cons id₀ ids =>
      have hmem : ids.foldl ring.earlierId id₀ ∈ id₀ :: ids :=
        List.argmin_mem (ih hids).symm
      rw [List.cons_append, foldEarlier, List.foldl_concat, earlierId_eq head (hids _ hmem) hid,
        foldEarlier]
      dsimp only
      rcases Nat.lt_or_ge (ring.steps id) (ring.steps (ids.foldl ring.earlierId id₀)) with hlt | hge
      · rw [if_neg (Nat.not_le.2 hlt), if_pos hlt]
      · rw [if_pos hge, if_neg (Nat.not_lt.2 hge)]

theorem foldEarlier_least {ids : List UInt32} {id : UInt32} (h : ∀ id ∈ ids, id < ring.numSlots)
    (hfold : ring.foldEarlier ids = some id) :
    id ∈ ids ∧ ∀ id' ∈ ids, ring.steps id ≤ ring.steps id' := by
  rw [foldEarlier_eq_argmin head ids h] at hfold
  exact ⟨List.argmin_mem hfold, fun id' hid' => List.le_of_mem_argmin hid' hfold⟩

/-- The order of the slots does not matter, since only one is nearest to the head. -/
theorem foldEarlier_perm {ids ids' : List UInt32} (h : ∀ id ∈ ids, id < ring.numSlots)
    (perm : ids.Perm ids') : ring.foldEarlier ids = ring.foldEarlier ids' := by
  have h' : ∀ id ∈ ids', id < ring.numSlots := fun id hid => h id (perm.mem_iff.2 hid)
  cases ids with
  | nil => rw [List.nil_perm.1 perm]
  | cons a as =>
    cases ids' with
    | nil => exact absurd perm.length_eq (Nat.succ_ne_zero _)
    | cons b bs =>
      obtain ⟨hmem, hle⟩ := foldEarlier_least head h rfl
      obtain ⟨hmem', hle'⟩ := foldEarlier_least head h' rfl
      have hsteps := Nat.le_antisymm (hle _ (perm.mem_iff.2 hmem')) (hle' _ (perm.mem_iff.1 hmem))
      have heq := @steps_injective _ head ⟨_, h _ hmem⟩ ⟨_, h' _ hmem'⟩ hsteps
      exact congrArg some (congrArg Subtype.val heq)

/-- The comparisons of slots, which look at their regions, agree with the distance from the head, and
so do the steps from slot to slot and the numbers of slots. -/
theorem agreesWithDist (cur : ring.cur < ring.numSlots) (tail : ring.tail < ring.numSlots) :
    ring.AgreesWithDist where
  compare ida ha idb hb := compareIds_eq head ha hb
  ordered := by
    refine ⟨order head, fun a b => ?_, fun a b => ?_, fun a b => ?_⟩
    · rw [dist_eq head a.2, dist_eq head b.2, Int.ofNat_le]
      rfl
    · rw [earlierId_eq head a.2 b.2]
      exact (apply_ite Subtype.val _ _ _).symm
    · rw [laterId_eq head a.2 b.2]
      exact (apply_ite Subtype.val _ _ _).symm
  fold ids ids' h perm := foldEarlier_perm head h perm
  least ids id h hfold := by
    obtain ⟨hmem, hle⟩ := foldEarlier_least head h hfold
    refine ⟨hmem, fun id' hid' => ?_⟩
    rw [dist_eq head (h id hmem), dist_eq head (h id' hid')]
    exact Int.ofNat_le.2 (hle id' hid')
  following id h := by
    have hlt : ring.following id < ring.numSlots := by
      rw [UInt32.lt_iff_toNat_lt, toNat_following h]
      exact Circular.next_lt (UInt32.lt_iff_toNat_lt.1 h)
    refine ⟨hlt, UInt32.toNat_inj.1 ?_⟩
    rw [toNat_preceding hlt, toNat_following h, Circular.prev_next]
  preceding id h := by
    have hlt : ring.preceding id < ring.numSlots := by
      rw [UInt32.lt_iff_toNat_lt, toNat_preceding h]
      exact Circular.prev_lt (UInt32.lt_iff_toNat_lt.1 h)
    refine ⟨hlt, UInt32.toNat_inj.1 ?_⟩
    rw [toNat_following hlt, toNat_preceding h, Circular.next_prev (UInt32.lt_iff_toNat_lt.1 h)]
  counts hle := by
    rw [dist_eq head cur, dist_eq head tail, Int.ofNat_le] at hle
    unfold done pending total
    rw [toNat_steps head cur, toNat_steps cur tail, toNat_steps head tail,
      Circular.dist_of_le (UInt32.lt_iff_toNat_lt.1 head) (UInt32.lt_iff_toNat_lt.1 tail)
        (UInt32.lt_iff_toNat_lt.1 cur) hle]
    exact Nat.add_sub_of_le hle

omit head in
/-- Eight slots, of which those from 6 to 1 belong to the program. -/
theorem agreesWithDist_eight : (⟨8, 6, 7, 2⟩ : IfRing).AgreesWithDist :=
  agreesWithDist (by decide) (by decide) (by decide)

end IfRing

end Tesd
