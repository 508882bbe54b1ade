import Tesd.Lib.Circular
import Tesd.Slot

/-!
# Receive rings

The part of `tesif.c` that the coordinator and the tasks use.  The slots from the head to the tail
belong to the program, the others to the kernel.
-/

namespace Tesd

/-- `struct netmap_ring`. -/
structure Ring where
  numSlots : ℕ
  head : ℕ
  cur : ℕ
  tail : ℕ
  slot : ℕ → Slot

namespace Ring

variable (ring : Ring)

/-- `s_ring_preceding`. -/
def preceding (idx : ℕ) : ℕ := if idx = 0 then ring.numSlots - 1 else idx - 1

/-- `s_ring_following`. -/
def following (idx : ℕ) : ℕ := if idx + 1 = ring.numSlots then 0 else idx + 1

/-- `tes_ifring_earlier_id`. -/
def earlierId (ida idb : ℕ) : ℕ :=
  if ida = idb then ida
  else if (ring.head ≤ ida ∧ ring.head ≤ idb) ∨ (ring.head > ida ∧ ring.head > idb) then
    if ida < idb then ida else idb
  else if ida < idb then idb else ida

/-- `tes_ifring_done`. -/
def done : ℕ :=
  if ring.cur ≥ ring.head then ring.cur - ring.head else ring.numSlots + ring.cur - ring.head

/-- `tes_ifring_goto_buf`. -/
def gotoBuf (idx : ℕ) : Ring := { ring with cur := idx }

/-- `tes_ifring_release_done_buf`. -/
def releaseDoneBuf : Ring := { ring with head := ring.cur }

/-- The kernel puts a packet into the slot at the tail, if it has a slot left. -/
def deliver (pkt : Slot) : Option Ring :=
  if ring.following ring.tail = ring.head then none
  else some { ring with
    slot := Function.update ring.slot ring.tail pkt
    tail := ring.following ring.tail }

/-- The slots that belong to the program, counted from the head. -/
def pending : ℕ := Circular.dist ring.numSlots ring.head ring.tail

/-- The packets in the slots from one up to another. -/
def between (ida idb : ℕ) : List Slot := (Circular.walk ring.numSlots ida idb).map ring.slot

/-- The packets that belong to the program, in the order of their delivery. -/
def queue : List Slot := ring.between ring.head ring.tail

/-- Head and tail are slots of the ring. -/
structure Ok : Prop where
  head : ring.head < ring.numSlots
  tail : ring.tail < ring.numSlots

/-- The slot lies between the head and the tail, or is the tail. -/
structure Holds (id : ℕ) : Prop where
  lt : id < ring.numSlots
  le : Circular.dist ring.numSlots ring.head id ≤ ring.pending

variable {ring}

theorem following_eq (idx : ℕ) : ring.following idx = Circular.next ring.numSlots idx := rfl

theorem holds_head (ok : ring.Ok) : ring.Holds ring.head :=
  ⟨ok.head, by rw [Circular.dist_self]; exact Nat.zero_le _⟩

theorem holds_tail (ok : ring.Ok) : ring.Holds ring.tail := ⟨ok.tail, Nat.le_refl _⟩

/-- Of two slots the earlier is the one nearer to the head. -/
theorem earlierId_eq (ok : ring.Ok) {a b : ℕ} (ha : a < ring.numSlots) (hb : b < ring.numSlots) :
    ring.earlierId a b =
      if Circular.dist ring.numSlots ring.head a ≤ Circular.dist ring.numSlots ring.head b then a
      else b := by
  have := ok.head
  unfold earlierId Circular.dist
  split_ifs <;> omega

/-- A slot before the tail is followed by a slot up to the tail. -/
theorem holds_following (ok : ring.Ok) {id : ℕ} (h : ring.Holds id) (ne : id ≠ ring.tail) :
    ring.Holds (ring.following id) ∧
      Circular.dist ring.numSlots ring.head (ring.following id) =
        Circular.dist ring.numSlots ring.head id + 1 := by
  obtain ⟨heq, hle⟩ := Circular.dist_next_of_ne ok.head h.lt ok.tail h.le ne
  exact ⟨⟨Circular.next_lt h.lt, by rw [following_eq, heq]; exact hle⟩, heq⟩

section Between

variable {id : ℕ}

@[simp] theorem length_between (ida idb : ℕ) :
    (ring.between ida idb).length = Circular.dist ring.numSlots ida idb := by
  rw [between, List.length_map, Circular.length_walk]

@[simp] theorem between_self (id : ℕ) : ring.between id id = [] := by
  rw [between, Circular.walk_self, List.map_nil]

theorem between_append (ok : ring.Ok) (h : ring.Holds id) :
    ring.between ring.head id ++ ring.between id ring.tail = ring.queue := by
  rw [between, between, ← List.map_append, Circular.walk_append ok.head ok.tail h.lt h.le]
  rfl

theorem between_cons (ok : ring.Ok) (h : ring.Holds id) (ne : id ≠ ring.tail) :
    ring.between id ring.tail = ring.slot id :: ring.between (ring.following id) ring.tail := by
  rw [between, Circular.walk_cons h.lt ok.tail ne, List.map_cons]
  rfl

end Between

section Deliver

variable {pkt : Slot} {ring' : Ring}

theorem deliver_eq (h : ring.deliver pkt = some ring') :
    ring.following ring.tail ≠ ring.head ∧
      ring' = { ring with
        slot := Function.update ring.slot ring.tail pkt
        tail := ring.following ring.tail } := by
  unfold deliver at h
  split_ifs at h with full
  exact ⟨full, (Option.some.inj h).symm⟩

theorem deliver_ok (ok : ring.Ok) (h : ring.deliver pkt = some ring') :
    ring'.Ok ∧ ring'.pending = ring.pending + 1 := by
  obtain ⟨room, rfl⟩ := deliver_eq h
  exact ⟨⟨ok.head, Circular.next_lt ok.tail⟩, Circular.dist_next ok.head room⟩

/-- A new packet leaves every slot where it was. -/
theorem holds_deliver (ok : ring.Ok) (h : ring.deliver pkt = some ring') {id : ℕ}
    (holds : ring.Holds id) : ring'.Holds id := by
  have hp := (deliver_ok ok h).2
  obtain ⟨-, rfl⟩ := deliver_eq h
  exact ⟨holds.lt, Nat.le_trans holds.le (by omega)⟩

/-- A new packet comes last. -/
theorem between_deliver (ok : ring.Ok) (h : ring.deliver pkt = some ring') {id : ℕ}
    (holds : ring.Holds id) :
    ring'.between id ring'.tail = ring.between id ring.tail ++ [pkt] := by
  obtain ⟨room, rfl⟩ := deliver_eq h
  have hnext : Circular.next ring.numSlots ring.tail ≠ id := by
    rintro rfl
    have hle := holds.le
    have := Circular.dist_next ok.head room
    unfold pending at hle
    omega
  unfold between
  dsimp only
  rw [following_eq, Circular.walk_concat holds.lt ok.tail hnext, List.map_append, List.map_singleton,
    Function.update_self]
  congr 1
  refine List.map_congr_left fun x hx => Function.update_of_ne ?_ _ _
  rintro rfl
  exact Circular.not_mem_walk holds.lt ok.tail hx

theorem queue_deliver (ok : ring.Ok) (h : ring.deliver pkt = some ring') :
    ring'.queue = ring.queue ++ [pkt] := by
  have hhead : ring'.head = ring.head := by
    obtain ⟨-, rfl⟩ := deliver_eq h
    rfl
  rw [queue, hhead]
  exact between_deliver ok h (holds_head ok)

end Deliver

end Ring

end Tesd
