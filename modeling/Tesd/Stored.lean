import Tesd.Capture

/-!
# Frames that are stored within bounds

The packet handler subtracts the header's length from the length it is given, in 16 bits.
`InBounds` says that the result is the length of a payload that a frame can have.
-/

namespace Tesd

open Slice

/-- The frame has a payload, and no more of it than a frame can have. -/
def Frame.InBounds (f : Frame) : Prop := TESPKT_HDR_LEN < f.flen ∧ f.flen ≤ MTU

instance (f : Frame) : Decidable f.InBounds := inferInstanceAs (Decidable (_ ∧ _))

theorem inBounds_of_err {f : Frame} (h : f.err = 0) : f.InBounds := by
  obtain ⟨hv, hlen⟩ := f.valid h
  rw [Frame.InBounds, hlen]
  exact Tespkt.flen_of_valid hv

theorem paylen_of_inBounds {f : Frame} (h : f.InBounds) : f.paylen = f.flen - TESPKT_HDR_LEN := by
  have hlt := h.1
  have := f.flen_lt
  rw [Frame.paylen]
  omega

@[simp] theorem length_payload (f : Frame) : f.payload.length = f.paylen := length_slice _ _ _

theorem paylen_le (f : Frame) : f.paylen ≤ BUFSIZE := by
  have hle : 2 ^ 16 ≤ BUFSIZE := by decide
  rw [Frame.paylen]
  omega

theorem paylen_le_of_inBounds {f : Frame} (h : f.InBounds) : f.paylen ≤ MTU := by
  rw [paylen_of_inBounds h]
  exact Nat.le_trans (Nat.sub_le _ _) h.2

/-- The bytes of the slot that the handler stores, if it stores the frame, are at least one and at
most as many as a payload can have, and the length passed on is at most `TESPKT_MTU`. -/
def StoredInBounds (c : Core) (slot : Slot) (missed : ℕ) (junk : UInt8) : Prop :=
  (Frame.ofSlot slot missed junk).flen ≤ MTU ∧
    ((c.arrive (Frame.ofSlot slot missed junk)).recording = true →
      1 ≤ (Frame.ofSlot slot missed junk).paylen ∧
      (Frame.ofSlot slot missed junk).paylen ≤ MTU - TESPKT_HDR_LEN ∧
      TESPKT_HDR_LEN + (Frame.ofSlot slot missed junk).paylen ≤ slot.len)

theorem arrive_recording (f : Frame) (c : Core) :
    (c.arrive f).recording = true ↔ c.recording = true ∨ f.pkt.isTick = true := by
  unfold Core.arrive
  cases hrec : c.recording <;> cases htick : f.pkt.isTick <;> simp [hrec]

theorem payload_in_slot_iff {f : Frame} {hdrLen slotLen : ℕ} (hflen : f.flen = min hdrLen slotLen)
    (hlt : slotLen < 2 ^ 16) :
    f.flen ≤ MTU ∧ 1 ≤ f.paylen ∧ f.paylen ≤ MTU - TESPKT_HDR_LEN ∧
        TESPKT_HDR_LEN + f.paylen ≤ slotLen ↔
      (hdrLen ≤ MTU ∨ slotLen ≤ MTU) ∧ TESPKT_HDR_LEN < hdrLen ∧ TESPKT_HDR_LEN < slotLen := by
  have hhdr : TESPKT_HDR_LEN = 24 := rfl
  have hmtu : MTU = 1496 := rfl
  rw [Frame.paylen, hhdr, hmtu, hflen]
  omega

/-- A slot's frame is stored within bounds just if the header's length or the slot's is at most
`TESPKT_MTU`, and, when the frame is recorded, both are more than a header. -/
theorem storedInBounds_iff (c : Core) (slot : Slot) (missed : ℕ) (junk : UInt8) :
    StoredInBounds c slot missed junk ↔
      (slot.pkt.flen ≤ MTU ∨ slot.len ≤ MTU) ∧
        (c.recording = true ∨ slot.pkt.isTick = true →
          TESPKT_HDR_LEN < slot.pkt.flen ∧ TESPKT_HDR_LEN < slot.len) := by
  have hflen : (Frame.ofSlot slot missed junk).flen = min slot.pkt.flen slot.len := slot.flen_eq
  unfold StoredInBounds
  rw [arrive_recording]
  by_cases hrec : c.recording = true ∨ slot.pkt.isTick = true
  · have hrec' : c.recording = true ∨ (Frame.ofSlot slot missed junk).pkt.isTick = true := hrec
    simp only [hrec, hrec', true_implies]
    exact payload_in_slot_iff hflen slot.len_lt
  · have hrec' : ¬ (c.recording = true ∨ (Frame.ofSlot slot missed junk).pkt.isTick = true) := hrec
    simp only [hrec, hrec', false_implies, and_true]
    rw [hflen]
    omega

/-- A tick whose header says that the frame is empty. -/
theorem not_storedInBounds_empty :
    ¬ ∀ c slot missed junk, StoredInBounds c slot missed junk := by
  intro h
  obtain ⟨-, hstored⟩ := h { (openJob smallJob).core with recording := true }
    (.sample 48 0xB5 0 0 0 3 2 []) 0 0
  obtain ⟨-, hmax, -⟩ := hstored rfl
  exact absurd hmax (by decide)

end Tesd
