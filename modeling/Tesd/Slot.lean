import Tesd.Tespkt

/-!
# Ring slots

A slot of a ring with a received frame in it, and what `s_task_dispatch` makes of it: the length it
passes on to a packet handler and the error flags.
-/

namespace Tesd

open Slice

/-- The bytes from the start of the buffer on, of which the first `len` were received. -/
structure Slot where
  pkt : Tespkt
  len : ℕ
  len_lt : len < 2 ^ 16

namespace Slot

/-- The length that is passed on: the one in the header, unless the slot is shorter. -/
def flen (s : Slot) : ℕ := if s.pkt.flen > s.len then s.len else s.pkt.flen

/-- The flags that are passed on. -/
def err (s : Slot) : ℕ :=
  if s.pkt.flen > s.len then s.pkt.isValid ||| TES_EETHLEN else s.pkt.isValid

theorem flen_eq (s : Slot) : s.flen = min s.pkt.flen s.len := by
  unfold flen
  split_ifs <;> omega

theorem flen_lt (s : Slot) : s.flen < 2 ^ 16 := by
  have := s.len_lt
  rw [flen_eq]
  omega

/-- The bytes of a frame of length `flen` after its header; `flen - TESPKT_HDR_LEN` is taken as a
`uint16_t`. -/
def payload (pkt : Tespkt) (flen : ℕ) : List UInt8 :=
  slice pkt TESPKT_HDR_LEN (((flen : ℤ) - TESPKT_HDR_LEN) % 2 ^ 16).toNat

/-- A frame without an error is valid and in its slot in full. -/
theorem valid_of_err {s : Slot} (h : s.err = 0) : s.pkt.isValid = 0 ∧ s.flen = s.pkt.flen := by
  unfold err at h
  unfold flen
  split_ifs at h ⊢
  · rw [Nat.or_eq_zero_iff] at h
    exact absurd h.2 (by decide)
  · exact ⟨h, rfl⟩

/-- The payload of a frame without an error ends with the frame. -/
theorem length_payload_of_err {s : Slot} (h : s.err = 0) :
    (payload s.pkt s.flen).length + TESPKT_HDR_LEN = s.pkt.flen := by
  obtain ⟨hvalid, hflen⟩ := valid_of_err h
  obtain ⟨hlo, hhi⟩ := Tespkt.flen_of_valid hvalid
  rw [payload, length_slice, hflen]
  unfold TESPKT_HDR_LEN at hlo ⊢
  unfold MTU at hhi
  omega

/-! ## Frames of one stream -/

/-- The payloads of these frames, one after the other. -/
def payloads (slots : List Slot) : List UInt8 :=
  (slots.map fun s => payload s.pkt s.flen).flatten

theorem payloads_concat (slots : List Slot) (s : Slot) :
    payloads (slots ++ [s]) = payloads slots ++ payload s.pkt s.flen := by
  rw [payloads, List.map_append, List.flatten_append, List.map_singleton, List.flatten_singleton,
    payloads]

/-- The frames are valid and have the protocol sequences `0, 1, …`. -/
structure InSequence (slots : List Slot) : Prop where
  valid : ∀ s ∈ slots, s.err = 0
  pseqs : slots.map (fun s => s.pkt.pseq) = List.range slots.length

theorem inSequence_nil : InSequence [] := ⟨by simp, rfl⟩

theorem inSequence_concat {slots : List Slot} {s : Slot} (h : InSequence slots) (err : s.err = 0)
    (next : s.pkt.pseq = slots.length) : InSequence (slots ++ [s]) := by
  refine ⟨fun s' hs' => ?_, ?_⟩
  · rcases List.mem_append.1 hs' with hs' | hs'
    · exact h.valid s' hs'
    · rw [List.mem_singleton.1 hs']
      exact err
  · rw [List.map_append, h.pseqs, List.length_append, List.length_singleton, List.range_succ,
      List.map_singleton, next]

/-- A small slot of `len` bytes with a frame whose sequence numbers are small: the low bytes of its
ethernet type, length, sequence number, sequence number within a stream, event size and type, and
the payload. -/
def sample (len etherType flen fseq pseq esize etype : UInt8) (payload : List UInt8) : Slot where
  pkt := fun i => ([0, 0, 0, 0, 0, 0, 0, 0, 0, 0, 0, 0, 0x88, etherType, flen, 0, fseq, 0, pseq, 0,
    esize, 0, 0, etype] ++ payload).getD i 0
  len := len.toNat
  len_lt := Nat.lt_trans len.toNat_lt (by decide)

end Slot

end Tesd
