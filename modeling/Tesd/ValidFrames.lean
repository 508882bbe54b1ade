import Tesd.Slot

/-!
# Accessors of valid frames

What `tespkt_is_valid` promises to those who read a frame.  The events of a valid event frame lie in
the frame.  The bins of a valid MCA frame do too, except that the length of a header frame is not
checked against that of the MCA header.
-/

namespace Tesd

namespace Tespkt

/-- `sizeof (struct tespkt_event_hdr)`. -/
def sizeofEventHdr : ℕ := 8

/-- The accessors of events are safe. -/
structure EventsInFrame (pkt : Tespkt) : Prop where
  size_ne_zero : trueEsize pkt ≠ 0
  size_eq : trueEsize pkt = 8 * esize pkt
  events : isTrace pkt = false →
    (eventNums pkt * trueEsize pkt : ℤ) = flen pkt - TESPKT_HDR_LEN ∧ 1 ≤ eventNums pkt
  trace : isTrace pkt = true → eventNums pkt ≤ 1
  inside : ∀ e < eventNums pkt, ehdr pkt e + sizeofEventHdr ≤ flen pkt

/-- The number of bins is the one that the frame holds. -/
structure BinsInFrame (pkt : Tespkt) : Prop where
  bins : (mcaNbins pkt * TESPKT_MCA_BIN_LEN : ℤ) +
    (if isHeader pkt then TESPKT_MCA_HDR_LEN else 0 : ℕ) = flen pkt - TESPKT_HDR_LEN
  header : isHeader pkt = true → TESPKT_HDR_LEN + TESPKT_MCA_HDR_LEN ≤ flen pkt
  total : isHeader pkt = true → mcaNbins pkt ≤ mcaNbinsTot pkt

variable {pkt : Tespkt}

/-! ## Events -/

theorem eventNums_of_isTrace (tr : isTrace pkt = true) : eventNums pkt ≤ 1 := by
  unfold eventNums
  rw [if_pos tr]
  split_ifs <;> omega

/-- The header of the last event ends with the frame at the latest. -/
theorem ehdr_inside (h : isValid pkt = 0) (ev : isEvent pkt = true) {e : ℕ}
    (he : e < eventNums pkt) : ehdr pkt e + sizeofEventHdr ≤ flen pkt := by
  unfold ehdr sizeofEventHdr
  cases tr : isTrace pkt with
  | false =>
    obtain ⟨hpos, hsize, -⟩ := trueEsize_of_valid h ev
    have hall := (eventNums_of_valid h ev tr).2.1
    have hlast : (e + 1) * trueEsize pkt ≤ eventNums pkt * trueEsize pkt :=
      Nat.mul_le_mul_right _ he
    rw [Nat.succ_mul] at hlast
    omega
  | true =>
    have hlo := (flen_of_valid h).1
    have hmod := flen_mod_of_valid h
    have hone := eventNums_of_isTrace tr
    obtain rfl : e = 0 := by omega
    unfold TESPKT_HDR_LEN at hlo ⊢
    omega

/-- The events of a valid event frame are as many as its payload holds, and each can be read. -/
theorem eventsInFrame (h : isValid pkt = 0) (ev : isEvent pkt = true) : EventsInFrame pkt := by
  obtain ⟨hpos, hsize, -⟩ := trueEsize_of_valid h ev
  refine ⟨by omega, by omega, fun tr => ?_, eventNums_of_isTrace, fun e he => ehdr_inside h ev he⟩
  obtain ⟨hnums, hall, -⟩ := eventNums_of_valid h ev tr
  refine ⟨?_, hnums⟩
  rw [← hall]
  push_cast
  omega

/-- A frame with one peak. -/
theorem eventsInFrame_peak : EventsInFrame (Slot.sample 32 0xB5 32 0 0 1 0 [2, 3]).pkt :=
  eventsInFrame (by decide) (by decide)

/-! ## Bins -/

theorem mcaNbins_le_total (h : isValid pkt = 0) (mca : isMca pkt = true)
    (hdr : isHeader pkt = true) (long : TESPKT_HDR_LEN + TESPKT_MCA_HDR_LEN ≤ flen pkt) :
    mcaNbins pkt ≤ mcaNbinsTot pkt := by
  have hdeclared := paylen_le_mcaSize h mca hdr
  rcases mcaNbins_of_valid_header h hdr with ⟨hbins, -⟩ | ⟨hshort, -⟩
  · unfold mcaSize TESPKT_MCA_BIN_LEN at hdeclared
    omega
  · omega

/-- The bins of a valid MCA frame are as many as its payload holds, and no more than the header
declares, if and only if a header frame is long enough for the MCA header. -/
theorem binsInFrame_iff (h : isValid pkt = 0) (mca : isMca pkt = true) : BinsInFrame pkt ↔
    (isHeader pkt = true → TESPKT_HDR_LEN + TESPKT_MCA_HDR_LEN ≤ flen pkt) := by
  constructor
  · exact fun inFrame => inFrame.header
  · intro long
    refine ⟨?_, long, fun hdr => mcaNbins_le_total h mca hdr (long hdr)⟩
    unfold TESPKT_MCA_BIN_LEN
    cases hdr : isHeader pkt with
    | false =>
      obtain ⟨hbins, -⟩ := mcaNbins_of_valid h hdr
      rw [if_neg (by decide)]
      omega
    | true =>
      have hlong := long hdr
      rw [if_pos rfl]
      rcases mcaNbins_of_valid_header h hdr with ⟨hbins, -⟩ | ⟨hshort, -⟩
      · omega
      · omega

/-- An MCA header frame of this length, for a histogram of one bin. -/
def mcaHeader (flen : UInt8) : Tespkt := (Slot.sample flen 0xB6 flen 0 0 0 0 []).pkt

theorem binsInFrame_iff_full : BinsInFrame (mcaHeader 64) ↔ (isHeader (mcaHeader 64) = true →
    TESPKT_HDR_LEN + TESPKT_MCA_HDR_LEN ≤ flen (mcaHeader 64)) :=
  binsInFrame_iff (by decide) (by decide)

/-- A header frame of 32 bytes is valid, and would hold 65528 bins. -/
theorem not_binsInFrame :
    ¬ ∀ pkt : Tespkt, isValid pkt = 0 → isMca pkt = true → BinsInFrame pkt := by
  intro h
  exact absurd ((h (mcaHeader 32) (by decide) (by decide)).total (by decide)) (by decide)

end Tespkt

end Tesd
