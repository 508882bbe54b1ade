import Tesd.Aio
import Tesd.Lib.LittleEndian

/-!
# TES frames

The accessors of `tespkt.h` that the capture task and the dispatcher use.  A frame is the memory
from the start of its slot on: an accessor reads wherever the C code does, whatever the frame's
length.  Both the host and the FPGA are little-endian, so `ftohs` and `htofs` do nothing.
-/

namespace Tesd

open Slice LittleEndian

/-- `struct tespkt`, as the bytes from its address on. -/
abbrev Tespkt := ℕ → UInt8

def TESPKT_HDR_LEN : ℕ := 24
def TESPKT_MCA_HDR_LEN : ℕ := 40
def TESPKT_TICK_HDR_LEN : ℕ := 24
def TESPKT_MCA_BIN_LEN : ℕ := 4

def ETHERTYPE_F_EVENT : ℕ := 0x88B5
def ETHERTYPE_F_MCA : ℕ := 0x88B6

def TESPKT_TYPE_PEAK : ℕ := 0
def TESPKT_TYPE_AREA : ℕ := 1
def TESPKT_TYPE_PULSE : ℕ := 2
def TESPKT_TYPE_TRACE : ℕ := 3
def TESPKT_TRACE_TYPE_AVG : ℕ := 1
def TESPKT_TRACE_TYPE_DP : ℕ := 2

def TES_EETHTYPE : ℕ := 1
def TES_EETHLEN : ℕ := 2
def TES_EEVTTYPE : ℕ := 4
def TES_EEVTSIZE : ℕ := 8
def TES_ETRSIZE : ℕ := 16
def TES_EMCASIZE : ℕ := 32
def TES_EMCABINS : ℕ := 64

namespace Tespkt

variable (pkt : Tespkt)

/-- A `uint16_t` field at the given offset. -/
def u16 (off : ℕ) : ℕ := ofLe (slice pkt off 2)

/-- The ethernet type, big-endian. -/
def etherType : ℕ := 256 * (pkt 12).toNat + (pkt 13).toNat

/-- `tespkt_flen`: the frame length that the header states. -/
def flen : ℕ := u16 pkt 14

/-- `tespkt_fseq`. -/
def fseq : ℕ := u16 pkt 16

/-- `tespkt_pseq`. -/
def pseq : ℕ := u16 pkt 18

/-- `tespkt_esize`. -/
def esize : ℕ := u16 pkt 20

/-- Field `TR` of `tespkt_etype`. -/
def etypeTR : ℕ := (pkt 22).toNat % 4

/-- Field `T` of `tespkt_etype`. -/
def etypeT : ℕ := (pkt 23).toNat / 2 % 2

/-- Field `PKT` of `tespkt_etype`. -/
def etypePKT : ℕ := (pkt 23).toNat / 4 % 4

def isHeader : Bool := pseq pkt == 0

def isMca : Bool := etherType pkt == ETHERTYPE_F_MCA

def isEvent : Bool := etherType pkt == ETHERTYPE_F_EVENT

def isTick : Bool := isEvent pkt && etypeT pkt == 1

def isPeak : Bool := isEvent pkt && etypePKT pkt == TESPKT_TYPE_PEAK && etypeT pkt == 0

def isArea : Bool := isEvent pkt && etypePKT pkt == TESPKT_TYPE_AREA && etypeT pkt == 0

def isPulse : Bool := isEvent pkt && etypePKT pkt == TESPKT_TYPE_PULSE && etypeT pkt == 0

def isTrace : Bool := isEvent pkt && etypePKT pkt == TESPKT_TYPE_TRACE && etypeT pkt == 0

def isTraceAvg : Bool :=
  isEvent pkt && etypePKT pkt == TESPKT_TYPE_TRACE && etypeT pkt == 0 &&
    etypeTR pkt == TESPKT_TRACE_TYPE_AVG

def isTraceDp : Bool :=
  isEvent pkt && etypePKT pkt == TESPKT_TYPE_TRACE && etypeT pkt == 0 &&
    etypeTR pkt == TESPKT_TRACE_TYPE_DP

def isTraceLong : Bool := isTrace pkt && !isTraceDp pkt

/-- `tespkt_mca_nbins_tot`: field `last_bin` plus one, as a `uint16_t`. -/
def mcaNbinsTot : ℕ := (u16 pkt 26 + 1) % 2 ^ 16

/-- `tespkt_mca_size`. -/
def mcaSize : ℕ := mcaNbinsTot pkt * TESPKT_MCA_BIN_LEN + TESPKT_MCA_HDR_LEN

/-- `tespkt_mca_mfreq`. -/
def mcaMfreq : ℕ := u16 pkt 34

/-- `tespkt_trace_size`. -/
def traceSize : ℕ := u16 pkt 24

/-- `tespkt_true_esize`, a `uint16_t`. -/
def trueEsize : ℕ := esize pkt * 8 % 2 ^ 16

/-- The offset of event `e`, `tespkt_ehdr`. -/
def ehdr (e : ℕ) : ℕ := TESPKT_HDR_LEN + e * trueEsize pkt

/-- `tespkt_event_toff`: the time since the last event. -/
def eventToff (e : ℕ) : ℕ := u16 pkt (ehdr pkt e + 6)

/-- Field `CH` of `tespkt_evt_fl`. -/
def evtFlCH (e : ℕ) : ℕ := (pkt (ehdr pkt e + 4)).toNat % 8

/-- `flen - TESPKT_HDR_LEN`, an `int`. -/
def paylen : ℤ := (flen pkt : ℤ) - TESPKT_HDR_LEN

/-- `tespkt_event_nums`, a `uint16_t`. -/
def eventNums : ℕ :=
  if isTrace pkt then (if isHeader pkt || isTraceDp pkt then 1 else 0)
  else ((paylen pkt).tdiv (trueEsize pkt) % 2 ^ 16).toNat

/-- `tespkt_mca_nbins`, a `uint16_t`. -/
def mcaNbins : ℕ :=
  if isHeader pkt then
    (((paylen pkt - TESPKT_MCA_HDR_LEN).tdiv TESPKT_MCA_BIN_LEN) % 2 ^ 16).toNat
  else ((paylen pkt).tdiv TESPKT_MCA_BIN_LEN % 2 ^ 16).toNat

/-- The flag if the condition holds. -/
def flag (c : Prop) [Decidable c] (e : ℕ) : ℕ := if c then e else 0

/-- The part of `tespkt_is_valid` for event frames. -/
def eventErrors : ℕ :=
  (if esize pkt = 0 then TES_EEVTSIZE
    else flag ((paylen pkt).tmod (esize pkt * 8 : ℕ) ≠ 0) TES_EETHLEN) |||
  (if isTick pkt then
      flag (esize pkt ≠ 3) TES_EEVTSIZE |||
      flag (flen pkt ≠ TESPKT_HDR_LEN + TESPKT_TICK_HDR_LEN) TES_EETHLEN
    else if isPeak pkt || isArea pkt then flag (esize pkt ≠ 1) TES_EEVTSIZE
    else if isTrace pkt then
      (if isHeader pkt then
        flag (traceSize pkt = 0) TES_ETRSIZE ||| flag (paylen pkt > traceSize pkt) TES_ETRSIZE
        else 0) |||
      flag (isTraceDp pkt = false ∧ esize pkt ≠ 1) TES_EEVTSIZE
    else if isPulse pkt then 0
    else TES_EEVTTYPE)

/-- The part of `tespkt_is_valid` for MCA frames.  The length is compared as a `uint32_t`. -/
def mcaErrors : ℕ :=
  if isHeader pkt then
    flag ((paylen pkt % 2 ^ 32).toNat > mcaSize pkt) TES_EMCASIZE |||
      flag (mcaMfreq pkt ≥ mcaNbinsTot pkt) TES_EMCABINS
  else 0

/-- `tespkt_is_valid`: `0`, or the flags of the checks that failed. -/
def isValid : ℕ :=
  flag (flen pkt % 8 ≠ 0 ∨ flen pkt > MTU) TES_EETHLEN |||
  flag (flen pkt ≤ TESPKT_HDR_LEN) TES_EETHLEN |||
  (if isEvent pkt then eventErrors pkt else if isMca pkt then mcaErrors pkt else TES_EETHTYPE)

/-! ## What validity gives -/

section Valid

variable {pkt}

theorem u16_lt (off : ℕ) : u16 pkt off < 2 ^ 16 := by
  have := ofLe_lt (slice pkt off 2)
  rwa [length_slice] at this

theorem eventNums_lt : eventNums pkt < 2 ^ 16 := by
  unfold eventNums
  split_ifs
  · decide
  · decide
  · omega

theorem flag_eq_zero {c : Prop} [Decidable c] {e : ℕ} (he : e ≠ 0) : flag c e = 0 ↔ ¬c := by
  unfold flag
  split_ifs with h <;> simp [h, he]

/-- An MCA frame is not an event frame. -/
theorem isEvent_of_isMca (h : isMca pkt = true) : isEvent pkt = false := by
  unfold isMca at h
  unfold isEvent
  rw [beq_iff_eq.1 h]
  rfl

theorem isTick_of_isMca (h : isMca pkt = true) : isTick pkt = false := by
  rw [isTick, isEvent_of_isMca h, Bool.false_and]

theorem isTraceLong_of_isMca (h : isMca pkt = true) : isTraceLong pkt = false := by
  rw [isTraceLong, isTrace, isEvent_of_isMca h]
  rfl

/-- A tick is not a trace. -/
theorem isTraceLong_of_isTick (h : isTick pkt = true) : isTraceLong pkt = false := by
  unfold isTick at h
  rw [Bool.and_eq_true, beq_iff_eq] at h
  rw [isTraceLong, isTrace, h.2]
  simp

theorem isMca_of_isTraceLong (h : isTraceLong pkt = true) : isMca pkt = false := by
  cases hm : isMca pkt with
  | false => rfl
  | true => rw [isTraceLong_of_isMca hm] at h; cases h

theorem isTick_of_isTraceLong (h : isTraceLong pkt = true) : isTick pkt = false := by
  cases ht : isTick pkt with
  | false => rfl
  | true => rw [isTraceLong_of_isTick ht] at h; cases h

theorem isTraceLong_of_isTraceAvg (h : isTraceAvg pkt = true) : isTraceLong pkt = true := by
  unfold isTraceAvg at h
  simp only [Bool.and_eq_true, beq_iff_eq] at h
  obtain ⟨⟨⟨hev, hpkt⟩, ht⟩, htr⟩ := h
  simp [isTraceLong, isTrace, isTraceDp, hev, hpkt, ht, htr, TESPKT_TRACE_TYPE_AVG,
    TESPKT_TRACE_TYPE_DP]

/-- The length of a valid frame. -/
theorem flen_of_valid (h : isValid pkt = 0) : TESPKT_HDR_LEN < flen pkt ∧ flen pkt ≤ MTU := by
  unfold isValid at h
  rw [Nat.or_eq_zero_iff, Nat.or_eq_zero_iff, flag_eq_zero (by decide),
    flag_eq_zero (by decide)] at h
  omega

theorem flen_mod_of_valid (h : isValid pkt = 0) : flen pkt % 8 = 0 := by
  unfold isValid at h
  rw [Nat.or_eq_zero_iff, Nat.or_eq_zero_iff, flag_eq_zero (by decide)] at h
  omega

theorem mcaNbins_lt : mcaNbins pkt < 2 ^ 16 := by
  unfold mcaNbins
  split_ifs <;> omega

/-- The bins of a valid MCA frame that is not a header make up its payload. -/
theorem mcaNbins_of_valid (h : isValid pkt = 0) (hdr : isHeader pkt = false) :
    4 * mcaNbins pkt + TESPKT_HDR_LEN = flen pkt ∧ 2 ≤ mcaNbins pkt ∧ mcaNbins pkt ≤ 368 := by
  obtain ⟨hlo, hhi⟩ := flen_of_valid h
  have hmod := flen_mod_of_valid h
  unfold TESPKT_HDR_LEN at hlo
  unfold MTU at hhi
  unfold mcaNbins
  rw [if_neg (by simp [hdr])]
  have hdiv : (paylen pkt).tdiv TESPKT_MCA_BIN_LEN = ((flen pkt - 24) / 4 : ℕ) := by
    rw [paylen, show ((flen pkt : ℤ) - TESPKT_HDR_LEN) = ((flen pkt - 24 : ℕ) : ℤ) by
      unfold TESPKT_HDR_LEN; omega]
    rfl
  rw [hdiv]
  unfold TESPKT_HDR_LEN
  omega

/-- The bins of a valid MCA header frame and the MCA header make up its payload, unless the frame is
too short for the MCA header; then the number of bins is close to the largest one. -/
theorem mcaNbins_of_valid_header (h : isValid pkt = 0) (hdr : isHeader pkt = true) :
    (4 * mcaNbins pkt + TESPKT_MCA_HDR_LEN + TESPKT_HDR_LEN = flen pkt ∧ mcaNbins pkt ≤ 358) ∨
      (flen pkt < TESPKT_MCA_HDR_LEN + TESPKT_HDR_LEN ∧ 65528 ≤ mcaNbins pkt) := by
  obtain ⟨hlo, hhi⟩ := flen_of_valid h
  have hmod := flen_mod_of_valid h
  unfold TESPKT_HDR_LEN at hlo
  unfold MTU at hhi
  unfold mcaNbins TESPKT_MCA_HDR_LEN TESPKT_HDR_LEN
  rw [if_pos hdr]
  rcases Nat.lt_or_ge (flen pkt) 64 with hshort | hlong
  · have hdiv : (paylen pkt - TESPKT_MCA_HDR_LEN).tdiv TESPKT_MCA_BIN_LEN =
        -((64 - flen pkt) / 4 : ℕ) := by
      rw [paylen, show ((flen pkt : ℤ) - TESPKT_HDR_LEN - TESPKT_MCA_HDR_LEN) =
        -((64 - flen pkt : ℕ) : ℤ) by unfold TESPKT_HDR_LEN TESPKT_MCA_HDR_LEN; omega]
      rw [Int.neg_tdiv]
      rfl
    rw [show ((40 : ℕ) : ℤ) = (TESPKT_MCA_HDR_LEN : ℤ) from rfl, hdiv]
    omega
  · have hdiv : (paylen pkt - TESPKT_MCA_HDR_LEN).tdiv TESPKT_MCA_BIN_LEN =
        ((flen pkt - 64) / 4 : ℕ) := by
      rw [paylen, show ((flen pkt : ℤ) - TESPKT_HDR_LEN - TESPKT_MCA_HDR_LEN) =
        ((flen pkt - 64 : ℕ) : ℤ) by unfold TESPKT_HDR_LEN TESPKT_MCA_HDR_LEN; omega]
      rfl
    rw [show ((40 : ℕ) : ℤ) = (TESPKT_MCA_HDR_LEN : ℤ) from rfl, hdiv]
    omega

/-- A valid MCA header frame declares at least one bin. -/
theorem mcaNbinsTot_of_valid (h : isValid pkt = 0) (mca : isMca pkt = true)
    (hdr : isHeader pkt = true) : mcaNbinsTot pkt ≠ 0 := by
  unfold isValid at h
  rw [if_neg (by simp [isEvent_of_isMca mca]), if_pos mca, Nat.or_eq_zero_iff] at h
  obtain ⟨-, herr⟩ := h
  rw [mcaErrors, if_pos hdr, Nat.or_eq_zero_iff, flag_eq_zero (by decide),
    flag_eq_zero (by decide)] at herr
  omega

/-- A valid frame is an event frame or an MCA frame. -/
theorem isEvent_or_isMca_of_valid (h : isValid pkt = 0) :
    isEvent pkt = true ∨ isMca pkt = true := by
  unfold isValid at h
  rw [Nat.or_eq_zero_iff] at h
  by_contra hc
  rw [not_or, Bool.not_eq_true, Bool.not_eq_true] at hc
  rw [hc.1, hc.2] at h
  exact absurd h.2 (by simp [TES_EETHTYPE])

theorem eventErrors_of_valid (h : isValid pkt = 0) (ev : isEvent pkt = true) :
    eventErrors pkt = 0 := by
  unfold isValid at h
  rw [if_pos ev, Nat.or_eq_zero_iff] at h
  exact h.2

theorem paylen_of_valid (h : isValid pkt = 0) : paylen pkt = ((flen pkt - 24 : ℕ) : ℤ) := by
  have hlo := (flen_of_valid h).1
  unfold TESPKT_HDR_LEN at hlo
  unfold paylen TESPKT_HDR_LEN
  omega

/-- The event size of a valid frame is not zero, divides the payload and is not truncated. -/
theorem trueEsize_of_valid (h : isValid pkt = 0) (ev : isEvent pkt = true) :
    0 < esize pkt ∧ trueEsize pkt = esize pkt * 8 ∧ trueEsize pkt ∣ flen pkt - 24 := by
  obtain ⟨hlo, hhi⟩ := flen_of_valid h
  unfold TESPKT_HDR_LEN at hlo
  unfold MTU at hhi
  obtain ⟨hpos, hmod⟩ : esize pkt ≠ 0 ∧ (paylen pkt).tmod (esize pkt * 8 : ℕ) = 0 := by
    have herr := eventErrors_of_valid h ev
    unfold eventErrors at herr
    rw [Nat.or_eq_zero_iff] at herr
    have hfirst := herr.1
    by_cases hzero : esize pkt = 0
    · rw [if_pos hzero] at hfirst
      exact absurd hfirst (by decide)
    · rw [if_neg hzero, flag_eq_zero (by decide), not_not] at hfirst
      exact ⟨hzero, hfirst⟩
  have hdvd : esize pkt * 8 ∣ flen pkt - 24 := by
    rw [paylen_of_valid h, ← Int.ofNat_tmod] at hmod
    exact Nat.dvd_of_mod_eq_zero (Int.ofNat_eq_zero.1 hmod)
  have hle : esize pkt * 8 ≤ flen pkt - 24 := Nat.le_of_dvd (by omega) hdvd
  have htrue : trueEsize pkt = esize pkt * 8 := Nat.mod_eq_of_lt (by omega)
  exact ⟨Nat.pos_of_ne_zero hpos, htrue, htrue ▸ hdvd⟩

/-- The events of a valid frame make up its payload. -/
theorem eventNums_of_valid (h : isValid pkt = 0) (ev : isEvent pkt = true)
    (tr : isTrace pkt = false) :
    0 < eventNums pkt ∧ eventNums pkt * trueEsize pkt + TESPKT_HDR_LEN = flen pkt ∧
      trueEsize pkt = esize pkt * 8 := by
  obtain ⟨hlo, hhi⟩ := flen_of_valid h
  unfold TESPKT_HDR_LEN at hlo
  unfold MTU at hhi
  obtain ⟨hpos, htrue, hdvd⟩ := trueEsize_of_valid h ev
  have hle : trueEsize pkt ≤ flen pkt - 24 := Nat.le_of_dvd (by omega) hdvd
  have hnums : eventNums pkt = (flen pkt - 24) / trueEsize pkt := by
    have hlt : (flen pkt - 24) / trueEsize pkt < 2 ^ 16 :=
      Nat.lt_of_le_of_lt (Nat.div_le_self _ _) (by omega)
    unfold eventNums
    rw [if_neg (by simp [tr]), paylen_of_valid h, ← Int.ofNat_tdiv]
    generalize (flen pkt - 24) / trueEsize pkt = n at hlt ⊢
    omega
  have hmul : eventNums pkt * trueEsize pkt = flen pkt - 24 := by
    rw [hnums]
    exact Nat.div_mul_cancel hdvd
  refine ⟨?_, ?_, htrue⟩
  · rw [hnums]
    exact Nat.div_pos hle (by omega)
  · rw [hmul]
    unfold TESPKT_HDR_LEN
    omega

/-- A valid MCA header frame has no more payload than it declares. -/
theorem paylen_le_mcaSize (h : isValid pkt = 0) (mca : isMca pkt = true)
    (hdr : isHeader pkt = true) : flen pkt - TESPKT_HDR_LEN ≤ mcaSize pkt := by
  have hpay := paylen_of_valid h
  have hhi := (flen_of_valid h).2
  unfold MTU at hhi
  unfold isValid at h
  rw [if_neg (by simp [isEvent_of_isMca mca]), if_pos mca, Nat.or_eq_zero_iff] at h
  obtain ⟨-, herr⟩ := h
  rw [mcaErrors, if_pos hdr, Nat.or_eq_zero_iff, flag_eq_zero (by decide), hpay] at herr
  unfold TESPKT_HDR_LEN
  omega

/-- A valid event frame has events, unless it goes on with a trace. -/
theorem eventNums_pos (h : isValid pkt = 0) (ev : isEvent pkt = true)
    (first : isTraceLong pkt = true → isHeader pkt = true) : 0 < eventNums pkt := by
  cases htr : isTrace pkt with
  | false => exact (eventNums_of_valid h ev htr).1
  | true =>
    unfold eventNums
    rw [if_pos htr]
    unfold isTraceLong at first
    rw [htr, Bool.true_and, Bool.not_eq_true'] at first
    cases hdp : isTraceDp pkt with
    | true => simp
    | false => simp [first hdp]

end Valid

end Tespkt

end Tesd
