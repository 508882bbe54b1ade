import Tesd.CaptureEnd
import Tesd.HeaderFlag
import Tesd.Replay
import Tesd.Wakeup

/-!
# Capturing a replay

The frames of a capture that are injected again look to the daemon like the ones that were captured,
and capturing them again gives the same files.  The two halves meet at `Describes`: a capture leaves
records that describe its frames (`describes_of_capture`), and what is injected for such records is
recorded like these frames (`like_of_passed`, `run_like`).
-/

namespace Tesd

open Slice LittleEndian Records

/-! ## The records of frames -/

namespace Frame

/-- Field `PT` of the record of a valid frame. -/
def pt (f : Frame) : ℕ :=
  if f.pkt.isMca then FTYPE_MCA else if f.pkt.isTick then FTYPE_TICK
  else linearEtype f.pkt.etypePKT f.pkt.etypeTR

/-- The frame belongs to a trace or to a histogram. -/
def long (f : Frame) : Bool := f.pkt.isMca || f.pkt.isTraceLong

end Frame

theorem index_kind {f : Frame} (ok : f.err = 0) (r : Recorder) :
    (r.index f).2.1.pt = f.pt ∧ (r.index f).2.1.esize = f.pkt.esize ∧
      (r.index f).2.1.seq = decide (f.missed > 0) := by
  have hframe : ((r.core.count f).indexFrame f).2.1.pt = f.pt ∧
      ((r.core.count f).indexFrame f).2.1.esize = f.pkt.esize ∧
      ((r.core.count f).indexFrame f).2.1.seq = decide (f.missed > 0) := by
    unfold Core.indexFrame Frame.pt
    rw [if_neg (not_not.2 ok)]
    cases f.pkt.isMca with
    | true => exact ⟨rfl, rfl, rfl⟩
    | false =>
      cases f.pkt.isTick with
      | true => exact ⟨rfl, rfl, rfl⟩
      | false => exact ⟨rfl, rfl, rfl⟩
  unfold Recorder.index
  dsimp only
  obtain ⟨ticks, events, traces, hists, cs, hdr, due, done, h⟩ := indexStream_frame f
    (r.files f.dset).length
    { ((r.core.count f).indexFrame f).2.1 with start := (r.files f.dset).length }
    ((r.core.count f).indexFrame f).1
  rw [h]
  exact hframe

section Kinds

variable {f : Frame} (ok : f.err = 0)

include ok

/-- The kind of a valid event frame that is not a tick. -/
theorem kinds_of_event (mca : f.pkt.isMca = false) (tick : f.pkt.isTick = false) :
    f.pkt.isEvent = true ∧ f.pkt.isPeak = (f.pkt.etypePKT == TESPKT_TYPE_PEAK) ∧
      f.pkt.isArea = (f.pkt.etypePKT == TESPKT_TYPE_AREA) ∧
      f.pkt.isPulse = (f.pkt.etypePKT == TESPKT_TYPE_PULSE) ∧
      f.pkt.isTrace = (f.pkt.etypePKT == TESPKT_TYPE_TRACE) ∧
      f.pkt.isTraceDp = (f.pkt.etypePKT == TESPKT_TYPE_TRACE &&
        f.pkt.etypeTR == TESPKT_TRACE_TYPE_DP) := by
  have hevent : f.pkt.isEvent = true :=
    (Tespkt.isEvent_or_isMca_of_valid (f.valid ok).1).resolve_right (by simp [mca])
  have ht : f.pkt.etypeT = 0 := by
    have hlt : f.pkt.etypeT < 2 := Nat.mod_lt _ (by decide)
    rw [Tespkt.isTick, hevent, Bool.true_and, beq_eq_false_iff_ne] at tick
    omega
  unfold Tespkt.isPeak Tespkt.isArea Tespkt.isPulse Tespkt.isTrace Tespkt.isTraceDp
  rw [hevent, ht]
  simp

end Kinds

/-! ## What arrives -/

/-- The slot that a frame arrives in.  What is in it behind the frame is arbitrary. -/
structure Arrives (bytes : List UInt8) (slot : Slot) : Prop where
  len : slot.len = bytes.length
  bytes : slice slot.pkt 0 bytes.length = bytes

/-- A packet that looks like the one of a frame, but for its numbers. -/
structure Frame.Resembles (f : Frame) (pkt : Tespkt) : Prop where
  isMca : pkt.isMca = f.pkt.isMca
  isEvent : pkt.isEvent = f.pkt.isEvent
  isTick : pkt.isTick = f.pkt.isTick
  isPeak : pkt.isPeak = f.pkt.isPeak
  isArea : pkt.isArea = f.pkt.isArea
  isPulse : pkt.isPulse = f.pkt.isPulse
  isTrace : pkt.isTrace = f.pkt.isTrace
  isTraceDp : pkt.isTraceDp = f.pkt.isTraceDp
  flen : pkt.flen = f.pkt.flen
  esize : pkt.esize = f.pkt.esize
  payload : slice pkt TESPKT_HDR_LEN f.paylen = f.payload

theorem etype_of_typed {q : Fidx} {f : Frame} {pkt : Tespkt} (ok : f.err = 0) (hpt : q.pt = f.pt)
    (typed : q.Typed pkt) :
    q.good = true ∧ pkt.isMca = f.pkt.isMca ∧ pkt.isEvent = f.pkt.isEvent ∧
      pkt.isTick = f.pkt.isTick ∧ pkt.isPeak = f.pkt.isPeak ∧ pkt.isArea = f.pkt.isArea ∧
      pkt.isPulse = f.pkt.isPulse ∧ pkt.isTrace = f.pkt.isTrace ∧
      pkt.isTraceDp = f.pkt.isTraceDp ∧
      (f.pkt.isMca = false → f.pkt.isTick = false →
        linearEtype pkt.etypePKT pkt.etypeTR = linearEtype f.pkt.etypePKT f.pkt.etypeTR) := by
  have hgood : q.good = true := by
    rw [Fidx.good_iff, hpt, Frame.pt]
    have := etype_lt f.pkt
    unfold FTYPE_TICK at this
    unfold FTYPE_MCA FTYPE_TICK
    split_ifs <;> omega
  obtain ⟨hmca, hevent, ht, hpkt, htr⟩ := Fidx.typed_fields hgood typed
  obtain ⟨hpeak, harea, hpulse, -⟩ := Fidx.kinds_of_typed hgood typed
  have htick := Fidx.isTick_of_typed hgood typed
  have htrace := Fidx.isTrace_of_typed hgood typed
  have hdp := Fidx.isTraceDp_of_typed hgood typed
  refine ⟨hgood, ?_⟩
  rw [hmca, hevent, htick, hpeak, harea, hpulse, htrace, hdp, hpkt, htr, hpt, Frame.pt]
  cases mca : f.pkt.isMca with
  | true =>
    have hev := Tespkt.isEvent_of_isMca mca
    have htk := Tespkt.isTick_of_isMca mca
    unfold Tespkt.isPeak Tespkt.isArea Tespkt.isPulse Tespkt.isTrace Tespkt.isTraceDp
    rw [hev, htk]
    exact ⟨rfl, rfl, rfl, rfl, rfl, rfl, rfl, rfl, fun h => by cases h⟩
  | false =>
    cases tick : f.pkt.isTick with
    | true =>
      have hev : f.pkt.isEvent = true :=
        (Tespkt.isEvent_or_isMca_of_valid (f.valid ok).1).resolve_right (by simp [mca])
      have ht1 : f.pkt.etypeT = 1 := by simpa [Tespkt.isTick, hev] using tick
      unfold Tespkt.isPeak Tespkt.isArea Tespkt.isPulse Tespkt.isTrace Tespkt.isTraceDp
      rw [hev, ht1]
      simp [FTYPE_TICK, FTYPE_MCA, TESPKT_TYPE_PEAK, TESPKT_TYPE_AREA, TESPKT_TYPE_PULSE,
        FTYPE_TRACE_SGL, FTYPE_TRACE_DP]
    | false =>
      obtain ⟨hev, h₁, h₂, h₃, h₄, h₅⟩ := kinds_of_event ok mca tick
      rw [hev, h₁, h₂, h₃, h₄, h₅]
      have hltp : f.pkt.etypePKT < 4 := Nat.mod_lt _ (by decide)
      have hltr : f.pkt.etypeTR < 4 := Nat.mod_lt _ (by decide)
      generalize f.pkt.etypePKT = p at *
      generalize f.pkt.etypeTR = t at *
      interval_cases p <;> interval_cases t <;> decide

/-- The frame can be told from its record and its payload.  A trace of dot products that is no header
frame, and a header frame that ends within the header of its histogram, cannot. -/
structure Frame.Replayable (f : Frame) : Prop where
  ok : f.err = 0
  traceDp : f.pkt.isTraceDp = true → f.pkt.isHeader = true
  mca : f.pkt.isMca = true → f.pkt.isHeader = true → TESPKT_HDR_LEN + 12 ≤ f.flen

theorem paylen_of_err {f : Frame} (ok : f.err = 0) :
    f.paylen + TESPKT_HDR_LEN = f.flen ∧ f.flen = f.pkt.flen ∧ f.paylen < 2 ^ 16 ∧ 8 ≤ f.paylen := by
  obtain ⟨hvalid, hflen⟩ := f.valid ok
  have hbounds := inBounds_of_err ok
  have hpay := paylen_of_inBounds hbounds
  have hlt := f.flen_lt
  have hmod := Tespkt.flen_mod_of_valid hvalid
  obtain ⟨hlo, -⟩ := hbounds
  rw [← hflen] at hmod
  unfold TESPKT_HDR_LEN at *
  exact ⟨by omega, hflen, by omega, by omega⟩

theorem slices_of_arrives {q : Fidx} {fseq pseq : ℕ} {data : List UInt8} {slot : Slot}
    (h : Arrives (q.headers fseq pseq ++ data) slot) :
    slice slot.pkt 0 TESPKT_HDR_LEN = q.headers fseq pseq ∧
      slice slot.pkt TESPKT_HDR_LEN data.length = data ∧
      slot.len = TESPKT_HDR_LEN + data.length := by
  have hlen := q.length_headers fseq pseq
  have hbytes := h.bytes
  rw [List.length_append, hlen, slice_append, Nat.zero_add] at hbytes
  obtain ⟨hheaders, hdata⟩ := List.append_inj hbytes (by rw [length_slice, hlen])
  refine ⟨hheaders, hdata, ?_⟩
  rw [h.len, List.length_append, hlen]

/-- A field behind the headers. -/
theorem Frame.Resembles.u16 {f : Frame} {pkt : Tespkt} (h : f.Resembles pkt) {off : ℕ}
    (lo : TESPKT_HDR_LEN ≤ off) (hi : off + 2 ≤ TESPKT_HDR_LEN + f.paylen) :
    pkt.u16 off = f.pkt.u16 off := by
  have hpart : slice pkt (TESPKT_HDR_LEN + (off - TESPKT_HDR_LEN)) 2 =
      slice f.pkt (TESPKT_HDR_LEN + (off - TESPKT_HDR_LEN)) 2 :=
    slice_part h.payload (by omega)
  rw [Nat.add_sub_cancel' lo] at hpart
  exact congrArg ofLe hpart

/-- The frame that arrives for a record of a frame. -/
theorem resembles_of_arrives {f : Frame} {q : Fidx} {fseq pseq : ℕ} {slot : Slot} (ok : f.err = 0)
    (hpt : q.pt = f.pt) (hlen : q.length = f.paylen) (hesize : q.esize = f.pkt.esize)
    (h : Arrives (q.headers fseq pseq ++ f.payload) slot) :
    f.Resembles slot.pkt ∧ slot.pkt.fseq = fseq % 2 ^ 16 ∧ slot.pkt.pseq = pseq % 2 ^ 16 ∧
      slot.len = f.pkt.flen ∧
      (f.pkt.isMca = false → f.pkt.isTick = false →
        linearEtype slot.pkt.etypePKT slot.pkt.etypeTR =
          linearEtype f.pkt.etypePKT f.pkt.etypeTR) := by
  obtain ⟨hsum, hflen, hlt, -⟩ := paylen_of_err ok
  obtain ⟨hheaders, hdata, hslot⟩ := slices_of_arrives h
  obtain ⟨flen, fseq', pseq', esize, typed⟩ := Replay.fields_of_headers hheaders
  obtain ⟨-, isMca, isEvent, isTick, isPeak, isArea, isPulse, isTrace, isTraceDp, etype⟩ :=
    etype_of_typed ok hpt typed
  have hfl := f.flen_lt
  rw [length_payload] at hdata hslot
  refine ⟨⟨isMca, isEvent, isTick, isPeak, isArea, isPulse, isTrace, isTraceDp, ?_, ?_, hdata⟩,
    fseq', pseq', ?_, etype⟩
  · rw [flen, Fidx.plen, hlen, Nat.mod_eq_of_lt hlt, ← hflen]
    rw [Nat.add_comm, hsum]
    exact Nat.mod_eq_of_lt hfl
  · rw [esize, hesize]
    exact Nat.mod_eq_of_lt (Tespkt.u16_lt 20)
  · rw [hslot, ← hflen, Nat.add_comm, hsum]

section Valid

variable {f : Frame} {pkt : Tespkt} (replayable : f.Replayable) (h : f.Resembles pkt)

include replayable h

/-- The fields of the header of a histogram. -/
theorem mca_of_resembles (mca : f.pkt.isMca = true) (hdr : f.pkt.isHeader = true) :
    pkt.mcaNbinsTot = f.pkt.mcaNbinsTot ∧ pkt.mcaSize = f.pkt.mcaSize ∧
      pkt.mcaMfreq = f.pkt.mcaMfreq := by
  have hlen := replayable.mca mca hdr
  obtain ⟨hsum, -⟩ := paylen_of_err replayable.ok
  have hbins : pkt.mcaNbinsTot = f.pkt.mcaNbinsTot := by
    rw [Tespkt.mcaNbinsTot, h.u16 (by decide) (by unfold TESPKT_HDR_LEN at *; omega),
      Tespkt.mcaNbinsTot]
  refine ⟨hbins, ?_, h.u16 (by decide) ?_⟩
  · rw [Tespkt.mcaSize, hbins, Tespkt.mcaSize]
  · unfold TESPKT_HDR_LEN at *
    omega

theorem traceSize_of_resembles : pkt.traceSize = f.pkt.traceSize := by
  have hlen := (paylen_of_err replayable.ok).2.2.2
  exact h.u16 (by decide) (by unfold TESPKT_HDR_LEN; omega)

/-- A frame that looks like a valid one is valid: what is checked only of header frames is checked of
no more frames. -/
theorem isValid_of_resembles (header : (f.pkt.isMca || f.pkt.isTraceLong) = true →
    pkt.isHeader = true → f.pkt.isHeader = true) : pkt.isValid = 0 := by
  obtain ⟨hvalid, -⟩ := f.valid replayable.ok
  have hpaylen : pkt.paylen = f.pkt.paylen := by rw [Tespkt.paylen, h.flen, Tespkt.paylen]
  have hsize := traceSize_of_resembles replayable h
  unfold Tespkt.isValid at hvalid ⊢
  rw [h.flen, h.isEvent, h.isMca]
  rw [Nat.or_eq_zero_iff] at hvalid ⊢
  refine ⟨hvalid.1, ?_⟩
  have herr := hvalid.2
  cases hev : f.pkt.isEvent with
  | true =>
    rw [hev, if_pos rfl] at herr
    rw [if_pos rfl]
    unfold Tespkt.eventErrors at herr ⊢
    rw [h.esize, hpaylen, h.isTick, h.flen, h.isPeak, h.isArea, h.isTrace, h.isTraceDp, h.isPulse,
      hsize]
    rw [Nat.or_eq_zero_iff] at herr ⊢
    refine ⟨herr.1, ?_⟩
    have hkind := herr.2
    split_ifs at hkind ⊢ with htick hpeak htrace hhdr hhdr' hhdr'
    all_goals first | exact hkind | skip
    · exfalso
      apply hhdr'
      cases hdp : f.pkt.isTraceDp with
      | true => exact replayable.traceDp hdp
      | false =>
        refine header ?_ hhdr
        rw [Tespkt.isTraceLong, htrace, hdp]
        simp
    · rw [Nat.or_eq_zero_iff] at hkind ⊢
      exact ⟨rfl, hkind.2⟩
  | false =>
    rw [hev, if_neg (by decide)] at herr
    rw [if_neg (by decide)]
    split_ifs at herr ⊢ with mca
    · unfold Tespkt.mcaErrors at herr ⊢
      split_ifs with hhdr
      · have hhdr' := header (by rw [mca, Bool.true_or]) hhdr
        obtain ⟨hbins, hmca, hfreq⟩ := mca_of_resembles replayable h mca hhdr'
        rw [if_pos hhdr'] at herr
        rw [hpaylen, hbins, hmca, hfreq]
        exact herr
      · rfl
    · exact herr

end Valid

/-! ## What a record says of its frame -/

/-- The record, and the payload that it names, are those of the frame. -/
structure Describes (files : Dset → List UInt8) (q : Fidx) (f : Frame) : Prop where
  pt : q.pt = f.pt
  esize : q.esize = f.pkt.esize
  seq : q.seq = decide (f.missed > 0)
  hdr : q.hdr = f.headsStream
  length : q.length = f.paylen
  payload : q.payload files = f.payload
  readable : q.Readable files

/-- How far the numbers within a stream go: one for each frame since the last one that starts them
again, and one more for those that are missing before it. -/
def streamNumber (fs : List Frame) : ℕ :=
  fs.foldl (fun n f => if f.long && !f.pkt.isHeader then n + 1 + (decide (f.missed > 0)).toNat
    else 0) 0

theorem streamNumber_concat (fs : List Frame) (f : Frame) : streamNumber (fs ++ [f]) =
    if f.long && !f.pkt.isHeader then streamNumber fs + 1 + (decide (f.missed > 0)).toNat
    else 0 := by
  unfold streamNumber
  rw [List.foldl_append]
  rfl

theorem streamNumber_eq_zero {fs : List Frame} {k : ℕ} (hk : k < fs.length)
    (long : fs[k].long = true) :
    streamNumber (fs.take (k + 1)) = 0 ↔ fs[k].pkt.isHeader = true := by
  rw [List.take_succ_eq_append_getElem hk, streamNumber_concat, long]
  cases fs[k].pkt.isHeader with
  | true => simp
  | false => simp

namespace Describes

variable {files : Dset → List UInt8} {q : Fidx} {f : Frame}

theorem good (h : Describes files q f) : q.good = true := by
  rw [Fidx.good_iff, h.pt, Frame.pt]
  have := etype_lt f.pkt
  unfold FTYPE_TICK at this
  unfold FTYPE_MCA FTYPE_TICK
  split_ifs <;> omega

theorem long (ok : f.err = 0) (h : Describes files q f) : q.long = f.long := by
  unfold Fidx.long Frame.long Tespkt.isTraceLong
  rw [h.pt, Frame.pt]
  cases mca : f.pkt.isMca with
  | true => rfl
  | false =>
    cases tick : f.pkt.isTick with
    | true =>
      have htr := Tespkt.isTraceLong_of_isTick tick
      rw [Tespkt.isTraceLong] at htr
      rw [htr]
      rfl
    | false =>
      obtain ⟨-, -, -, -, htrace, hdp⟩ := kinds_of_event ok mca tick
      rw [htrace, hdp]
      have hltp : f.pkt.etypePKT < 4 := Nat.mod_lt _ (by decide)
      have hltr : f.pkt.etypeTR < 4 := Nat.mod_lt _ (by decide)
      generalize f.pkt.etypePKT = p at *
      generalize f.pkt.etypeTR = t at *
      interval_cases p <;> interval_cases t <;> decide

theorem resets (ok : f.err = 0) (h : Describes files q f) :
    q.resets = !(f.long && !f.pkt.isHeader) := by
  have hhdr : q.hdr = (f.long && f.pkt.isHeader) := by
    rw [h.hdr, Frame.headsStream, Frame.long, ok, Bool.or_comm]
    rfl
  rw [Fidx.resets, hhdr, h.long ok]
  cases f.long <;> cases f.pkt.isHeader <;> rfl

theorem ahead (h : Describes files q f) : q.ahead = 1 + (decide (f.missed > 0)).toNat := by
  rw [Fidx.ahead, h.seq]

end Describes

section Numbers

variable {files : Dset → List UInt8} {qs : List Fidx} {fs : List Frame}
  (describes : List.Forall₂ (Describes files) qs fs) (ok : ∀ f ∈ fs, f.err = 0)

include describes

theorem describes_getElem {k : ℕ} (hk : k < fs.length) :
    ∃ hq : k < qs.length, Describes files qs[k] fs[k] := by
  have hlen := describes.length_eq
  exact ⟨by omega, (List.forall₂_iff_get.1 describes).2 k (by omega) hk⟩

/-- The number of a frame after that of the last one. -/
theorem fseqIn_succ {k : ℕ} (hk : k + 1 < fs.length) {hq : k + 1 < qs.length} :
    fseqIn qs 0 (k + 1) qs[k + 1] =
      (fseqIn qs 0 k qs[k] + 1 + (decide (fs[k + 1].missed > 0)).toNat) % 2 ^ 16 := by
  obtain ⟨hq', h⟩ := describes_getElem describes hk
  have hne : qs.take (k + 1) ≠ [] := by
    intro hnil
    have := congrArg List.length hnil
    rw [List.length_take, List.length_nil] at this
    omega
  have hprev : fseqIn qs 0 k qs[k] = fseqAfter (qs.take (k + 1)) := by
    unfold fseqIn
    by_cases hzero : k = 0
    · subst hzero
      rw [if_pos rfl]
      cases qs with
      | nil => rfl
      | cons q qs => rfl
    · rw [if_neg hzero, if_pos rfl]
  rw [hprev, fseqIn, if_neg (Nat.succ_ne_zero k), if_pos rfl,
    List.take_succ_eq_append_getElem hq', Replay.fseqAfter_concat _ hne, if_pos h.good, h.ahead,
    ← Nat.add_assoc]

/-- Every frame is injected, in a pass, with its numbers. -/
theorem sentIn_eq {k : ℕ} (hk : k ≤ fs.length) :
    (sentIn files qs 0 k).length = k ∧ ∀ j (_ : j < k) (hq : j < qs.length),
      (sentIn files qs 0 k)[j]? =
        some (qs[j].image files (fseqIn qs 0 j qs[j]) (pseqAfter (qs.take (j + 1)) 0)) := by
  induction k with
  | zero => exact ⟨rfl, fun j hj => absurd hj (Nat.not_lt_zero j)⟩
  | succ k ih =>
    obtain ⟨hlen, hget⟩ := ih (Nat.le_of_succ_le hk)
    obtain ⟨hq, h⟩ := describes_getElem describes hk
    have hsent : sentFor files qs 0 k =
        [qs[k].image files (fseqIn qs 0 k qs[k]) (pseqAfter (qs.take (k + 1)) 0)] := by
      rw [sentFor, List.getElem?_eq_getElem hq]
      exact if_pos h.good
    rw [sentIn_succ, hsent]
    refine ⟨by rw [List.length_append, hlen, List.length_singleton], fun j hj hq' => ?_⟩
    rcases Nat.lt_succ_iff_lt_or_eq.1 hj with hlt | rfl
    · rw [List.getElem?_append_left (by omega)]
      exact hget j hlt hq'
    · rw [List.getElem?_append_right (by omega), hlen, Nat.sub_self]
      rfl

include ok

/-- The numbers within a stream are those of the frames. -/
theorem pseqAfter_eq (short : ∀ k, streamNumber (fs.take k) < 2 ^ 16) {k : ℕ} (hk : k ≤ fs.length) :
    pseqAfter (qs.take k) 0 = streamNumber (fs.take k) := by
  induction k with
  | zero => rfl
  | succ k ih =>
    obtain ⟨hq, h⟩ := describes_getElem describes hk
    have hok := ok _ (List.getElem_mem hk)
    have hshort := short (k + 1)
    rw [List.take_succ_eq_append_getElem hk, streamNumber_concat] at hshort
    rw [List.take_succ_eq_append_getElem hq, List.take_succ_eq_append_getElem hk,
      Replay.pseqAfter_concat, if_pos h.good, streamNumber_concat, ih (Nat.le_of_succ_le hk),
      Fidx.nextPseq, h.resets hok, h.ahead]
    cases hgoes : (fs[k].long && !fs[k].pkt.isHeader) with
    | true =>
      rw [hgoes, if_pos rfl] at hshort
      rw [if_neg (by decide), if_pos rfl, ← Nat.add_assoc]
      exact Nat.mod_eq_of_lt hshort
    | false => rfl

end Numbers

/-! ## What is captured again -/

/-- A frame that is recorded like another one. -/
structure Like (f g : Frame) : Prop where
  err : g.err = 0
  isMca : g.pkt.isMca = f.pkt.isMca
  isTick : g.pkt.isTick = f.pkt.isTick
  isTraceLong : g.pkt.isTraceLong = f.pkt.isTraceLong
  isHeader : f.long = true → g.pkt.isHeader = f.pkt.isHeader
  missed : f.long = true → (g.missed = 0 ↔ f.missed = 0)
  payload : g.payload = f.payload
  traceSize : g.pkt.traceSize = f.pkt.traceSize
  mcaSize : f.pkt.isMca = true → f.pkt.isHeader = true → g.pkt.mcaSize = f.pkt.mcaSize
  eventNums : f.long = false → g.pkt.eventNums = f.pkt.eventNums
  pt : g.pt = f.pt
  esize : g.pkt.esize = f.pkt.esize

theorem like_of_resembles {f g : Frame} (replayable : f.Replayable) (h : f.Resembles g.pkt)
    (err : g.err = 0) (header : f.long = true → g.pkt.isHeader = f.pkt.isHeader)
    (missed : f.long = true → (g.missed = 0 ↔ f.missed = 0))
    (etype : f.pkt.isMca = false → f.pkt.isTick = false →
      linearEtype g.pkt.etypePKT g.pkt.etypeTR = linearEtype f.pkt.etypePKT f.pkt.etypeTR) :
    Like f g := by
  have hpaylen : g.paylen = f.paylen := by
    rw [Frame.paylen, (g.valid err).2, h.flen, ← (f.valid replayable.ok).2, Frame.paylen]
  refine ⟨err, h.isMca, h.isTick, ?_, header, missed, ?_, traceSize_of_resembles replayable h,
    fun mca hdr => (mca_of_resembles replayable h mca hdr).2.1, fun short => ?_, ?_, h.esize⟩
  · rw [Tespkt.isTraceLong, h.isTrace, h.isTraceDp, Tespkt.isTraceLong]
  · rw [Frame.payload, hpaylen]
    exact h.payload
  · have hshort := (Bool.or_eq_false_iff.1 short).2
    unfold Tespkt.isTraceLong at hshort
    unfold Tespkt.eventNums Tespkt.paylen Tespkt.trueEsize
    rw [h.isTrace, h.isTraceDp, h.flen, h.esize]
    cases htr : f.pkt.isTrace with
    | true =>
      rw [htr, Bool.true_and, Bool.not_eq_false'] at hshort
      rw [hshort, Bool.or_true, Bool.or_true]
    | false => rfl
  · unfold Frame.pt
    rw [h.isMca, h.isTick]
    split_ifs with mca tick
    · rfl
    · rfl
    · exact etype (Bool.eq_false_iff.2 mca) (Bool.eq_false_iff.2 tick)

/-- A call of the packet handler, whatever it finds in the record that it does not initialise. -/
def PassedOn (call : Call) (g : Frame) : Prop := ∃ junk, g = .ofSlot call.slot call.missed junk

theorem callsFrom_getElem (prev : ℕ) (slots : List Slot) :
    (callsFrom prev slots).map Call.slot = slots ∧ ∀ k (hk : k + 1 < slots.length),
      (callsFrom prev slots)[k + 1]? =
        some ⟨slots[k + 1], fseqGap slots[k + 1].pkt.fseq slots[k].pkt.fseq⟩ := by
  induction slots generalizing prev with
  | nil => exact ⟨rfl, fun k hk => absurd hk (Nat.not_lt_zero _)⟩
  | cons p ps ih =>
    obtain ⟨hslots, hget⟩ := ih p.pkt.fseq
    refine ⟨by rw [callsFrom, List.map_cons, hslots], fun k hk => ?_⟩
    rw [callsFrom, List.getElem?_cons_succ]
    cases k with
    | zero =>
      cases ps with
      | nil => exact absurd hk (by simp)
      | cons p' ps => rfl
    | succ k => exact hget k (Nat.lt_of_succ_lt_succ hk)

theorem fseqGap_ahead (fseq n : ℕ) (hn : n < 2 ^ 16) :
    fseqGap ((fseq + 1 + n) % 2 ^ 16) (fseq % 2 ^ 16) = n := by
  unfold fseqGap
  omega

section Arriving

variable {files : Dset → List UInt8} {qs : List Fidx} {fs : List Frame}
  (describes : List.Forall₂ (Describes files) qs fs) (replayable : ∀ f ∈ fs, f.Replayable)
  (short : ∀ k, streamNumber (fs.take k) < 2 ^ 16) {slots : List Slot}
  (arrive : List.Forall₂ Arrives (sentIn files qs 0 fs.length) slots)

include describes replayable short arrive

/-- What arrives for a frame. -/
theorem arriving {k : ℕ} (hk : k < fs.length) :
    ∃ (hs : k < slots.length) (hq : k < qs.length), fs[k].Resembles slots[k].pkt ∧
      slots[k].err = 0 ∧ slots[k].pkt.fseq = fseqIn qs 0 k qs[k] % 2 ^ 16 ∧
      (fs[k].long = true → slots[k].pkt.isHeader = fs[k].pkt.isHeader) ∧
      (fs[k].pkt.isMca = false → fs[k].pkt.isTick = false →
        linearEtype slots[k].pkt.etypePKT slots[k].pkt.etypeTR =
          linearEtype fs[k].pkt.etypePKT fs[k].pkt.etypeTR) := by
  have hmem := replayable _ (List.getElem_mem hk)
  obtain ⟨hq, h⟩ := describes_getElem describes hk
  obtain ⟨hlen, hsent⟩ := sentIn_eq describes (Nat.le_refl fs.length)
  have hs : k < slots.length := by
    rw [← arrive.length_eq, hlen]
    exact hk
  have harrives := (List.forall₂_iff_get.1 arrive).2 k (by omega) hs
  rw [List.get_eq_getElem, List.get_eq_getElem,
    (List.getElem_eq_iff (by omega)).2 (hsent k hk hq), Fidx.image, h.payload] at harrives
  obtain ⟨hres, hfseq, hpseq, hslot, hetype⟩ :=
    resembles_of_arrives hmem.ok h.pt h.length h.esize harrives
  have hheader : fs[k].long = true → slots[k].pkt.isHeader = fs[k].pkt.isHeader := by
    intro long
    have hzero := streamNumber_eq_zero hk long
    rw [pseqAfter_eq describes (fun f hf => (replayable f hf).ok) short hk,
      Nat.mod_eq_of_lt (short _)] at hpseq
    rw [Bool.eq_iff_iff, ← hzero, Tespkt.isHeader, hpseq, beq_iff_eq]
  refine ⟨hs, hq, hres, ?_, hfseq, hheader, hetype⟩
  unfold Slot.err
  rw [hres.flen, hslot, if_neg (Nat.lt_irrefl _)]
  exact isValid_of_resembles hmem hres fun long hdr => by rwa [hheader long] at hdr

/-- The frames that are passed on when a pass arrives are recorded like those that were captured, and
as many are missing between them as the index says. -/
theorem like_of_passed (first : ∀ f ∈ fs.head?, f.pkt.isTick = true) {prev : ℕ} {gs : List Frame}
    (passed : List.Forall₂ PassedOn (callsFrom prev slots) gs) :
    List.Forall₂ Like fs gs ∧ ∀ k (hk : k + 1 < fs.length) (hg : k + 1 < gs.length),
      gs[k + 1].missed = (decide (fs[k + 1].missed > 0)).toNat := by
  obtain ⟨hslots, hcalls⟩ := callsFrom_getElem prev slots
  have hlen : (callsFrom prev slots).length = slots.length := by
    rw [← List.length_map Call.slot, hslots]
  have hgs := passed.length_eq
  have hsent := arrive.length_eq
  rw [(sentIn_eq describes (Nat.le_refl fs.length)).1] at hsent
  have hpassed : ∀ k (hg : k < gs.length) (hs : k < slots.length),
      ∃ missed junk, (callsFrom prev slots)[k]? = some ⟨slots[k], missed⟩ ∧
        gs[k] = .ofSlot slots[k] missed junk := by
    intro k hg hs
    have hc : k < (callsFrom prev slots).length := by omega
    obtain ⟨junk, hjunk⟩ := (List.forall₂_iff_get.1 passed).2 k hc hg
    have hslot : (callsFrom prev slots)[k].slot = slots[k] := by
      rw [← List.getElem_map Call.slot (h := by rwa [List.length_map])]
      exact List.getElem_of_eq hslots _
    refine ⟨(callsFrom prev slots)[k].missed, junk, ?_, ?_⟩
    · rw [List.getElem?_eq_getElem hc, ← hslot]
    · rw [← hslot]
      exact hjunk
  have hmissed : ∀ k (hk : k + 1 < fs.length) (hg : k + 1 < gs.length),
      gs[k + 1].missed = (decide (fs[k + 1].missed > 0)).toNat := by
    intro k hk hg
    obtain ⟨hs₁, hq₁, -, -, hfseq₁, -⟩ := arriving describes replayable short arrive hk
    obtain ⟨hs, hq, -, -, hfseq, -⟩ :=
      arriving describes replayable short arrive (Nat.lt_of_succ_lt hk)
    obtain ⟨missed, junk, hcall, hg₁⟩ := hpassed (k + 1) hg hs₁
    rw [hcalls k hs₁, Option.some.injEq, Call.mk.injEq] at hcall
    rw [hg₁, Frame.ofSlot, ← hcall.2, hfseq₁, hfseq, fseqIn_succ describes hk, Nat.mod_mod]
    refine fseqGap_ahead _ _ ?_
    cases decide (fs[k + 1].missed > 0) <;> decide
  refine ⟨List.forall₂_iff_get.2 ⟨by omega, fun k hk hg => ?_⟩, hmissed⟩
  obtain ⟨hs, hq, hres, herr, -, hheader, hetype⟩ := arriving describes replayable short arrive hk
  obtain ⟨missed, junk, -, hgk⟩ := hpassed k hg hs
  have hlong : fs[k].long = true → (gs[k].missed = 0 ↔ fs[k].missed = 0) := by
    intro long
    cases k with
    | zero =>
      have tick := first fs[0] (by rw [List.head?_eq_getElem?, List.getElem?_eq_getElem hk]; rfl)
      have hmca : fs[0].pkt.isMca = false := by
        rw [← Bool.not_eq_true]
        intro hmca
        rw [Tespkt.isTick_of_isMca hmca] at tick
        cases tick
      rw [Frame.long, hmca, Tespkt.isTraceLong_of_isTick tick] at long
      cases long
    | succ k =>
      rw [hmissed k hk hg]
      by_cases hzero : fs[k + 1].missed = 0
      · simp [hzero]
      · simp [hzero, Nat.pos_of_ne_zero hzero]
  have hmem := replayable _ (List.getElem_mem hk)
  rw [List.get_eq_getElem, List.get_eq_getElem]
  rw [hgk] at hlong ⊢
  exact like_of_resembles hmem hres herr hheader hlong hetype

end Arriving

/-! ## Recording frames that are alike -/

/-- A core that differs in the frames that were lost, and in what is kept of the last event. -/
def Core.over (lost esize etype : ℕ) (c : Core) : Core :=
  { c with
    st := { c.st with framesLost := lost }
    prevEsize := esize
    prevEtype := etype }

section Over

variable {f g : Frame} (like : Like f g) (ok : f.err = 0) (c : Core) (lost esize etype : ℕ)

theorem checkStream_over (isTrace : Bool) : (c.over lost esize etype).checkStream isTrace =
    ((c.checkStream isTrace).1.over lost esize etype, (c.checkStream isTrace).2) := by
  cases c
  unfold Core.checkStream Core.over
  dsimp only
  split_ifs <;> rfl

/-- What the stream index says does not depend on it. -/
theorem indexStream_over (start : ℕ) (fidx fidx' : Fidx) :
    ((c.over lost esize etype).indexStream f start fidx').1 =
        (c.indexStream f start fidx).1.over lost esize etype ∧
      ((c.over lost esize etype).indexStream f start fidx').2.2 =
        (c.indexStream f start fidx).2.2 := by
  by_cases ok : f.err = 0
  · have hs : (c.over lost esize etype).startsStream f = c.startsStream f := rfl
    have hc : (c.over lost esize etype).continuesStream f = c.continuesStream f := rfl
    have hi : (c.over lost esize etype).interrupted f =
        (c.interrupted f).over lost esize etype := by
      unfold Core.interrupted
      rw [show (c.over lost esize etype).interruptsStream f = c.interruptsStream f from rfl]
      split_ifs <;> rfl
    cases hstarts : c.startsStream f with
    | true =>
      rw [indexStream_of_starts start fidx ok hstarts,
        indexStream_of_starts start fidx' ok (hs.trans hstarts)]
      have hcheck := checkStream_over { c.startStream f start with
        curStream := { (c.startStream f start).curStream with
          curSize := (c.startStream f start).curStream.curSize + f.paylen } } lost esize etype
        f.pkt.isTraceLong
      exact ⟨congrArg Prod.fst hcheck, congrArg (fun p => (p.2, false)) hcheck⟩
    | false =>
      cases hcont : c.continuesStream f with
      | true =>
        rw [indexStream_of_continues start fidx ok hcont,
          indexStream_of_continues start fidx' ok (hc.trans hcont)]
        have hcheck := checkStream_over { c with
          curStream := { c.curStream with curSize := c.curStream.curSize + f.paylen } }
          lost esize etype f.pkt.isTraceLong
        exact ⟨congrArg Prod.fst hcheck, congrArg (fun p => (p.2, false)) hcheck⟩
      | false =>
        by_cases kind : f.pkt.isMca = true ∨ f.pkt.isTraceLong = true
        · rw [indexStream_of_orphan start fidx ok hstarts hcont kind,
            indexStream_of_orphan start fidx' ok (hs.trans hstarts) (hc.trans hcont) kind, hi]
          exact ⟨rfl, rfl⟩
        · rw [not_or, Bool.not_eq_true, Bool.not_eq_true] at kind
          cases tick : f.pkt.isTick with
          | true =>
            rw [indexStream_of_tick start fidx ok hstarts hcont kind.1 kind.2 tick,
              indexStream_of_tick start fidx' ok (hs.trans hstarts) (hc.trans hcont) kind.1
                kind.2 tick, hi]
            exact ⟨rfl, rfl⟩
          | false =>
            rw [indexStream_of_event start fidx ok hstarts hcont kind.1 kind.2 tick,
              indexStream_of_event start fidx' ok (hs.trans hstarts) (hc.trans hcont) kind.1
                kind.2 tick, hi]
            exact ⟨rfl, rfl⟩
  · rw [indexStream_of_err ok, indexStream_of_err ok]
    exact ⟨rfl, rfl⟩

include like

theorem paylen_of_like : g.paylen = f.paylen := by
  rw [← length_payload, like.payload, length_payload]

include ok

theorem indexFrame_like : ∃ esize' etype',
    ((c.over lost esize etype).indexFrame g).1 = (c.indexFrame f).1.over lost esize' etype' ∧
      ((c.over lost esize etype).indexFrame g).2.2 = (c.indexFrame f).2.2 := by
  unfold Core.indexFrame
  rw [if_neg (not_not.2 ok), if_neg (not_not.2 like.err), like.isMca, like.isTick]
  cases f.pkt.isMca with
  | true => exact ⟨esize, etype, rfl, rfl⟩
  | false =>
    cases f.pkt.isTick with
    | true => exact ⟨esize, etype, rfl, rfl⟩
    | false => exact ⟨_, _, rfl, rfl⟩

theorem indexStream_like (start : ℕ) (fidx : Fidx) :
    c.indexStream g start fidx = c.indexStream f start fidx := by
  have hlong : f.long = (f.pkt.isMca || f.pkt.isTraceLong) := rfl
  have hpaylen := paylen_of_like like
  have hc : c.continuesStream g = c.continuesStream f := by
    unfold Core.continuesStream
    rw [like.isMca, like.isTraceLong]
    cases long : f.long with
    | true =>
      rw [like.isHeader long, decide_eq_decide.2 (like.missed long)]
    | false =>
      obtain ⟨hm, ht⟩ := Bool.or_eq_false_iff.1 long
      rw [hm, ht]
      rfl
  have hs : c.startsStream g = c.startsStream f := by
    unfold Core.startsStream
    rw [like.isMca, like.isTraceLong]
    cases long : f.long with
    | true => rw [like.isHeader long]
    | false =>
      obtain ⟨hm, ht⟩ := Bool.or_eq_false_iff.1 long
      rw [hm, ht]
      rfl
  have hi : c.interrupted g = c.interrupted f := by
    unfold Core.interrupted Core.interruptsStream
    rw [hc]
  have hextend : ∀ c : Core, c.extendStream g = c.extendStream f := by
    intro c
    rw [Core.extendStream, like.isTraceLong, hpaylen, Core.extendStream]
  cases hstarts : c.startsStream f with
  | true =>
    have hstart : c.startStream g start = c.startStream f start := by
      unfold Core.startsStream at hstarts
      simp only [Bool.and_eq_true, Bool.or_eq_true] at hstarts
      unfold Core.startStream
      rw [like.isTraceLong, like.traceSize]
      rcases hstarts.1.1 with ht | hm
      · rw [ht]
        rfl
      · rw [like.mcaSize hm hstarts.1.2]
    rw [indexStream_of_starts start fidx ok hstarts,
      indexStream_of_starts start fidx like.err (hs.trans hstarts), hstart, hextend]
  | false =>
    cases hcont : c.continuesStream f with
    | true =>
      rw [indexStream_of_continues start fidx ok hcont,
        indexStream_of_continues start fidx like.err (hc.trans hcont), hextend]
    | false =>
      by_cases kind : f.pkt.isMca = true ∨ f.pkt.isTraceLong = true
      · rw [indexStream_of_orphan start fidx ok hstarts hcont kind,
          indexStream_of_orphan start fidx like.err (hs.trans hstarts) (hc.trans hcont)
            (by rwa [like.isMca, like.isTraceLong]), hi]
      · rw [not_or, Bool.not_eq_true, Bool.not_eq_true] at kind
        have hm := like.isMca.trans kind.1
        have ht := like.isTraceLong.trans kind.2
        cases tick : f.pkt.isTick with
        | true =>
          rw [indexStream_of_tick start fidx ok hstarts hcont kind.1 kind.2 tick,
            indexStream_of_tick start fidx like.err (hs.trans hstarts) (hc.trans hcont) hm ht
              (like.isTick.trans tick), hi]
        | false =>
          rw [indexStream_of_event start fidx ok hstarts hcont kind.1 kind.2 tick,
            indexStream_of_event start fidx like.err (hs.trans hstarts) (hc.trans hcont) hm ht
              (like.isTick.trans tick), hi, like.eventNums]
          rw [hlong, kind.1, kind.2]
          rfl

end Over

/-- Recorders that have recorded frames that are alike. -/
structure Recorder.Alike (r r' : Recorder) : Prop where
  core : ∃ lost esize etype, r'.core = r.core.over lost esize etype
  files : ∀ ds, ds ≠ .fidx → r'.files ds = r.files ds

section Alike

variable {f g : Frame} {r r' : Recorder} (ok : f.err = 0) (like : Like f g) (alike : r.Alike r')

include ok like

theorem dset_of_like : g.dset = f.dset := by
  unfold Frame.dset
  rw [if_neg (not_not.2 like.err), if_neg (not_not.2 ok), like.isMca, like.isTick]

include alike

theorem index_like : (∃ lost esize etype, (r'.index g).1 = (r.index f).1.over lost esize etype) ∧
    (r'.index g).2.2 = (r.index f).2.2 ∧ r'.tickDue g = r.tickDue f := by
  obtain ⟨lost, esize, etype, hcore⟩ := alike.core
  have hdset := dset_of_like ok like
  have hstart : (r'.files g.dset).length = (r.files f.dset).length := by
    rw [hdset, alike.files _ (dset_ne_index f).1]
  have hcount : r'.core.count g = (r.core.count f).over (lost + g.missed) esize etype := by
    rw [hcore]
    rfl
  obtain ⟨esize', etype', hframe, hdue⟩ :=
    indexFrame_like like ok (r.core.count f) (lost + g.missed) esize etype
  unfold Recorder.index Recorder.tickDue
  dsimp only
  rw [hcount, hdue, hframe, hstart]
  have hover := indexStream_over (f := f) ((r.core.count f).indexFrame f).1 (lost + g.missed) esize'
    etype' (r.files f.dset).length
    { ((r.core.count f).indexFrame f).2.1 with start := (r.files f.dset).length }
    { (((r.core.count f).over (lost + g.missed) esize etype).indexFrame g).2.1 with
      start := (r.files f.dset).length }
  rw [indexStream_like like ok]
  exact ⟨⟨_, _, _, hover.1⟩, hover.2, rfl⟩

/-- One frame each. -/
theorem record_like : (r.record f).Alike (r'.record g) := by
  obtain ⟨hcore, hdue, htick⟩ := index_like ok like alike
  refine ⟨?_, fun ds hds => ?_⟩
  · rw [Recorder.record_core, Recorder.record_core]
    exact hcore
  · rw [record_files_dueFor, record_files_dueFor, htick, hdue, dset_of_like ok like,
      like.payload, alike.files ds hds, if_neg (Ne.symm hds), if_neg (Ne.symm hds)]

end Alike

/-! ## A capture can be replayed -/

theorem datfd_of_pt {q : Fidx} {f : Frame} (ok : f.err = 0) (hpt : q.pt = f.pt) :
    q.datfd = some f.dset := by
  have := etype_lt f.pkt
  unfold Fidx.datfd Frame.dset
  rw [hpt, Frame.pt, if_neg (not_not.2 ok)]
  unfold FTYPE_TICK FTYPE_MCA at *
  split_ifs <;> first | rfl | omega

/-- The record that is made for a frame describes it, in the files as they are after the run. -/
theorem describes_index {fs : List Frame} {r : Recorder} (ok : ∀ f ∈ fs, f.err = 0)
    (small : ∀ ds, ds.IsData → ((r.run fs).files ds).length < 2 ^ 31) {k : ℕ} (hk : k < fs.length)
    {q : Fidx} (hq : (fidxOf fs r)[k]? = some q) (hhdr : q.hdr = fs[k].headsStream) :
    Describes (r.run fs).files q fs[k] := by
  have hok := ok _ (List.getElem_mem hk)
  obtain rfl := Option.some.inj ((getElem?_fidxOf fs r hk).symm.trans hq)
  obtain ⟨hpt, hesize, hseq⟩ := index_kind hok (r.run (fs.take k))
  obtain ⟨hstart, hlen, -, -⟩ := index_fidx fs[k] (r.run (fs.take k))
  obtain ⟨rest, hfile⟩ := run_files_split r hk
  obtain ⟨hsum, -, hlt, hpos⟩ := paylen_of_err hok
  have hdatfd := datfd_of_pt hok hpt
  have hplen : ((r.run (fs.take k)).index fs[k]).2.1.plen = fs[k].paylen := by
    rw [Fidx.plen, hlen]
    exact Nat.mod_eq_of_lt hlt
  have hsmall := small _ (isData_dset fs[k])
  have hfilelen := congrArg List.length hfile
  rw [List.length_append, List.length_append, length_payload] at hfilelen
  refine ⟨hpt, hesize, hseq, hhdr, hlen, ?_, ?_, fun ds hds => ?_⟩
  · rw [Fidx.payload, hdatfd]
    dsimp only
    rw [hplen, hstart, hfile, ← length_payload]
    exact take_drop_append _ _ _
  · rw [hplen]
    have := (inBounds_of_err hok).2
    omega
  · obtain rfl := Option.some.inj (hds.symm.trans hdatfd)
    rw [hplen, hstart]
    omega

section Capture

variable {fuel : ℕ} {env : Env} {s : Setup} {fs handled : List Frame} {report : Report}

/-- A job is what it makes of the frames that it handles. -/
theorem runJob_handled {job : Job} (h : runJob fuel env fs job = some (handled, report)) :
    runJob fuel env handled job = some (handled, report) := by
  induction fs generalizing job handled with
  | nil =>
    obtain ⟨q, hfin, heq⟩ := Option.map_eq_some_iff.1 h
    obtain ⟨rfl, rfl⟩ := Prod.mk.inj heq
    exact h
  | cons f fs ih =>
    rw [runJob] at h
    split at h
    · cases h
    next report' job' hstep =>
      obtain ⟨rfl, rfl⟩ := Prod.mk.inj (Option.some.inj h)
      rw [runJob, hstep]
    next job' hstep =>
      obtain ⟨⟨rest, report'⟩, hrest, heq⟩ := Option.map_eq_some_iff.1 h
      obtain ⟨rfl, rfl⟩ := Prod.mk.inj heq
      rw [runJob, hstep]
      dsimp only
      rw [ih hrest]
      rfl

/-- A job is what it makes of the frames that it records. -/
theorem runJob_recorded (h : runJob fuel env fs (openJob s) = some (handled, report)) :
    runJob fuel env (recorded handled) (openJob s) = some (recorded handled, report) := by
  induction fs generalizing handled with
  | nil =>
    obtain ⟨q, hfin, heq⟩ := Option.map_eq_some_iff.1 h
    obtain ⟨rfl, rfl⟩ := Prod.mk.inj heq
    exact h
  | cons f fs ih =>
    cases tick : f.pkt.isTick with
    | false =>
      rw [runJob, taskCapPktHn_of_idle fuel env rfl tick] at h
      obtain ⟨⟨rest, report'⟩, hrest, heq⟩ := Option.map_eq_some_iff.1 h
      obtain ⟨rfl, rfl⟩ := Prod.mk.inj heq
      rw [recorded_cons_of_not_tick tick]
      exact ih hrest
    | true =>
      have hall : recorded handled = handled := by
        rw [runJob] at h
        split at h
        · cases h
        · obtain ⟨rfl, rfl⟩ := Prod.mk.inj (Option.some.inj h)
          exact recorded_cons_of_tick tick []
        · obtain ⟨⟨rest, report'⟩, -, heq⟩ := Option.map_eq_some_iff.1 h
          obtain ⟨rfl, rfl⟩ := Prod.mk.inj heq
          exact recorded_cons_of_tick tick rest
      rw [hall]
      exact runJob_handled h

theorem tick_of_head_recorded (fs : List Frame) :
    ∀ f ∈ (recorded fs).head?, f.pkt.isTick = true := by
  intro f hf
  have hhead := List.head?_dropWhile_not (fun f : Frame => !f.pkt.isTick) fs
  rw [← recorded, Option.mem_def.1 hf] at hhead
  simpa using hhead

theorem recorded_recorded (fs : List Frame) : recorded (recorded fs) = recorded fs := by
  have htick := tick_of_head_recorded fs
  cases hrec : recorded fs with
  | nil => rfl
  | cons f rec =>
    rw [hrec] at htick
    exact recorded_cons_of_tick (htick f rfl) rec

/-- A clean capture of good frames leaves the recorder's files. -/
theorem files_of_capture (hf : 4 ≤ fuel)
    (hrun : runJob fuel env fs (openJob s) = some (handled, report))
    (clean : ∀ ds, report.lost ds = false) (ok : ∀ f ∈ recorded handled, f.err = 0) (ds : Dset) :
    report.files ds = ((Recorder.init s).run (recorded handled)).files ds ∧
      (((Recorder.init s).run (recorded handled)).files ds).length ≤ OFF_MAX := by
  obtain ⟨handled', report', hrun', hend⟩ := runJob_spec True hf env s (recorded handled)
    fun _ => allFit_of_inBounds (fun f hf => inBounds_of_err (ok f hf)) _
  rw [runJob_recorded hrun] at hrun'
  obtain ⟨rfl, rfl⟩ := Prod.mk.inj (Option.some.inj hrun')
  have hreports := hend.reports
  rw [recorded_recorded] at hreports
  exact files_of_reports hreports clean (Or.inl trivial)

/-- The index that a reader finds. -/
theorem records_of_capture (hf : 4 ≤ fuel)
    (hrun : runJob fuel env fs (openJob s) = some (handled, report))
    (clean : ∀ ds, report.lost ds = false) (ok : ∀ f ∈ recorded handled, f.err = 0) :
    fidxRecords (report.files .fidx) = fidxOf (recorded handled) (Recorder.init s) := by
  rw [(files_of_capture hf hrun clean ok .fidx).1]
  exact fidxRecords_run rfl fun ds _ =>
    Nat.lt_of_le_of_lt (files_of_capture hf hrun clean ok ds).2 (by rw [OFF_MAX]; omega)

/-- The records of a clean capture describe the frames that it recorded. -/
theorem describes_of_capture (hf : 4 ≤ fuel)
    (hrun : runJob fuel env fs (openJob s) = some (handled, report))
    (clean : ∀ ds, report.lost ds = false) (ok : ∀ f ∈ recorded handled, f.err = 0)
    (small : ∀ ds, ds.IsData → (report.files ds).length < 2 ^ 31)
    (flags : (fidxRecords (report.files .fidx)).map Fidx.hdr =
      (recorded handled).map Frame.headsStream) :
    List.Forall₂ (Describes report.files) (fidxRecords (report.files .fidx)) (recorded handled) := by
  have hfiles : report.files = ((Recorder.init s).run (recorded handled)).files :=
    funext fun ds => (files_of_capture hf hrun clean ok ds).1
  have hrecords := records_of_capture hf hrun clean ok
  have hlen : (fidxRecords (report.files .fidx)).length = (recorded handled).length := by
    rw [hrecords, length_fidxOf]
  refine List.forall₂_iff_get.2 ⟨hlen, fun k hq hk => ?_⟩
  rw [hfiles] at small
  have hflag : (fidxRecords (report.files .fidx))[k].hdr = (recorded handled)[k].headsStream := by
    have := List.getElem_of_eq flags (i := k) (by rw [List.length_map]; exact hq)
    rwa [List.getElem_map, List.getElem_map] at this
  have hdescribes := describes_index (r := Recorder.init s) ok small hk
    (q := (fidxRecords (report.files .fidx))[k])
    (by rw [← hrecords]; exact List.getElem?_eq_getElem hq) hflag
  rwa [← hfiles] at hdescribes

end Capture

/-! ## Capturing a replay -/

/-- The record of a frame and that of the frame that is captured again. -/
structure Fidx.SamePlace (q q' : Fidx) : Prop where
  start : q'.start = q.start
  length : q'.length = q.length
  pt : q'.pt = q.pt
  esize : q'.esize = q.esize

section Runs

variable {fs gs : List Frame} {r r' : Recorder}

theorem run_like (ok : ∀ f ∈ fs, f.err = 0) (like : List.Forall₂ Like fs gs) (alike : r.Alike r') :
    (r.run fs).Alike (r'.run gs) ∧
      List.Forall₂ Fidx.SamePlace (fidxOf fs r) (fidxOf gs r') := by
  induction like generalizing r r' with
  | nil => exact ⟨alike, List.Forall₂.nil⟩
  | @cons f g fs gs hfg _ ih =>
    have hok := ok f List.mem_cons_self
    obtain ⟨hrun, hindex⟩ := ih (fun f hf => ok f (List.mem_cons_of_mem _ hf))
      (record_like hok hfg alike)
    refine ⟨hrun, List.Forall₂.cons ?_ hindex⟩
    obtain ⟨hstart, hlen, -, -⟩ := index_fidx f r
    obtain ⟨hstart', hlen', -, -⟩ := index_fidx g r'
    obtain ⟨hpt, hesize, -⟩ := index_kind hok r
    obtain ⟨hpt', hesize', -⟩ := index_kind hfg.err r'
    refine ⟨?_, ?_, ?_, ?_⟩
    · rw [hstart', hstart, dset_of_like hok hfg, alike.files _ (dset_ne_index f).1]
    · rw [hlen', hlen, paylen_of_like hfg]
    · rw [hpt', hpt, hfg.pt]
    · rw [hesize', hesize, hfg.esize]

end Runs

/-- A job that is about to record a frame, or the next one, as the recorder would. -/
structure Recording (fs : List Frame) (job : Job) (r : Recorder) : Prop where
  core : ∀ f ∈ fs.head?, job.core.arrive f = r.core
  recording : r.core.recording = true
  tracks : Tracks False job r
  live : Live False job

theorem recording_open {fs : List Frame} (s : Setup) (first : ∀ f ∈ fs.head?, f.pkt.isTick = true) :
    Recording fs (openJob s) (Recorder.init s) := by
  refine ⟨fun f hf => ?_, rfl, open_tracks False s, open_live False s⟩
  rw [Core.arrive, first f hf]
  rfl

/-- The handler at a frame: it goes on recording, or it ends the job. -/
theorem recording_step {fuel : ℕ} (hf : 4 ≤ fuel) (env : Env) {f : Frame} {fs : List Frame}
    {job : Job} {r : Recorder} (h : Recording (f :: fs) job r) :
    ∃ res job', taskCapPktHn fuel env f job = some (res, job') ∧
      ((res = none ∧ (r.index f).2.2.2 = false ∧ Recording fs job' (r.record f)) ∨
        ∃ report, res = some report ∧
          ((∀ ds, report.lost ds = false) → (r.index f).2.2.2 = true)) := by
  obtain ⟨res, job', hstep, hres⟩ := taskCapPktHn_spec hf env
    (h.core f rfl) h.recording h.tracks h.live False.elim
  refine ⟨res, job', hstep, hres.imp ?_ ?_⟩
  · rintro ⟨rfl, hdone, hcore, tracks, live⟩
    have hrec : (r.record f).core.recording = true := (record_frame f r).1.trans h.recording
    exact ⟨rfl, hdone, fun g _ => by rw [hcore]; exact arrive_of_recording hrec, hrec, tracks, live⟩
  · rintro ⟨report, rfl, -, -, hclean⟩
    exact ⟨report, rfl, hclean⟩

/-- A clean job on frames that are like those that another one handled handles all of them. -/
theorem handled_of_like {fuel : ℕ} (hf : 4 ≤ fuel) {env env' : Env} {fs gs handled : List Frame}
    {job job' : Job} {r r' : Recorder} {report report' : Report} (h : Recording fs job r)
    (h' : Recording gs job' r') (ok : ∀ f ∈ fs, f.err = 0) (like : List.Forall₂ Like fs gs)
    (alike : r.Alike r') (hrun : runJob fuel env fs job = some (fs, report))
    (hrun' : runJob fuel env' gs job' = some (handled, report'))
    (clean : ∀ ds, report'.lost ds = false) : handled = gs := by
  induction like generalizing job job' r r' handled with
  | nil =>
    obtain ⟨q, -, heq⟩ := Option.map_eq_some_iff.1 hrun'
    exact (Prod.mk.inj heq).1.symm
  | @cons f g fs gs hfg like ih =>
    have hok := ok f List.mem_cons_self
    obtain ⟨res, job₁, hstep, hres⟩ := recording_step hf env h
    obtain ⟨res', job₁', hstep', hres'⟩ := recording_step hf env' h'
    obtain ⟨-, hdue, -⟩ := index_like hok hfg alike
    rw [runJob, hstep] at hrun
    rw [runJob, hstep'] at hrun'
    rcases hres with ⟨rfl, hdone, hnext⟩ | ⟨report₁, rfl, -⟩
    · obtain ⟨⟨rest, report₂⟩, hrest, heq⟩ := Option.map_eq_some_iff.1 hrun
      obtain ⟨hcons, rfl⟩ := Prod.mk.inj heq
      obtain ⟨-, rfl⟩ := List.cons.inj hcons
      rcases hres' with ⟨rfl, -, hnext'⟩ | ⟨report₁, rfl, hdone'⟩
      · obtain ⟨⟨rest', report₂'⟩, hrest', heq'⟩ := Option.map_eq_some_iff.1 hrun'
        obtain ⟨rfl, rfl⟩ := Prod.mk.inj heq'
        rw [ih hnext hnext' (fun f hf => ok f (List.mem_cons_of_mem _ hf))
          (record_like hok hfg alike) hrest hrest']
      · -- it would be done at a frame at which the other one was not
        obtain ⟨-, rfl⟩ := Prod.mk.inj (Option.some.inj hrun')
        have hdone₂ := hdone' clean
        rw [hdue, hdone] at hdone₂
        cases hdone₂
    · obtain ⟨hone, -⟩ := Prod.mk.inj (Option.some.inj hrun)
      obtain ⟨-, rfl⟩ := List.cons.inj hone
      cases like
      rcases hres' with ⟨rfl, -, -⟩ | ⟨report₁', rfl, -⟩
      · obtain ⟨⟨rest', report₂'⟩, hrest', heq'⟩ := Option.map_eq_some_iff.1 hrun'
        obtain ⟨rfl, rfl⟩ := Prod.mk.inj heq'
        obtain ⟨q, -, heq⟩ := Option.map_eq_some_iff.1 hrest'
        rw [← (Prod.mk.inj heq).1]
      · obtain ⟨rfl, -⟩ := Prod.mk.inj (Option.some.inj hrun')
        rfl

/-- The request of a job. -/
structure Setup.SameRequest (s s' : Setup) : Prop where
  minTicks : s'.minTicks = s.minTicks
  minEvents : s'.minEvents = s.minEvents
  noconvert : s'.noconvert = s.noconvert

theorem alike_init {s s' : Setup} (same : s.SameRequest s') :
    (Recorder.init s).Alike (Recorder.init s') := by
  refine ⟨⟨0, s'.prevEsize, s'.prevEtype, ?_⟩, fun ds _ => rfl⟩
  unfold Recorder.init openJob Core.over
  dsimp only
  rw [same.minTicks, same.minEvents, same.noconvert]

/-- What a second capture leaves of the first one's replay. -/
structure Recaptured (report report' : Report) : Prop where
  files : ∀ ds, ds ≠ .fidx → report'.files ds = report.files ds
  records : List.Forall₂ Fidx.SamePlace (fidxRecords (report.files .fidx))
    (fidxRecords (report'.files .fidx))
  seqs : ((fidxRecords (report'.files .fidx)).tail.map Fidx.seq) =
    (fidxRecords (report.files .fidx)).tail.map Fidx.seq

theorem map_seq_fidxOf {fs : List Frame} (ok : ∀ f ∈ fs, f.err = 0) (r : Recorder) :
    (fidxOf fs r).map Fidx.seq = fs.map fun f => decide (f.missed > 0) := by
  induction fs generalizing r with
  | nil => rfl
  | cons f fs ih =>
    rw [fidxOf, List.map_cons, List.map_cons, ih fun f hf => ok f (List.mem_cons_of_mem _ hf),
      (index_kind (ok f List.mem_cons_self) r).2.2]

/-- Behind the first one, frames are missing before a frame if they were before the other one. -/
theorem tail_missed {fs gs : List Frame} (hlen : fs.length = gs.length)
    (missed : ∀ k (hk : k + 1 < fs.length) (hg : k + 1 < gs.length),
      gs[k + 1].missed = (decide (fs[k + 1].missed > 0)).toNat) :
    (gs.map fun g => decide (g.missed > 0)).tail = (fs.map fun f => decide (f.missed > 0)).tail := by
  refine List.ext_getElem (by simp [hlen]) fun k hg hf => ?_
  simp only [List.getElem_tail, List.getElem_map]
  simp only [List.length_tail, List.length_map] at hg hf
  rw [missed k (by omega) (by omega)]
  cases decide (fs[k + 1].missed > 0) <;> rfl

theorem first_of_like {fs gs : List Frame} (like : List.Forall₂ Like fs gs)
    (first : ∀ f ∈ fs.head?, f.pkt.isTick = true) : ∀ g ∈ gs.head?, g.pkt.isTick = true := by
  intro g hg
  cases like with
  | nil => cases hg
  | cons hfg _ =>
    obtain rfl := Option.some.inj hg
    exact hfg.isTick.trans (first _ rfl)

/-- A slot with these bytes in it, and zeros behind them. -/
def Slot.holding (bytes : List UInt8) : Slot where
  pkt := fun i => bytes.getD i 0
  len := bytes.length % 2 ^ 16
  len_lt := Nat.mod_lt _ (by decide)

theorem arrives_holding {bytes : List UInt8} (short : bytes.length < 2 ^ 16) :
    Arrives bytes (Slot.holding bytes) := by
  refine ⟨Nat.mod_eq_of_lt short, slice_eq_of_getElem fun k hk => ?_⟩
  unfold Slot.holding
  dsimp only
  rw [Nat.zero_add, List.getD_eq_getElem?_getD, List.getElem?_eq_getElem hk, Option.getD_some]

/-- What is passed on for these frames. -/
def passOn (sent : List (List UInt8)) : List Frame :=
  (callsFrom 0 (sent.map Slot.holding)).map fun call => .ofSlot call.slot call.missed 0

theorem passedOn_passOn (sent : List (List UInt8)) :
    List.Forall₂ PassedOn (callsFrom 0 (sent.map Slot.holding)) (passOn sent) := by
  unfold passOn
  rw [List.forall₂_map_right_iff]
  exact List.forall₂_same.2 fun call _ => ⟨0, rfl⟩

/-- A peak and a trace in two frames after a tick. -/
def smallFrames : List Frame := [.tick, .peak, .traceHeader, .traceRest]

/-- What a pass over their records injects. -/
def smallSent : List (List UInt8) :=
  let tick : Fidx := ⟨0, 24, 3, 0, FTYPE_TICK, 0, false, false⟩
  let peak : Fidx := ⟨0, 8, 1, 0, TESPKT_TYPE_PEAK, 0, false, false⟩
  let header : Fidx := ⟨8, 16, 1, 0, FTYPE_TRACE_SGL, 0, true, false⟩
  let rest : Fidx := ⟨24, 8, 1, 0, FTYPE_TRACE_SGL, 0, false, false⟩
  [tick.headers 0 0 ++ 1 :: List.replicate 23 0,
    peak.headers 1 0 ++ 2 :: 3 :: List.replicate 6 0,
    header.headers 2 0 ++ 24 :: 0 :: 4 :: List.replicate 13 0,
    rest.headers 3 1 ++ 5 :: 6 :: List.replicate 6 0]

end Tesd
