import Tesd.AvgtrSound

/-!
# The average trace buffer

How far the copies of `task_avgtr_pkt_hn` go.  A trace is complete when the number of bytes received
is the one that its header declares; the frames after the header may have more than what is missing.
-/

namespace Tesd

/-- A copy that a frame leads to ends within the buffer, and a trace that is under way afterwards
has no more bytes than its header declares. -/
def StaysInTrace (e : RepEvent ℕ) (t : AvgtrTask) : Prop :=
  match e with
  | .packet call => t.active = true →
    (Accepts call t.view → (avgtrOpened call t.view).curSize +
        (Slot.payload call.slot.pkt call.slot.flen).length ≤ TES_AVGTR_MAXSIZE) ∧
      ((t.view.handle taskAvgtrPktHn call).2.own.recording = true →
        (t.view.handle taskAvgtrPktHn call).2.own.curSize ≤
          (t.view.handle taskAvgtrPktHn call).2.own.size)
  | .request _ => True
  | .timer _ => True

/-- A frame that is taken for part of the trace under way has no more than what is missing. -/
def FitsTrace (e : RepEvent ℕ) (t : AvgtrTask) : Prop :=
  match e with
  | .packet call => t.active = true → t.view.data.own.recording = true → Accepts call t.view →
    t.view.data.own.curSize + (Slot.payload call.slot.pkt call.slot.flen).length ≤
      t.view.data.own.size
  | .request _ => True
  | .timer _ => True

/-- A trace that is under way has whole words, and no more than its header declares. -/
structure WithinTrace (trace : AvgtrData) : Prop where
  idle : trace.recording = false → trace.curSize = 0
  words : trace.curSize % 8 = 0
  size : trace.size < 2 ^ 16
  within : trace.recording = true → trace.curSize ≤ trace.size

namespace Tespkt

variable {pkt : Tespkt}

/-- The header of a valid average trace frame declares at least its payload. -/
theorem paylen_le_traceSize (h : isValid pkt = 0) (avg : isTraceAvg pkt = true)
    (hdr : isHeader pkt = true) : paylen pkt ≤ traceSize pkt := by
  unfold isTraceAvg at avg
  simp only [Bool.and_eq_true, beq_iff_eq] at avg
  obtain ⟨⟨⟨hev, hpkt⟩, ht⟩, htr⟩ := avg
  have htick : isTick pkt = false := by simp [isTick, ht]
  have hother : (isPeak pkt || isArea pkt) = false := by
    simp [isPeak, isArea, hpkt, TESPKT_TYPE_TRACE, TESPKT_TYPE_PEAK, TESPKT_TYPE_AREA]
  have htrace : isTrace pkt = true := by simp [isTrace, hev, hpkt, ht]
  unfold isValid at h
  rw [if_pos hev, Nat.or_eq_zero_iff] at h
  obtain ⟨-, herr⟩ := h
  rw [eventErrors, Nat.or_eq_zero_iff] at herr
  obtain ⟨-, herr⟩ := herr
  rw [if_neg (by simp [htick]), if_neg (by simp [hother]), if_pos htrace, if_pos hdr,
    Nat.or_eq_zero_iff, Nat.or_eq_zero_iff, flag_eq_zero (by decide),
    flag_eq_zero (by decide)] at herr
  exact Int.not_lt.1 herr.1.2

end Tespkt

section Step

variable {t t' : AvgtrTask} {call : Call} {v : View (RepData AvgtrData AvgtrRep)}

/-- What a frame does that is taken for part of the trace. -/
theorem handle_of_accepts (accepts : Accepts call v) : v.handle taskAvgtrPktHn call =
    let trace := (avgtrOpened call v).append call.slot.pkt call.slot.flen
    if trace.curSize = trace.size then
      avgtrDone ⟨TES_AVGTR_REQ_OK, Slice.slice trace.buf 0 trace.size⟩ { v.data with own := trace }
    else (.zero, { v.data with own := trace }) := by
  obtain ⟨avg, hrec, herr, hseq⟩ := accepts
  unfold avgtrOpened at hrec hseq
  have hnext : ¬((v.data.own.begin call.slot.pkt).curSize > 0 ∧
      ((call.slot.pkt.pseq : ℤ) - v.prevPseqTr) % 2 ^ 16 ≠ 1) := fun h => h.2 (hseq h.1)
  unfold View.handle taskAvgtrPktHn avgtrOpened
  rw [if_neg (by simp [avg])]
  dsimp only
  rw [if_neg (by simp [hrec]), if_neg (not_not.2 herr), if_neg hnext]

/-- Another frame leaves the trace as it is, or ends it. -/
theorem own_of_not_accepts (h : ¬ Accepts call v) :
    (v.handle taskAvgtrPktHn call).2.own = v.data.own ∨
      ∃ trace : AvgtrData, (v.handle taskAvgtrPktHn call).2.own = trace.reset := by
  rcases avgtr_cases call v with ⟨hskip, -⟩ | ⟨hdrop, -⟩ | ⟨accepts, -⟩
  · rw [hskip]
    exact Or.inl rfl
  · rw [hdrop]
    exact Or.inr ⟨_, rfl⟩
  · exact absurd accepts h

theorem withinTrace_reset (trace : AvgtrData) : WithinTrace trace.reset :=
  ⟨fun _ => rfl, rfl, Nat.two_pow_pos 16, Bool.noConfusion⟩

/-- The payload of a frame without an error consists of whole words, and the frame is short. -/
theorem payload_of_err {s : Slot} (err : s.err = 0) :
    (Slot.payload s.pkt s.flen).length % 8 = 0 ∧ (Slot.payload s.pkt s.flen).length ≤ MTU := by
  have hlen := Slot.length_payload_of_err err
  obtain ⟨valid, -⟩ := Slot.valid_of_err err
  obtain ⟨-, hhi⟩ := Tespkt.flen_of_valid valid
  have hmod := Tespkt.flen_mod_of_valid valid
  unfold TESPKT_HDR_LEN at hlen
  omega

/-- A frame that starts a trace has no more than its header declares. -/
theorem opened_of_idle (within : WithinTrace v.data.own) (idle : v.data.own.recording = false)
    (accepts : Accepts call v) : (avgtrOpened call v).curSize = 0 ∧
      (Slot.payload call.slot.pkt call.slot.flen).length ≤ (avgtrOpened call v).size ∧
      (avgtrOpened call v).size < 2 ^ 16 := by
  obtain ⟨avg, hrec, err, -⟩ := accepts
  unfold avgtrOpened at hrec ⊢
  rcases begin_cases call.slot.pkt v.data.own with ⟨hunder, -⟩ | ⟨-, hdr, hstart⟩ | ⟨-, hsame⟩
  · cases hunder.symm.trans idle
  · rw [hstart]
    obtain ⟨valid, -⟩ := Slot.valid_of_err err
    have hlen := Slot.length_payload_of_err err
    have hsize := Tespkt.paylen_le_traceSize valid avg hdr
    unfold Tespkt.paylen at hsize
    exact ⟨within.idle idle, by dsimp only; omega, Tespkt.u16_lt 24⟩
  · cases hrec.symm.trans (hsame ▸ idle)

/-- A frame that goes on with a trace finds it as it is. -/
theorem opened_of_recording (recording : v.data.own.recording = true) :
    avgtrOpened call v = v.data.own := by
  unfold avgtrOpened AvgtrData.begin
  exact if_neg (by simp [recording])

/-- The data after a frame that is taken for part of the trace. -/
theorem own_of_accepts (accepts : Accepts call v) :
    let trace := (avgtrOpened call v).append call.slot.pkt call.slot.flen
    (v.handle taskAvgtrPktHn call).2.own = if trace.curSize = trace.size then trace.reset
      else trace := by
  rw [handle_of_accepts accepts]
  dsimp only
  split_ifs <;> rfl

/-- The trace that a frame finds has room for it. -/
theorem opened_fits (within : WithinTrace t.view.data.own) (fits : FitsTrace (.packet call) t)
    (active : t.active = true) (accepts : Accepts call t.view) :
    (avgtrOpened call t.view).curSize + (Slot.payload call.slot.pkt call.slot.flen).length ≤
        (avgtrOpened call t.view).size ∧
      (avgtrOpened call t.view).size < 2 ^ 16 ∧ (avgtrOpened call t.view).curSize % 8 = 0 := by
  cases hrec : t.view.data.own.recording with
  | true =>
    rw [opened_of_recording hrec]
    exact ⟨fits active hrec accepts, within.size, within.words⟩
  | false =>
    obtain ⟨hempty, hlen, hsize⟩ := opened_of_idle within hrec accepts
    exact ⟨by omega, hsize, by omega⟩

/-- What a copy leaves that has room in its trace. -/
theorem withinTrace_handle (within : WithinTrace t.view.data.own)
    (fits : FitsTrace (.packet call) t) (active : t.active = true) :
    WithinTrace (t.view.handle taskAvgtrPktHn call).2.own := by
  by_cases accepts : Accepts call t.view
  · obtain ⟨hfits, hsize, hwords⟩ := opened_fits within fits active accepts
    obtain ⟨hpay, -⟩ := payload_of_err accepts.2.2.1
    have hmod : ((avgtrOpened call t.view).curSize +
        (Slot.payload call.slot.pkt call.slot.flen).length) % 2 ^ 16 =
          (avgtrOpened call t.view).curSize +
            (Slot.payload call.slot.pkt call.slot.flen).length := Nat.mod_eq_of_lt (by omega)
    have hown := own_of_accepts accepts
    dsimp only at hown
    rw [hown]
    split_ifs
    · exact withinTrace_reset _
    · refine ⟨fun hno => ?_, ?_, hsize, fun _ => ?_⟩
      · cases accepts.2.1.symm.trans hno
      · unfold AvgtrData.append
        dsimp only
        rw [hmod]
        omega
      · unfold AvgtrData.append
        dsimp only
        rw [hmod]
        exact hfits
  · rcases own_of_not_accepts accepts with hsame | ⟨trace, hreset⟩
    · rw [hsame]
      exact within
    · rw [hreset]
      exact withinTrace_reset trace

/-- A step stays within the trace if and only if its frame has no more than what is missing. -/
theorem staysInTrace_iff (e : RepEvent ℕ) (t : AvgtrTask) (within : WithinTrace t.view.data.own) :
    StaysInTrace e t ↔ FitsTrace e t := by
  cases e with
  | request timeout => exact Iff.rfl
  | timer id => exact Iff.rfl
  | packet call =>
    constructor
    · intro stays active hrec accepts
      obtain ⟨hbuf, htrace⟩ := stays active
      have hown := own_of_accepts accepts
      have hbuf := hbuf accepts
      dsimp only at hown
      rw [hown, opened_of_recording hrec] at htrace
      rw [opened_of_recording hrec] at hbuf
      by_contra hmore
      -- a trace that has got more than is missing is not complete
      have hmod : (t.view.data.own.curSize +
          (Slot.payload call.slot.pkt call.slot.flen).length) % 2 ^ 16 =
            t.view.data.own.curSize + (Slot.payload call.slot.pkt call.slot.flen).length := by
        unfold TES_AVGTR_MAXSIZE at hbuf
        exact Nat.mod_eq_of_lt (by omega)
      have hne : (t.view.data.own.append call.slot.pkt call.slot.flen).curSize ≠
          (t.view.data.own.append call.slot.pkt call.slot.flen).size := by
        unfold AvgtrData.append
        dsimp only
        omega
      rw [if_neg hne] at htrace
      have hle := htrace hrec
      unfold AvgtrData.append at hle
      dsimp only at hle
      omega
    · intro fits active
      refine ⟨fun accepts => ?_, (withinTrace_handle within fits active).within⟩
      obtain ⟨hfits, hsize, hwords⟩ := opened_fits within fits active accepts
      obtain ⟨hpay, -⟩ := payload_of_err accepts.2.2.1
      unfold TES_AVGTR_MAXSIZE
      omega

theorem withinTrace_step (e : RepEvent ℕ) (t t' : AvgtrTask) (within : WithinTrace t.view.data.own)
    (fits : FitsTrace e t) (h : RepTask.step avgtrHandlers e t = some t') :
    WithinTrace t'.view.data.own := by
  unfold RepTask.step at h
  cases e with
  | request timeout =>
    dsimp only at h
    split_ifs at h
    cases h
    unfold taskAvgtrReqHn
    dsimp only
    split_ifs
    · exact within
    · exact ⟨within.idle, within.words, within.size, within.within⟩
  | timer id =>
    dsimp only at h
    split_ifs at h
    cases h
    exact within
  | packet call =>
    dsimp only at h
    split_ifs at h with active
    · have hdata := withinTrace_handle within fits active
      unfold RepTask.packet View.packet avgtrHandlers at h
      dsimp only at h
      cases hrc : (t.view.handle taskAvgtrPktHn call).1 with
      | zero =>
        rw [hrc] at h
        cases h
        exact hdata
      | sleep =>
        rw [hrc] at h
        cases h
        exact hdata
      | error =>
        rw [hrc] at h
        cases h
    · cases h
      exact within

end Step

/-- Every copy ends within the buffer, and a trace that is under way never has more bytes than its
header declares, if and only if no frame that is taken for part of a trace under way has more than
what is missing. -/
theorem staysInTrace_along_iff (t : AvgtrTask) (start : t.view.data.own = taskAvgtrInit)
    (evs : List (RepEvent ℕ)) :
    Runs.Along (RepTask.step avgtrHandlers) StaysInTrace evs t ↔
      Runs.Along (RepTask.step avgtrHandlers) FitsTrace evs t := by
  have hstart : WithinTrace t.view.data.own := by
    rw [start]
    exact ⟨fun _ => rfl, rfl, Nat.two_pow_pos 16, Bool.noConfusion⟩
  constructor
  · refine Runs.along_of_along (fun t => WithinTrace t.view.data.own) ?_ ?_ hstart
    · intro e t t' within stays h
      exact withinTrace_step e t t' within ((staysInTrace_iff e t within).1 stays) h
    · exact fun e t within => (staysInTrace_iff e t within).1
  · refine Runs.along_of_along (fun t => WithinTrace t.view.data.own) withinTrace_step ?_
      hstart
    exact fun e t within => (staysInTrace_iff e t within).2

/-- A request and a trace in two frames. -/
theorem staysInTrace_along_iff_two :
    Runs.Along (RepTask.step avgtrHandlers) StaysInTrace twoFrames avgtrStart ↔
      Runs.Along (RepTask.step avgtrHandlers) FitsTrace twoFrames avgtrStart :=
  staysInTrace_along_iff avgtrStart rfl twoFrames

/-- The next frame of an average trace, with sixteen bytes. -/
def longerFrame (pseq : UInt8) : Slot where
  pkt := Function.update (traceFrame 1 pseq 0).pkt 14 40
  len := 40
  len_lt := by decide

/-- A header that declares sixteen bytes and has eight of them, and then a frame with sixteen. -/
theorem not_staysInTrace : ¬ ∀ evs : List (RepEvent ℕ),
    (∀ call, .packet call ∈ evs → call.slot.err = 0) →
      Runs.Along (RepTask.step avgtrHandlers) StaysInTrace evs avgtrStart := by
  intro h
  have hvalid : ∀ call, .packet call ∈ ([.request 5, .packet ⟨traceFrame 1 0 16, 0⟩,
      .packet ⟨longerFrame 1, 0⟩] : List (RepEvent ℕ)) → call.slot.err = 0 := by
    intro call hcall
    simp only [List.mem_cons, RepEvent.packet.injEq, reduceCtorEq, List.not_mem_nil, or_false,
      false_or] at hcall
    rcases hcall with rfl | rfl <;> decide
  obtain ⟨-, h₁⟩ := h _ hvalid
  obtain ⟨-, h₂⟩ := h₁ _ rfl
  obtain ⟨h₃, -⟩ := h₂ _ rfl
  have hover := (h₃ rfl).2 (by decide)
  revert hover
  decide

end Tesd
