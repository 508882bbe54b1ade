import Tesd.Avgtr

/-!
# Average traces that are sent

What the average trace task sends is put together from the average trace frames that were dispatched
to it.  The dispatcher keeps one protocol sequence for all types of long traces: an average trace
frame that comes after a frame of another trace is compared with that one.
-/

namespace Tesd

open Slice

/-- The average trace frames among these. -/
def avgSlots (slots : List Slot) : List Slot := slots.filter fun s => s.pkt.isTraceAvg

/-- The data is the trace that the average trace frames among these make up. -/
structure IsTrace (seg : List Slot) (data : List UInt8) : Prop extends
    Slot.InSequence (avgSlots seg) where
  payloads : data = Slot.payloads (avgSlots seg)
  size : ∃ first rest, avgSlots seg = first :: rest ∧ data.length = first.pkt.traceSize

/-- Every trace that is sent is made up by a stretch of the frames. -/
def AllTraces (seen : List Slot) (reps : List AvgtrRep) : Prop :=
  ∀ rep ∈ reps, rep.status = TES_AVGTR_REQ_OK →
    ∃ before seg after, seen = before ++ seg ++ after ∧ IsTrace seg rep.trace

/-- A frame that is taken for part of the trace under way is compared with the last average trace
frame and not with one of another trace, and the trace has room in the buffer. -/
def OwnPredecessor (seen : List Slot) (e : RepEvent ℕ) (t : AvgtrTask) : Prop :=
  match e with
  | .packet call => t.active = true → Accepts call t.view →
    ((avgtrOpened call t.view).curSize > 0 →
        ∃ s, (avgSlots seen).getLast? = some s ∧ t.view.prevPseqTr = s.pkt.pseq) ∧
      (avgtrOpened call t.view).curSize + (Slot.payload call.slot.pkt call.slot.flen).length ≤
          TES_AVGTR_MAXSIZE
  | .request _ => True
  | .timer _ => True

/-! ## The trace under way -/

/-- The average trace frames since the header make up the trace that is under way. -/
structure Gathered (seg : List Slot) (trace : AvgtrData) : Prop extends
    Slot.InSequence (avgSlots seg) where
  header : ∃ first rest, avgSlots seg = first :: rest ∧ trace.size = first.pkt.traceSize
  bytes : slice trace.buf 0 trace.curSize = Slot.payloads (avgSlots seg)
  counted : 8 * (avgSlots seg).length ≤ trace.curSize
  room : trace.curSize ≤ TES_AVGTR_MAXSIZE

/-- What holds after the frames `seen`. -/
structure AvgtrInv (seen : List Slot) (d : RepData AvgtrData AvgtrRep) : Prop where
  sent : AllTraces seen d.replies
  idle : d.own.recording = false → d.own.curSize = 0
  underway : d.own.recording = true → ∃ before seg, seen = before ++ seg ∧ Gathered seg d.own

section Step

variable {seen seg : List Slot} {t t' : AvgtrTask} {call : Call} {trace : AvgtrData}

theorem avgSlots_append (slots more : List Slot) :
    avgSlots (slots ++ more) = avgSlots slots ++ avgSlots more :=
  List.filter_append ..

theorem allTraces_append {reps : List AvgtrRep} (more : List Slot) (h : AllTraces seen reps) :
    AllTraces (seen ++ more) reps := by
  intro rep hrep hok
  obtain ⟨before, seg, after, rfl, trace⟩ := h rep hrep hok
  exact ⟨before, seg, after ++ more, by simp only [List.append_assoc], trace⟩

/-- Another reply that is not a trace. -/
theorem allTraces_reply {reps : List AvgtrRep} {rep : AvgtrRep} (h : AllTraces seen reps)
    (hrep : rep.status = TES_AVGTR_REQ_OK →
      ∃ before seg after, seen = before ++ seg ++ after ∧ IsTrace seg rep.trace) :
    AllTraces seen (reps ++ [rep]) := by
  intro rep' hrep' hok
  rcases List.mem_append.1 hrep' with hrep' | hrep'
  · exact h rep' hrep' hok
  · obtain rfl := List.mem_singleton.1 hrep'
    exact hrep hok

/-- The payload of a frame without an error is not empty. -/
theorem eight_le_payload {s : Slot} (err : s.err = 0) : 8 ≤ (Slot.payload s.pkt s.flen).length := by
  have hlen := Slot.length_payload_of_err err
  obtain ⟨valid, -⟩ := Slot.valid_of_err err
  obtain ⟨hlo, -⟩ := Tespkt.flen_of_valid valid
  have hmod := Tespkt.flen_mod_of_valid valid
  unfold TESPKT_HDR_LEN at hlen hlo
  omega

/-- How a trace is found: under way, started by this frame, or not under way. -/
theorem begin_cases (pkt : Tespkt) (trace : AvgtrData) :
    (trace.recording = true ∧ trace.begin pkt = trace) ∨
      (trace.recording = false ∧ pkt.isHeader = true ∧
        trace.begin pkt = { trace with recording := true, size := pkt.traceSize }) ∨
      (trace.recording = false ∧ trace.begin pkt = trace) := by
  unfold AvgtrData.begin
  cases hrec : trace.recording with
  | true => exact Or.inl ⟨rfl, if_neg (by simp)⟩
  | false =>
    right
    cases hdr : pkt.isHeader with
    | true => exact Or.inl ⟨rfl, rfl, if_pos (by simp)⟩
    | false => exact Or.inr ⟨rfl, if_neg (by simp)⟩

/-- A frame that is taken for part of the trace is the next one of it. -/
theorem gathered_append (gathered : Gathered seg trace) (avg : call.slot.pkt.isTraceAvg = true)
    (err : call.slot.err = 0) (next : call.slot.pkt.pseq = (avgSlots seg).length)
    (room : trace.curSize + (Slot.payload call.slot.pkt call.slot.flen).length ≤
      TES_AVGTR_MAXSIZE) :
    Gathered (seg ++ [call.slot]) (trace.append call.slot.pkt call.slot.flen) := by
  have happ : avgSlots (seg ++ [call.slot]) = avgSlots seg ++ [call.slot] := by
    rw [avgSlots_append, avgSlots, avgSlots, List.filter_singleton, avg]
    rfl
  have height := eight_le_payload err
  have hcounted := gathered.counted
  have hmod : (trace.curSize + (Slot.payload call.slot.pkt call.slot.flen).length) % 2 ^ 16 =
      trace.curSize + (Slot.payload call.slot.pkt call.slot.flen).length := by
    unfold TES_AVGTR_MAXSIZE at room
    exact Nat.mod_eq_of_lt (by omega)
  refine ⟨?_, ?_, ?_, ?_, ?_⟩
  · rw [happ]
    exact Slot.inSequence_concat gathered.toInSequence err next
  · obtain ⟨first, rest, hslots, hsize⟩ := gathered.header
    rw [happ, hslots]
    exact ⟨first, rest ++ [call.slot], rfl, hsize⟩
  · rw [happ, Slot.payloads_concat, ← gathered.bytes, AvgtrData.append]
    dsimp only
    rw [hmod]
    exact slice_write _ _ _
  · rw [happ, List.length_append, List.length_singleton, AvgtrData.append]
    dsimp only
    omega
  · rw [AvgtrData.append]
    dsimp only
    omega

/-- A header frame starts a trace. -/
theorem gathered_header (avg : call.slot.pkt.isTraceAvg = true) (err : call.slot.err = 0)
    (hdr : call.slot.pkt.isHeader = true) (empty : trace.curSize = 0)
    (size : trace.size = call.slot.pkt.traceSize)
    (room : (Slot.payload call.slot.pkt call.slot.flen).length ≤ TES_AVGTR_MAXSIZE) :
    Gathered [call.slot] (trace.append call.slot.pkt call.slot.flen) := by
  have happ : avgSlots [call.slot] = [] ++ [call.slot] := by
    rw [avgSlots, List.filter_singleton, avg]
    rfl
  have hpseq : call.slot.pkt.pseq = 0 := by simpa [Tespkt.isHeader] using hdr
  have hmod : (trace.curSize + (Slot.payload call.slot.pkt call.slot.flen).length) % 2 ^ 16 =
      0 + (Slot.payload call.slot.pkt call.slot.flen).length := by
    unfold TES_AVGTR_MAXSIZE at room
    rw [empty]
    exact Nat.mod_eq_of_lt (by omega)
  refine ⟨?_, ?_, ?_, ?_, ?_⟩
  · rw [happ]
    exact Slot.inSequence_concat Slot.inSequence_nil err hpseq
  · exact ⟨call.slot, [], happ, size⟩
  · rw [happ, Slot.payloads_concat, AvgtrData.append]
    dsimp only
    rw [hmod, empty]
    exact slice_write _ _ _
  · rw [happ, AvgtrData.append]
    dsimp only
    rw [hmod, Nat.zero_add]
    exact eight_le_payload err
  · rw [AvgtrData.append]
    dsimp only
    rw [hmod, Nat.zero_add]
    exact room

/-- The trace after a frame that is taken for part of it. -/
theorem gathered_of_accepts (inv : AvgtrInv seen t.view.data) (active : t.active = true)
    (own : OwnPredecessor seen (.packet call) t) (accepts : Accepts call t.view) :
    ∃ before seg, seen ++ [call.slot] = before ++ seg ∧
      Gathered seg ((avgtrOpened call t.view).append call.slot.pkt call.slot.flen) := by
  obtain ⟨hprev, hroom⟩ := own active accepts
  obtain ⟨avg, hrec, err, hseq⟩ := accepts
  unfold avgtrOpened at hprev hroom hrec hseq ⊢
  rcases begin_cases call.slot.pkt t.view.data.own with
    ⟨hunder, hsame⟩ | ⟨hidle, hdr, hstart⟩ | ⟨hidle, hsame⟩
  · rw [hsame] at hprev hroom hseq ⊢
    obtain ⟨before, seg, rfl, gathered⟩ := inv.underway hunder
    have hcounted := gathered.counted
    have hmax := gathered.room
    obtain ⟨first, rest, hslots, -⟩ := gathered.header
    have hne : avgSlots seg ≠ [] := by simp [hslots]
    have hpos : 0 < (avgSlots seg).length := List.length_pos_iff.2 hne
    obtain ⟨s, hlast, hpseq⟩ := hprev (by omega)
    have hnext := hseq (by omega)
    -- the last frame is the last one of the trace under way
    rw [avgSlots_append, List.getLast?_append_of_ne_nil _ hne] at hlast
    have hrange := congrArg List.getLast? gathered.pseqs
    rw [List.getLast?_map, hlast, List.getLast?_range, if_neg (by omega)] at hrange
    have hs : s.pkt.pseq = (avgSlots seg).length - 1 := Option.some.inj hrange
    have hlt : call.slot.pkt.pseq < 2 ^ 16 := Tespkt.u16_lt 18
    unfold TES_AVGTR_MAXSIZE at hmax
    refine ⟨before, seg ++ [call.slot], List.append_assoc _ _ _, ?_⟩
    exact gathered_append gathered avg err (by omega) hroom
  · rw [hstart] at hroom ⊢
    refine ⟨seen, [call.slot], rfl, ?_⟩
    have hempty := inv.idle hidle
    exact gathered_header avg err hdr hempty rfl (by
      dsimp only at hroom
      omega)
  · rw [hsame, hidle] at hrec
    cases hrec

theorem isTrace_of_gathered (gathered : Gathered seg trace) (all : trace.curSize = trace.size) :
    IsTrace seg (slice trace.buf 0 trace.size) := by
  obtain ⟨first, rest, hslots, hsize⟩ := gathered.header
  refine ⟨gathered.toInSequence, ?_, first, rest, hslots, ?_⟩
  · rw [← all]
    exact gathered.bytes
  · rw [length_slice, hsize]

theorem avgtrInv_packet (inv : AvgtrInv seen t.view.data) (active : t.active = true)
    (own : OwnPredecessor seen (.packet call) t) :
    AvgtrInv (seen ++ [call.slot]) (t.view.handle taskAvgtrPktHn call).2 := by
  have hsent := allTraces_append [call.slot] inv.sent
  rcases avgtr_cases call t.view with ⟨hskip, hother⟩ | ⟨hdrop, -⟩ | ⟨accepts, haccept⟩
  · rw [hskip]
    refine ⟨hsent, inv.idle, fun hrec => ?_⟩
    obtain ⟨before, seg, rfl, gathered⟩ := inv.underway hrec
    refine ⟨before, seg ++ [call.slot], List.append_assoc _ _ _, ?_⟩
    -- a frame that is skipped while a trace is under way is none of it
    have hsame : avgSlots (seg ++ [call.slot]) = avgSlots seg := by
      have hno : call.slot.pkt.isTraceAvg = false := by
        cases havg : call.slot.pkt.isTraceAvg with
        | false => rfl
        | true => exact (Bool.noConfusion ((hother havg).symm.trans hrec))
      rw [avgSlots_append, avgSlots, avgSlots, List.filter_singleton, hno]
      exact List.append_nil _
    obtain ⟨hseq, hheader, hbytes, hcounted, hroom⟩ := gathered
    exact ⟨by rwa [hsame], by rwa [hsame], by rwa [hsame], by rwa [hsame], hroom⟩
  · rw [hdrop]
    refine ⟨allTraces_reply hsent fun hok => absurd hok (by decide), fun _ => rfl, ?_⟩
    exact fun hrec => Bool.noConfusion hrec
  · obtain ⟨before, seg, hseen, gathered⟩ := gathered_of_accepts inv active own accepts
    dsimp only at haccept
    rw [haccept]
    split_ifs with hall
    · refine ⟨allTraces_reply hsent fun _ => ?_, fun _ => rfl, fun hrec => Bool.noConfusion hrec⟩
      exact ⟨before, seg, [], by rw [hseen, List.append_nil], isTrace_of_gathered gathered hall⟩
    · refine ⟨hsent, fun hrec => ?_, fun _ => ⟨before, seg, hseen, gathered⟩⟩
      cases accepts.2.1.symm.trans hrec

theorem avgtrInv_step (seen : List Slot) (e : RepEvent ℕ) (t t' : AvgtrTask)
    (inv : AvgtrInv seen t.view.data) (own : OwnPredecessor seen e t)
    (h : RepTask.step avgtrHandlers e t = some t') :
    AvgtrInv (seen ++ RepTask.dispatched e t) t'.view.data := by
  cases e with
  | request timeout =>
    rw [RepTask.dispatched, List.append_nil]
    unfold RepTask.step at h
    dsimp only at h
    split_ifs at h with hreader
    cases h
    unfold taskAvgtrReqHn
    dsimp only
    split_ifs with hzero
    · exact ⟨allTraces_reply inv.sent fun hok => absurd hok (by decide), inv.idle, inv.underway⟩
    · refine ⟨inv.sent, inv.idle, fun hrec => ?_⟩
      obtain ⟨before, seg, hseen, gathered⟩ := inv.underway hrec
      exact ⟨before, seg, hseen, gathered.toInSequence, gathered.header, gathered.bytes,
        gathered.counted, gathered.room⟩
  | timer id =>
    rw [RepTask.dispatched, List.append_nil]
    unfold RepTask.step at h
    dsimp only at h
    split_ifs at h with harmed
    cases h
    exact ⟨allTraces_reply inv.sent fun hok => absurd hok (by decide), inv.idle, inv.underway⟩
  | packet call =>
    unfold RepTask.step at h
    unfold RepTask.dispatched
    dsimp only at h ⊢
    split_ifs at h ⊢ with active
    · have hdata := avgtrInv_packet inv active own
      unfold RepTask.packet View.packet avgtrHandlers at h
      dsimp only at h
      cases hrc : (t.view.handle taskAvgtrPktHn call).1 with
      | zero =>
        rw [hrc] at h
        cases h
        exact hdata
      | sleep =>
        rw [hrc] at h
        cases h
        exact hdata
      | error =>
        rw [hrc] at h
        cases h
    · cases h
      rw [List.append_nil]
      exact inv

end Step

/-- Every trace that is sent is made up by a stretch of the frames dispatched, if every frame taken
for part of a trace is compared with the last average trace frame and has room in the buffer. -/
theorem sent_traces (t t' : AvgtrTask) (start : t.view.data.own = taskAvgtrInit)
    (fresh : t.view.data.replies = []) (evs : List (RepEvent ℕ))
    (own : Runs.AlongHistory (RepTask.step avgtrHandlers) RepTask.dispatched OwnPredecessor [] evs t)
    (h : Runs.run (RepTask.step avgtrHandlers) evs t = some t') :
    AllTraces (Runs.collect (RepTask.step avgtrHandlers) RepTask.dispatched evs t)
      t'.view.data.replies := by
  have inv : AvgtrInv [] t.view.data := by
    refine ⟨?_, ?_, ?_⟩
    · rw [fresh]
      exact fun _ hrep => nomatch hrep
    · rw [start]
      exact fun _ => rfl
    · rw [start]
      exact Bool.noConfusion
  have hrun : AvgtrInv _ t'.view.data := Runs.history_of_alongHistory avgtrInv_step inv own h
  have hsent := hrun.sent
  rwa [List.nil_append] at hsent

/-- A request and a trace in two frames. -/
def twoFrames : List (RepEvent ℕ) :=
  [.request 5, .packet ⟨traceFrame 1 0 16, 0⟩, .packet ⟨traceFrame 1 1 0, 0⟩]

theorem sent_traces_two : ∃ t', Runs.run (RepTask.step avgtrHandlers) twoFrames avgtrStart = some t' ∧
    t'.view.data.replies.map (fun rep => (rep.status, rep.trace.length)) =
      [(TES_AVGTR_REQ_OK, 16)] ∧
    AllTraces (Runs.collect (RepTask.step avgtrHandlers) RepTask.dispatched twoFrames avgtrStart)
      t'.view.data.replies := by
  obtain ⟨t', hrun, hrep⟩ : ∃ t',
      Runs.run (RepTask.step avgtrHandlers) twoFrames avgtrStart = some t' ∧
      t'.view.data.replies.map (fun rep => (rep.status, rep.trace.length)) =
        [(TES_AVGTR_REQ_OK, 16)] := ⟨_, rfl, rfl⟩
  refine ⟨t', hrun, hrep, ?_⟩
  apply sent_traces avgtrStart t' rfl rfl twoFrames _ hrun
  refine ⟨trivial, fun t₁ h₁ => ?_⟩
  obtain rfl := Option.some.inj h₁
  refine ⟨fun _ _ => ⟨fun hpos => absurd hpos (by decide), by decide⟩, fun t₂ h₂ => ?_⟩
  obtain rfl := Option.some.inj h₂
  exact ⟨fun _ _ => ⟨fun _ => ⟨traceFrame 1 0 16, rfl, rfl⟩, by decide⟩, fun _ _ => trivial⟩

/-- A frame of a single trace in an average trace of which a frame is missed. -/
def mixedFrames : List (RepEvent ℕ) :=
  [.request 5, .packet ⟨traceFrame 1 0 16, 0⟩, .packet ⟨traceFrame 0 1 16, 0⟩,
    .packet ⟨traceFrame 1 2 0, 0⟩]

/-- The frames of `mixedFrames`. -/
def mixedSlots : List Slot := [traceFrame 1 0 16, traceFrame 0 1 16, traceFrame 1 2 0]

theorem mixedSlots_stretches : ∀ i < 4, ∀ j < 4,
    (avgSlots ((mixedSlots.drop i).take j)).map (fun s => s.pkt.pseq) =
        List.range (avgSlots ((mixedSlots.drop i).take j)).length →
      (Slot.payloads (avgSlots ((mixedSlots.drop i).take j))).length ≠ 16 := by
  decide

theorem not_sent_traces :
    ¬ ∀ (evs : List (RepEvent ℕ)) (t' : AvgtrTask),
      Runs.run (RepTask.step avgtrHandlers) evs avgtrStart = some t' →
      AllTraces (Runs.collect (RepTask.step avgtrHandlers) RepTask.dispatched evs avgtrStart)
        t'.view.data.replies := by
  intro h
  obtain ⟨t', hrun, hrep⟩ : ∃ t',
      Runs.run (RepTask.step avgtrHandlers) mixedFrames avgtrStart = some t' ∧
      t'.view.data.replies.map (fun rep => (rep.status, rep.trace.length)) =
        [(TES_AVGTR_REQ_OK, 16)] := ⟨_, rfl, rfl⟩
  obtain ⟨rep, hmem, heq⟩ : ∃ rep ∈ t'.view.data.replies,
      (rep.status, rep.trace.length) = (TES_AVGTR_REQ_OK, 16) :=
    List.mem_map.1 (by rw [hrep]; exact List.mem_cons_self)
  obtain ⟨hok, hsize⟩ := Prod.mk.inj heq
  obtain ⟨before, seg, after, hseen, trace⟩ := h mixedFrames t' hrun rep hmem hok
  have hslots : mixedSlots = before ++ seg ++ after := hseen
  have hseg : (mixedSlots.drop before.length).take seg.length = seg := by
    rw [hslots, List.append_assoc, List.drop_left, List.take_left]
  have htotal := congrArg List.length hslots
  rw [List.length_append, List.length_append] at htotal
  have hthree : mixedSlots.length = 3 := rfl
  have hno := mixedSlots_stretches before.length (by omega) seg.length (by omega)
  rw [hseg, ← trace.payloads, hsize] at hno
  exact hno trace.pseqs rfl

end Tesd
