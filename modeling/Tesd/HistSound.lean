import Tesd.HistBounds

/-!
# Published histograms

What the histogram task publishes is put together from the MCA frames that were dispatched to it.
The dispatcher keeps the protocol sequence of every MCA frame, also of the bad ones that the packet
handler skips: after a bad frame the next one is taken for its successor.
-/

namespace Tesd

open Slice

/-- The MCA frames among these events. -/
def mcaSlots (evs : List HistEvent) : List Slot :=
  evs.filterMap fun e =>
    match e with
    | .packet call => if call.slot.pkt.isMca then some call.slot else none
    | .activate => none

theorem mcaSlots_append (evs more : List HistEvent) :
    mcaSlots (evs ++ more) = mcaSlots evs ++ mcaSlots more :=
  List.filterMap_append

/-- The MCA frames of a stretch of events are valid, have the protocol sequences `0, 1, …`, and the
task is not activated between them. -/
structure Sequence (seg : List HistEvent) : Prop extends Slot.InSequence (mcaSlots seg) where
  awake : HistEvent.activate ∉ seg

/-- The message is the histogram that the MCA frames of these events make up. -/
structure IsHistogram (seg : List HistEvent) (msg : List UInt8) : Prop extends Sequence seg where
  payloads : msg = Slot.payloads (mcaSlots seg)
  size : ∃ first rest, mcaSlots seg = first :: rest ∧ msg.length = first.pkt.mcaSize

/-- All these messages are histograms of stretches of the events. -/
def AllHistograms (evs : List HistEvent) (msgs : List (List UInt8)) : Prop :=
  ∀ msg ∈ msgs, ∃ before seg after, evs = before ++ seg ++ after ∧ IsHistogram seg msg

/-- A histogram is under way. -/
def HistData.Open (hist : HistData) : Prop := hist.discard = false ∧ hist.nbins ≠ 0

/-- No bad MCA frame arrives while a histogram is under way, and no header while one is under way
without bins; and a header declares no more bytes than the buffer holds. -/
def CleanMca (e : HistEvent) (v : View HistData) : Prop :=
  match e with
  | .activate => True
  | .packet call => call.slot.pkt.isMca = true →
    if call.slot.err ≠ 0 then ¬ v.data.Open
    else call.slot.pkt.isHeader = true →
      ¬ (v.data.Open ∧ v.data.curNbins = 0) ∧ call.slot.pkt.mcaSize ≤ TES_HIST_MAXSIZE

/-! ## The histogram under way -/

/-- The MCA frames since the last header make up the histogram that is under way. -/
structure Building (seg : List HistEvent) (v : View HistData) : Prop extends Sequence seg where
  header : ∃ first rest, mcaSlots seg = first :: rest ∧ v.data.nbins = first.pkt.mcaNbinsTot ∧
    first.pkt.mcaSize ≤ TES_HIST_MAXSIZE
  prev : v.prevPseqMca + 1 = (mcaSlots seg).length
  long : (mcaSlots seg).length ≤ v.data.curNbins + 1
  bytes : slice v.data.buf 0 v.data.curSize = Slot.payloads (mcaSlots seg)
  counted : v.data.curNbins ≤ v.data.nbins
  received : v.data.curSize = TESPKT_MCA_HDR_LEN + 4 * v.data.curNbins

/-- What holds after the events `evs`. -/
structure HistInv (evs : List HistEvent) (v : View HistData) : Prop where
  published : AllHistograms evs v.data.sock.published
  underway : v.data.discard = false →
    v.data.Idle ∨ (v.data.nbins ≠ 0 ∧ ∃ before seg, evs = before ++ seg ∧ Building seg v)

section Step

variable {evs seg : List HistEvent} {v v' : View HistData} {call : Call} {hist : HistData}

theorem allHistograms_append {msgs : List (List UInt8)} (more : List HistEvent)
    (h : AllHistograms evs msgs) : AllHistograms (evs ++ more) msgs := by
  intro msg hmsg
  obtain ⟨before, seg, after, rfl, hist⟩ := h msg hmsg
  exact ⟨before, seg, after ++ more, by simp only [List.append_assoc], hist⟩

theorem mcaSlots_packet (mca : call.slot.pkt.isMca = true) :
    mcaSlots [.packet call] = [call.slot] := by
  simp [mcaSlots, mca]

theorem mcaSlots_other (mca : call.slot.pkt.isMca = false) : mcaSlots [.packet call] = [] := by
  simp [mcaSlots, mca]

/-- A frame that is not an MCA frame is no part of a histogram. -/
theorem building_other (mca : call.slot.pkt.isMca = false) (building : Building seg v)
    (hprev : v'.prevPseqMca = v.prevPseqMca) (hdata : v'.data = v.data) :
    Building (seg ++ [.packet call]) v' := by
  have hsame : mcaSlots (seg ++ [.packet call]) = mcaSlots seg := by
    rw [mcaSlots_append, mcaSlots_other mca, List.append_nil]
  refine ⟨⟨?_, ?_⟩, ?_, ?_, ?_, ?_, ?_, ?_⟩
  · rw [hsame]
    exact building.toInSequence
  · simp [building.awake]
  · rw [hsame, hdata]
    exact building.header
  · rw [hsame, hprev]
    exact building.prev
  · rw [hsame, hdata]
    exact building.long
  · rw [hsame, hdata]
    exact building.bytes
  · rw [hdata]
    exact building.counted
  · rw [hdata]
    exact building.received

theorem sequence_concat (seq : Sequence seg) (mca : call.slot.pkt.isMca = true)
    (err : call.slot.err = 0) (next : call.slot.pkt.pseq = (mcaSlots seg).length) :
    Sequence (seg ++ [.packet call]) := by
  refine ⟨?_, by simp [seq.awake]⟩
  rw [mcaSlots_append, mcaSlots_packet mca]
  exact Slot.inSequence_concat seq.toInSequence err next

theorem sequence_nil : Sequence [] := ⟨Slot.inSequence_nil, by simp⟩

/-- The data after a copy, up to the assertions. -/
def HistData.copied (slot : Slot) (dbg : Bool) (hist : HistData) : HistData :=
  { hist with
    buf := write hist.buf hist.curSize (Slot.payload slot.pkt slot.flen)
    curSize := hist.curSize + (Slot.payload slot.pkt slot.flen).length
    dbg := dbg }

/-- A header frame that is copied is the first of a histogram. -/
theorem building_of_header (inv : HistInv evs v) (clean : CleanMca (.packet call) v)
    (err : call.slot.err = 0) (mca : call.slot.pkt.isMca = true)
    (hdr : call.slot.pkt.isHeader = true)
    (h : v.data.accept v.prevPseqMca call.slot.pkt = (true, hist)) (tr : ℕ) (dbg : Bool) :
    hist.nbins ≠ 0 ∧ hist.nbins ≤ 16384 ∧
      Building [.packet call] ⟨call.slot.pkt.pseq, tr, hist.copied call.slot dbg⟩ := by
  obtain ⟨valid, -⟩ := Slot.valid_of_err err
  have hlen := Slot.length_payload_of_err err
  have hclean := clean mca
  rw [if_neg (not_not.2 err)] at hclean
  obtain ⟨hopen, hfits⟩ := hclean hdr
  have hsize := hfits
  unfold Tespkt.mcaSize TESPKT_MCA_BIN_LEN TESPKT_MCA_HDR_LEN TES_HIST_MAXSIZE at hsize
  have hcarry : v.data.carry = 0 := by
    unfold HistData.carry
    split_ifs with hdrop
    · rfl
    · rw [not_or, Bool.not_eq_true] at hdrop
      rcases inv.underway hdrop.2 with idle | ⟨hnbins, -⟩
      · exact idle.curSize
      · exact absurd ⟨⟨hdrop.2, hnbins⟩, by omega⟩ hopen
  obtain ⟨dbg', rfl, hle⟩ := HistData.accept_header hdr h
  have hbins : 4 * call.slot.pkt.mcaNbins + TESPKT_MCA_HDR_LEN + TESPKT_HDR_LEN =
      call.slot.pkt.flen ∧ call.slot.pkt.mcaNbins ≤ 358 := by
    rcases Tespkt.mcaNbins_of_valid_header valid hdr with hbins | ⟨-, hbig⟩
    · exact hbins
    · -- a header frame that is too short has more bins than the histogram
      have hlt := call.slot.pkt.mcaNbins_lt
      omega
  have hmod : call.slot.pkt.mcaNbins % 2 ^ 16 = call.slot.pkt.mcaNbins :=
    Nat.mod_eq_of_lt (by omega)
  have hpseq : call.slot.pkt.pseq = 0 := by simpa [Tespkt.isHeader] using hdr
  have hslots := mcaSlots_packet mca
  refine ⟨Tespkt.mcaNbinsTot_of_valid valid mca hdr, by dsimp only; omega,
    sequence_concat sequence_nil mca err hpseq, ⟨call.slot, [], hslots, rfl, hfits⟩, ?_, ?_, ?_, hle,
    ?_⟩
  · rw [hslots]
    exact congrArg (· + 1) hpseq
  · rw [hslots]
    exact Nat.le_add_left 1 _
  · rw [hslots, HistData.copied]
    dsimp only
    rw [hcarry, slice_write, slice_zero]
    exact (List.append_nil _).symm
  · rw [HistData.copied]
    dsimp only
    omega

/-- Another frame that is copied is the next one of the histogram under way. -/
theorem building_of_rest (inv : HistInv evs v) (err : call.slot.err = 0)
    (mca : call.slot.pkt.isMca = true) (hdr : call.slot.pkt.isHeader = false)
    (h : v.data.accept v.prevPseqMca call.slot.pkt = (true, hist)) (tr : ℕ) (dbg : Bool) :
    hist.nbins ≠ 0 ∧ hist.nbins ≤ 16384 ∧
      ∃ before seg, evs ++ [.packet call] = before ++ seg ∧
        Building seg ⟨call.slot.pkt.pseq, tr, hist.copied call.slot dbg⟩ := by
  obtain ⟨valid, -⟩ := Slot.valid_of_err err
  have hlen := Slot.length_payload_of_err err
  obtain ⟨hdis, hnext, dbg', rfl, hle⟩ := HistData.accept_rest hdr h
  obtain ⟨hbins, hpos, hsmall⟩ := Tespkt.mcaNbins_of_valid valid hdr
  rcases inv.underway hdis with idle | ⟨hnbins, before, seg, rfl, building⟩
  · -- without a header there are no bins to come
    rw [idle.nbins, idle.curNbins] at hle
    omega
  · obtain ⟨first, rest, hslots, htot, hfits⟩ := building.header
    have hsize := hfits
    unfold Tespkt.mcaSize TESPKT_MCA_BIN_LEN TESPKT_MCA_HDR_LEN TES_HIST_MAXSIZE at hsize
    have hcounted := building.counted
    have hlong := building.long
    have hfirst := building.prev
    have hmod : (v.data.curNbins + call.slot.pkt.mcaNbins) % 2 ^ 16 =
        v.data.curNbins + call.slot.pkt.mcaNbins := Nat.mod_eq_of_lt (by omega)
    rw [hmod] at hle ⊢
    have hpseq : call.slot.pkt.pseq = (mcaSlots seg).length := by
      have : call.slot.pkt.pseq < 2 ^ 16 := Tespkt.u16_lt 18
      omega
    have happ : mcaSlots (seg ++ [.packet call]) = mcaSlots seg ++ [call.slot] := by
      rw [mcaSlots_append, mcaSlots_packet mca]
    refine ⟨hnbins, by dsimp only; omega, before, seg ++ [.packet call], List.append_assoc _ _ _,
      sequence_concat building.toSequence mca err hpseq, ?_, ?_, ?_, ?_, hle, ?_⟩
    · rw [happ, hslots]
      exact ⟨first, rest ++ [call.slot], rfl, htot, hfits⟩
    · rw [happ, List.length_append, List.length_singleton, ← hpseq]
    · rw [happ, List.length_append, List.length_singleton, HistData.copied]
      dsimp only
      omega
    · rw [happ, Slot.payloads_concat, ← building.bytes]
      exact slice_write _ _ _
    · rw [HistData.copied]
      dsimp only
      rw [building.received]
      omega

/-- A histogram that has all its bins is what its frames make up. -/
theorem isHistogram_of_building (building : Building seg v) (all : v.data.curNbins = v.data.nbins) :
    IsHistogram seg (slice v.data.buf 0 v.data.curSize) := by
  refine ⟨building.toSequence, building.bytes, ?_⟩
  obtain ⟨first, rest, hslots, htot, -⟩ := building.header
  refine ⟨first, rest, hslots, ?_⟩
  rw [length_slice, building.received, all, htot, Tespkt.mcaSize]
  unfold TESPKT_MCA_BIN_LEN
  omega

/-- What a copy leads to: the histogram is published, or goes on. -/
theorem histInv_of_publish (hpub : hist.publish = (.zero, v'.data))
    (published : AllHistograms evs hist.sock.published) (nonempty : hist.nbins ≠ 0)
    (h : ∃ before seg, evs = before ++ seg ∧ Building seg { v' with data := hist }) :
    HistInv evs v' := by
  obtain ⟨before, seg, rfl, building⟩ := h
  obtain ⟨prev, tr, data⟩ := v'
  dsimp only at hpub building
  rcases HistData.publish_cases hist with
    ⟨-, herror⟩ | ⟨hall, -, _, _, _, _, hdata⟩ | ⟨-, -, _, hdata⟩
  · rw [hpub] at herror
    cases herror
  · rw [hpub] at hdata
    dsimp only at hdata
    subst hdata
    refine ⟨fun msg hmsg => ?_, fun _ => Or.inl ⟨rfl, rfl, rfl⟩⟩
    rcases List.mem_append.1 hmsg with hmsg | hmsg
    · exact published msg hmsg
    · rw [List.mem_singleton.1 hmsg]
      exact ⟨before, seg, [], by rw [List.append_nil], isHistogram_of_building building hall⟩
  · rw [hpub] at hdata
    dsimp only at hdata
    subst hdata
    refine ⟨published, fun _ => Or.inr ⟨nonempty, before, seg, rfl, ?_⟩⟩
    exact ⟨building.toSequence, building.header, building.prev, building.long, building.bytes,
      building.counted, building.received⟩

theorem histInv_step (evs : List HistEvent) (e : HistEvent) (v v' : View HistData)
    (inv : HistInv evs v) (clean : CleanMca e v) (h : histStep e v = some v') :
    HistInv (evs ++ [e]) v' := by
  cases e with
  | activate =>
    cases h
    exact ⟨allHistograms_append _ inv.published, Bool.noConfusion⟩
  | packet call =>
    have hprev : v'.prevPseqMca =
        if call.slot.pkt.isMca then call.slot.pkt.pseq else v.prevPseqMca := by
      unfold histStep at h
      dsimp only at h
      split_ifs at h
      cases h
      rfl
    rcases histStep_cases h with ⟨hskip, hsame⟩ | ⟨-, -, hdis, hsock⟩ |
      ⟨herr, hmca, hist, haccept, hpub⟩
    · refine ⟨by rw [hsame]; exact allHistograms_append _ inv.published, fun hdis => ?_⟩
      rw [hsame] at hdis ⊢
      rcases inv.underway hdis with idle | ⟨hnbins, before, seg, rfl, building⟩
      · exact Or.inl idle
      · cases hmca : call.slot.pkt.isMca with
        | true =>
          -- a bad frame in the histogram under way
          have herr := hskip.resolve_right (by simp [hmca])
          have hclean := clean hmca
          rw [if_pos herr] at hclean
          exact absurd ⟨hdis, hnbins⟩ hclean
        | false =>
          rw [hmca] at hprev
          exact Or.inr ⟨hnbins, before, seg ++ [.packet call], List.append_assoc _ _ _,
            building_other hmca building hprev hsame⟩
    · refine ⟨by rw [hsock]; exact allHistograms_append _ inv.published, fun hkeep => ?_⟩
      cases hdis.symm.trans hkeep
    · have hsock : hist.sock = v.data.sock := by
        cases hdr : call.slot.pkt.isHeader with
        | true =>
          obtain ⟨_, rfl, -⟩ := HistData.accept_header hdr haccept
          rfl
        | false =>
          obtain ⟨-, -, _, rfl, -⟩ := HistData.accept_rest hdr haccept
          rfl
      have hbuilt : ∀ dbg, hist.nbins ≠ 0 ∧ hist.nbins ≤ 16384 ∧
          ∃ before seg, evs ++ [.packet call] = before ++ seg ∧
            Building seg ⟨call.slot.pkt.pseq, v'.prevPseqTr, hist.copied call.slot dbg⟩ := by
        intro dbg
        cases hdr : call.slot.pkt.isHeader with
        | true =>
          obtain ⟨h₁, h₂, h₃⟩ := building_of_header inv clean herr hmca hdr haccept v'.prevPseqTr dbg
          exact ⟨h₁, h₂, evs, _, rfl, h₃⟩
        | false => exact building_of_rest inv herr hmca hdr haccept v'.prevPseqTr dbg
      obtain ⟨dbg, happ⟩ := HistData.append_spec call.slot.pkt call.slot.flen hist (by
        obtain ⟨-, hsmall, _, _, -, building⟩ := hbuilt true
        have hcounted := building.counted
        have hreceived := building.received
        unfold HistData.copied TESPKT_MCA_HDR_LEN at hreceived
        unfold HistData.copied at hcounted
        dsimp only at hcounted hreceived
        omega)
      obtain ⟨hnbins, -, hseg⟩ := hbuilt dbg
      rw [if_pos hmca] at hprev
      rw [happ] at hpub
      refine histInv_of_publish hpub ?_ hnbins ?_
      · exact allHistograms_append _ (by rw [hsock]; exact inv.published)
      · rw [hprev]
        exact hseg

end Step

/-- Every message is the histogram of a stretch of the events, if no bad MCA frame arrives while a
histogram is under way, and no header while one is under way without bins, and every histogram that
is declared has room in the buffer. -/
theorem published_histograms (sends : ℕ → Bool) (v v' : View HistData)
    (start : v.data = taskHistInit sends) (evs : List HistEvent)
    (clean : Runs.Along histStep CleanMca evs v) (h : Runs.run histStep evs v = some v') :
    AllHistograms evs v'.data.sock.published := by
  have inv : HistInv [] v := by
    refine ⟨?_, ?_⟩
    · rw [start]
      exact fun _ hmsg => nomatch hmsg
    · rw [start]
      exact Bool.noConfusion
  exact (Runs.trace_of_along histInv_step inv clean h).published

/-- A histogram of six bins in three frames. -/
def threeFrames : List HistEvent :=
  [.packet ⟨mcaFrame 72 0 5 1, 0⟩, .packet ⟨mcaFrame 32 1 0 2, 0⟩, .packet ⟨mcaFrame 32 2 0 3, 0⟩]

theorem published_histograms_three : ∃ v', Runs.run histStep threeFrames histView = some v' ∧
    (v'.data.sock.published.map List.length = [64]) ∧
    AllHistograms threeFrames v'.data.sock.published := by
  obtain ⟨v', hrun, hlen⟩ : ∃ v', Runs.run histStep threeFrames histView = some v' ∧
      v'.data.sock.published.map List.length = [64] := ⟨_, rfl, rfl⟩
  refine ⟨v', hrun, hlen, ?_⟩
  apply published_histograms (fun _ => true) histView v' rfl threeFrames _ hrun
  refine ⟨fun _ => ?_, fun v₁ h₁ => ⟨fun _ => ?_, fun v₂ h₂ => ⟨fun _ => ?_, fun _ _ => trivial⟩⟩⟩
  · rw [if_neg (by decide)]
    exact fun _ => ⟨fun hopen => absurd hopen.1.1 (by decide), by decide⟩
  · rw [if_neg (by decide)]
    exact fun hdr => absurd hdr (by decide)
  · rw [if_neg (by decide)]
    exact fun hdr => absurd hdr (by decide)

/-- A bad frame in a histogram of four bins: the two bins after it are published in place of the two
that were missed. -/
def badFrame : List HistEvent :=
  [.packet ⟨mcaFrame 72 0 3 1, 0⟩, .packet ⟨mcaFrame 33 1 0 2, 0⟩, .packet ⟨mcaFrame 32 2 0 3, 0⟩]

theorem badFrame_stretches : ∀ i < 4, ∀ j < 4,
    (∀ s ∈ mcaSlots ((badFrame.drop i).take j), s.err = 0) →
      (Slot.payloads (mcaSlots ((badFrame.drop i).take j))).length ≠ 56 := by
  decide

theorem not_published_histograms :
    ¬ ∀ (evs : List HistEvent) (v' : View HistData), Runs.run histStep evs histView = some v' →
      AllHistograms evs v'.data.sock.published := by
  intro h
  obtain ⟨v', hrun, hlen⟩ : ∃ v', Runs.run histStep badFrame histView = some v' ∧
      v'.data.sock.published.map List.length = [56] := ⟨_, rfl, rfl⟩
  obtain ⟨msg, hmsg, hsize⟩ : ∃ msg ∈ v'.data.sock.published, msg.length = 56 :=
    List.mem_map.1 (by rw [hlen]; exact List.mem_cons_self)
  obtain ⟨before, seg, after, heq, hist⟩ := h badFrame v' hrun msg hmsg
  have hseg : (badFrame.drop before.length).take seg.length = seg := by
    rw [heq, List.append_assoc, List.drop_left, List.take_left]
  have htotal := congrArg List.length heq
  rw [List.length_append, List.length_append] at htotal
  have hthree : badFrame.length = 3 := rfl
  have hno := badFrame_stretches before.length (by omega) seg.length (by omega)
  rw [hseg, ← hist.payloads, hsize] at hno
  exact hno hist.valid rfl

end Tesd
