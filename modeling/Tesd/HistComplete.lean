import Tesd.HistSound

/-!
# Complete histograms

Whether a histogram that arrives in full is published, whatever has come before it.  A header drops
what is left of another histogram if that has had bins or is to be discarded; a header without bins
leaves nothing of the kind, and the next histogram goes behind it in the buffer.
-/

namespace Tesd

open Slice

/-- The number of bins in these frames. -/
def binsOf (slots : List Slot) : ℕ := (slots.map fun s => s.pkt.mcaNbins).sum

/-- The MCA frames of a stretch of events make up a histogram that has all its bins and is no larger
than the buffer; there may be frames of other kinds between them. -/
structure CompleteHist (seg : List HistEvent) : Prop extends Sequence seg where
  header : ∃ first rest, mcaSlots seg = first :: rest ∧
    TESPKT_MCA_HDR_LEN ≤ (Slot.payload first.pkt first.flen).length ∧
    binsOf (mcaSlots seg) = first.pkt.mcaNbinsTot ∧ first.pkt.mcaSize ≤ TES_HIST_MAXSIZE

/-- The events publish one message, which is this one, and no assertion fails. -/
def Publishes (seg : List HistEvent) (msg : List UInt8) (v : View HistData) : Prop :=
  ∃ v', Runs.run histStep seg { v with data := { v.data with dbg := true } } = some v' ∧
    v'.data.sock.published = v.data.sock.published ++ [msg] ∧ v'.data.dbg = true

/-- A histogram is under way that has had no bins. -/
def HistData.Binless (hist : HistData) : Prop := hist.Open ∧ hist.curNbins = 0

theorem binsOf_concat (slots : List Slot) (s : Slot) :
    binsOf (slots ++ [s]) = binsOf slots + s.pkt.mcaNbins := by
  simp [binsOf]

/-! ## Between two histograms -/

namespace HistData

variable {hist hist' : HistData} {pkt : Tespkt} {prev : ℕ}

/-- Where no number of bins has been declared, nothing has been received. -/
structure Closed (hist : HistData) : Prop where
  curNbins : hist.curNbins = 0
  size : hist.size = 0
  curSize : hist.curSize = 0

/-- Frames are discarded, or a number of bins has been declared, or nothing has been received. -/
def Settled (hist : HistData) : Prop := hist.discard = false → hist.nbins = 0 → hist.Closed

theorem settled_of_publish {rc : TaskRc} (nonempty : hist.nbins ≠ 0)
    (h : hist.publish = (rc, hist')) (go : rc ≠ .error) : hist'.Settled := by
  rcases publish_cases hist with ⟨-, herr⟩ | ⟨-, -, _, _, _, _, hdata⟩ | ⟨-, -, _, hdata⟩
  · rw [h] at herr
    exact absurd herr go
  · rw [h] at hdata
    dsimp only at hdata
    subst hdata
    exact fun _ _ => ⟨rfl, rfl, rfl⟩
  · rw [h] at hdata
    dsimp only at hdata
    subst hdata
    exact fun _ hzero => absurd hzero nonempty

end HistData

/-- A frame that is copied belongs to a histogram with a number of bins. -/
theorem nbins_of_accept {v : View HistData} {call : Call} {hist : HistData}
    (settled : v.data.Settled) (err : call.slot.err = 0) (mca : call.slot.pkt.isMca = true)
    (h : v.data.accept v.prevPseqMca call.slot.pkt = (true, hist)) : hist.nbins ≠ 0 := by
  obtain ⟨valid, -⟩ := Slot.valid_of_err err
  cases hdr : call.slot.pkt.isHeader with
  | true =>
    obtain ⟨_, rfl, -⟩ := HistData.accept_header hdr h
    exact Tespkt.mcaNbinsTot_of_valid valid mca hdr
  | false =>
    obtain ⟨hdis, -, _, rfl, hle⟩ := HistData.accept_rest hdr h
    obtain ⟨-, hpos, hsmall⟩ := Tespkt.mcaNbins_of_valid valid hdr
    intro hzero
    dsimp only at hzero
    rw [hzero, (settled hdis hzero).curNbins] at hle
    omega

theorem settled_step (e : HistEvent) (v v' : View HistData) (settled : v.data.Settled)
    (h : histStep e v = some v') : v'.data.Settled := by
  cases e with
  | activate =>
    cases h
    exact Bool.noConfusion
  | packet call =>
    rcases histStep_cases h with ⟨-, hsame⟩ | ⟨-, -, hdis, -⟩ | ⟨herr, hmca, hist, haccept, hpub⟩
    · rw [hsame]
      exact settled
    · intro hkeep
      cases hdis.symm.trans hkeep
    · have hnbins : hist.nbins ≠ 0 := nbins_of_accept settled herr hmca haccept
      have hcopied : (hist.append call.slot.pkt call.slot.flen).nbins ≠ 0 := hnbins
      exact HistData.settled_of_publish hcopied hpub (by decide)

/-! ## The frames of a histogram -/

section Frames

variable {first : Slot} {slots : List Slot} {hist : HistData} {v : View HistData} {call : Call}

/-- The frames `slots` of the histogram that `first` is the header of have been copied. -/
structure Taken (first : Slot) (slots : List Slot) (hist : HistData) : Prop where
  nbins : hist.nbins = first.pkt.mcaNbinsTot
  size : hist.size = first.pkt.mcaSize
  counted : hist.curNbins = binsOf slots
  received : hist.curSize = TESPKT_MCA_HDR_LEN + 4 * binsOf slots
  keep : hist.discard = false
  bytes : slice hist.buf 0 hist.curSize = Slot.payloads slots
  dbg : hist.dbg = true

theorem HistData.append_eq {pkt : Tespkt} {flen : ℕ}
    (small : hist.curSize + (Slot.payload pkt flen).length ≤ TES_HIST_MAXSIZE) :
    hist.append pkt flen = { hist with
      buf := write hist.buf hist.curSize (Slot.payload pkt flen)
      curSize := hist.curSize + (Slot.payload pkt flen).length } := by
  unfold TES_HIST_MAXSIZE at small
  have hroom : hist.curSize ≤ TES_HIST_MAXSIZE - (Slot.payload pkt flen).length := by
    unfold TES_HIST_MAXSIZE
    omega
  unfold append
  dsimp only [dbgAssert]
  rw [Nat.mod_eq_of_lt (by omega), decide_eq_true hroom, Bool.and_true]

/-- A header is taken, unless the histogram before it has had no bins. -/
theorem accept_first (settled : v.data.Settled) (bins : ¬ v.data.Binless) (dbg : v.data.dbg = true)
    (hdr : call.slot.pkt.isHeader = true) (small : call.slot.pkt.mcaNbins < 2 ^ 16)
    (few : call.slot.pkt.mcaNbins ≤ call.slot.pkt.mcaNbinsTot) :
    v.data.accept v.prevPseqMca call.slot.pkt = (true, ⟨call.slot.pkt.mcaNbinsTot,
      call.slot.pkt.mcaNbins, call.slot.pkt.mcaSize, 0, false, v.data.buf, v.data.sock, true⟩) := by
  have hstart : v.data.startHist call.slot.pkt = ⟨call.slot.pkt.mcaNbinsTot, 0,
      call.slot.pkt.mcaSize, 0, false, v.data.buf, v.data.sock, true⟩ := by
    unfold HistData.startHist
    by_cases hbins : v.data.curNbins > 0
    · simp [hbins, HistData.clear, HistData.dbgAssert, dbg]
    · have hzero : v.data.curNbins = 0 := by omega
      cases hdis : v.data.discard with
      | true => simp [hbins, hdis, HistData.clear, HistData.dbgAssert, dbg]
      | false =>
        have hnbins : v.data.nbins = 0 := by
          by_contra hne
          exact bins ⟨⟨hdis, hne⟩, hzero⟩
        have hclosed := settled hdis hnbins
        simp [hdis, hzero, hnbins, hclosed.size, hclosed.curSize, HistData.dbgAssert, dbg]
  rw [HistData.accept, if_neg (by simp [hdr]), hstart, HistData.countBins_eq]
  dsimp only
  rw [Nat.zero_add, Nat.mod_eq_of_lt small, if_neg (Nat.not_lt.2 few)]
  rfl

/-- The next frame of a histogram is taken. -/
theorem accept_next (taken : Taken first slots v.data) (hdr : call.slot.pkt.isHeader = false)
    (next : ((call.slot.pkt.pseq : ℤ) - v.prevPseqMca) % 2 ^ 16 = 1)
    (few : binsOf slots + call.slot.pkt.mcaNbins ≤ first.pkt.mcaNbinsTot)
    (small : first.pkt.mcaNbinsTot < 2 ^ 16) :
    v.data.accept v.prevPseqMca call.slot.pkt = (true, { v.data with
      curNbins := binsOf slots + call.slot.pkt.mcaNbins, dbg := true }) := by
  rw [HistData.accept, if_pos (by simp [hdr]), if_neg (by simp [taken.keep]),
    if_neg (not_not.2 next), HistData.countBins_eq]
  have hmod : (v.data.curNbins + call.slot.pkt.mcaNbins) % 2 ^ 16 =
      binsOf slots + call.slot.pkt.mcaNbins := by
    rw [taken.counted, Nat.mod_eq_of_lt (by omega)]
  have hfew : ¬ binsOf slots + call.slot.pkt.mcaNbins > v.data.nbins := by
    rw [taken.nbins]
    exact Nat.not_lt.2 few
  have hdbg : (v.data.dbg && !v.data.discard) = true := by
    rw [taken.dbg, taken.keep]
    rfl
  rw [hmod, if_neg hfew, hdbg]

/-- A histogram that has all its bins is sent. -/
theorem publish_taken (taken : Taken first slots hist)
    (all : binsOf slots = first.pkt.mcaNbinsTot)
    (sent : hist.sock.sends hist.sock.calls = true) :
    hist.publish.1 = .zero ∧ hist.publish.2.dbg = true ∧
      hist.publish.2.sock.published = hist.sock.published ++ [Slot.payloads slots] := by
  have hsize : hist.curSize = hist.size := by
    rw [taken.received, taken.size, all, Tespkt.mcaSize]
    unfold TESPKT_MCA_BIN_LEN
    omega
  unfold HistData.publish
  rw [if_pos (taken.counted.trans (all.trans taken.nbins.symm))]
  dsimp only [HistData.dbgAssert]
  rw [PubSock.send, if_pos sent, taken.bytes, decide_eq_true hsize, taken.dbg]
  exact ⟨rfl, rfl, rfl⟩

/-- A histogram that has not all its bins stays as it is. -/
theorem publish_not_all (taken : Taken first slots hist)
    (more : binsOf slots < first.pkt.mcaNbinsTot) : hist.publish = (.zero, hist) := by
  have hsize : hist.curSize < hist.size := by
    rw [taken.received, taken.size, Tespkt.mcaSize]
    unfold TESPKT_MCA_BIN_LEN
    omega
  have hne : hist.curNbins ≠ hist.nbins := by
    rw [taken.counted, taken.nbins]
    exact Nat.ne_of_lt more
  unfold HistData.publish
  rw [if_neg hne]
  dsimp only [HistData.dbgAssert]
  rw [decide_eq_true hsize, Bool.and_true]

/-- The copy of the next frame. -/
theorem taken_append {s : Slot} (nbins : hist.nbins = first.pkt.mcaNbinsTot)
    (size : hist.size = first.pkt.mcaSize) (keep : hist.discard = false) (dbg : hist.dbg = true)
    (counted : hist.curNbins = binsOf (slots ++ [s]))
    (received : hist.curSize + (Slot.payload s.pkt s.flen).length =
      TESPKT_MCA_HDR_LEN + 4 * binsOf (slots ++ [s]))
    (bytes_eq : slice hist.buf 0 hist.curSize = Slot.payloads slots)
    (few : binsOf (slots ++ [s]) ≤ first.pkt.mcaNbinsTot)
    (fits : first.pkt.mcaSize ≤ TES_HIST_MAXSIZE) :
    Taken first (slots ++ [s]) (hist.append s.pkt s.flen) := by
  have hsmall : hist.curSize + (Slot.payload s.pkt s.flen).length ≤ TES_HIST_MAXSIZE := by
    unfold Tespkt.mcaSize TESPKT_MCA_BIN_LEN at fits
    omega
  rw [HistData.append_eq hsmall]
  refine ⟨nbins, size, counted, received, keep, ?_, dbg⟩
  rw [Slot.payloads_concat, ← bytes_eq]
  exact slice_write _ _ _

end Frames

/-! ## The histogram in full -/

section Run

variable {first : Slot} {slots : List Slot} {hist : HistData} {v : View HistData} {call : Call}
  {seg rest : List HistEvent}

/-- What a frame does that is copied. -/
theorem histStep_copied (err : call.slot.err = 0) (mca : call.slot.pkt.isMca = true)
    (h : v.data.accept v.prevPseqMca call.slot.pkt = (true, hist)) :
    histStep (.packet call) v =
      if (hist.append call.slot.pkt call.slot.flen).publish.1 = .error then none
      else some (v.seen call.slot.pkt (hist.append call.slot.pkt call.slot.flen).publish.2) := by
  have hhandle : v.handle taskHistPktHn call =
      (hist.append call.slot.pkt call.slot.flen).publish := by
    rw [View.handle, taskHistPktHn, if_neg (by simp [err]), if_neg (by simp [mca]), h]
  rw [histStep, View.packet, hhandle]

/-- A frame of another kind changes nothing. -/
theorem histStep_other (v : View HistData) (mca : call.slot.pkt.isMca = false) :
    ∃ tr, histStep (.packet call) v = some ⟨v.prevPseqMca, tr, v.data⟩ := by
  have hhandle : v.handle taskHistPktHn call = (.zero, v.data) := by
    rw [View.handle, taskHistPktHn]
    by_cases herr : call.slot.err = 0
    · rw [if_neg (not_not.2 herr), if_pos (by simp [mca])]
    · rw [if_pos herr]
  rw [histStep, View.packet, hhandle, View.seen, mca]
  exact ⟨_, rfl⟩

/-- A frame in a sequence. -/
theorem inSequence_middle {s : Slot} {more : List Slot}
    (h : Slot.InSequence (slots ++ s :: more)) : s.err = 0 ∧ s.pkt.pseq = slots.length := by
  refine ⟨h.valid s (by simp), ?_⟩
  have hlen : slots.length < (slots ++ s :: more).length := by simp
  have hget := congrArg (fun l => l[slots.length]?) h.pseqs
  simpa [List.getElem?_range hlen] using hget

/-- Frames of a histogram under way have bins. -/
theorem two_le_mcaNbins {s : Slot} {more : List Slot} (nonempty : slots ≠ [])
    (h : Slot.InSequence (slots ++ s :: more)) : 2 ≤ s.pkt.mcaNbins ∧
      s.pkt.isHeader = false ∧
        4 * s.pkt.mcaNbins = (Slot.payload s.pkt s.flen).length := by
  obtain ⟨herr, hpseq⟩ := inSequence_middle h
  obtain ⟨valid, -⟩ := Slot.valid_of_err herr
  have hpos := List.length_pos_of_ne_nil nonempty
  have hdr : s.pkt.isHeader = false := by
    rw [Tespkt.isHeader, hpseq, beq_eq_false_iff_ne]
    omega
  obtain ⟨hbins, htwo, -⟩ := Tespkt.mcaNbins_of_valid valid hdr
  have hlen := Slot.length_payload_of_err herr
  exact ⟨htwo, hdr, by omega⟩

/-- Once some frames of a complete histogram have been copied, the rest of it leads to its
publication. -/
theorem run_taken (taken : Taken first slots hist) (nonempty : slots ≠ []) (prev : ℕ)
    (hprev : prev + 1 = slots.length) (awake : HistEvent.activate ∉ rest)
    (seq : Slot.InSequence (slots ++ mcaSlots rest))
    (all : binsOf (slots ++ mcaSlots rest) = first.pkt.mcaNbinsTot)
    (fits : first.pkt.mcaSize ≤ TES_HIST_MAXSIZE)
    (sent : hist.sock.sends hist.sock.calls = true) (tr : ℕ) :
    hist.publish.1 ≠ .error ∧ ∃ v', Runs.run histStep rest ⟨prev, tr, hist.publish.2⟩ = some v' ∧
      v'.data.sock.published = hist.sock.published ++ [Slot.payloads (slots ++ mcaSlots rest)] ∧
      v'.data.dbg = true := by
  have hfew : binsOf slots + binsOf (mcaSlots rest) = first.pkt.mcaNbinsTot := by
    rw [← all, binsOf, binsOf, binsOf, List.map_append, List.sum_append]
  have htot : first.pkt.mcaNbinsTot < 2 ^ 16 := Nat.mod_lt _ (by decide)
  induction rest generalizing slots hist prev tr with
  | nil =>
    have hall : binsOf slots = first.pkt.mcaNbinsTot := hfew
    obtain ⟨hzero, hdbg, hsent⟩ := publish_taken taken hall sent
    refine ⟨by rw [hzero]; decide, _, rfl, ?_, hdbg⟩
    rw [show mcaSlots [] = [] from rfl, List.append_nil]
    exact hsent
  | cons e rest ih =>
    rw [List.mem_cons, not_or] at awake
    cases e with
    | activate => exact absurd rfl awake.1
    | packet call =>
      cases hmca : call.slot.pkt.isMca with
      | false =>
        have hsame : mcaSlots (.packet call :: rest) = mcaSlots rest := by
          simp [mcaSlots, hmca]
        rw [hsame] at seq all hfew ⊢
        obtain ⟨tr', hstep⟩ := histStep_other ⟨prev, tr, hist.publish.2⟩ hmca
        obtain ⟨hzero, v', hrun, hmsg⟩ := ih taken nonempty prev hprev awake.2 seq all sent tr' hfew
        refine ⟨hzero, v', ?_, hmsg⟩
        rw [Runs.run, hstep]
        exact hrun
      | true =>
        have hcons : mcaSlots (.packet call :: rest) = call.slot :: mcaSlots rest := by
          simp [mcaSlots, hmca]
        rw [hcons] at seq all hfew ⊢
        obtain ⟨herr, hpseq⟩ := inSequence_middle seq
        obtain ⟨htwo, hdr, hlen⟩ := two_le_mcaNbins nonempty seq
        have hsum : binsOf (call.slot :: mcaSlots rest) =
            call.slot.pkt.mcaNbins + binsOf (mcaSlots rest) := by
          rw [binsOf, List.map_cons, List.sum_cons, binsOf]
        rw [hsum] at hfew
        -- the histogram has not all its bins yet
        have hpub := publish_not_all taken (by omega)
        have hnext : ((call.slot.pkt.pseq : ℤ) - (prev : ℕ)) % 2 ^ 16 = 1 := by
          rw [hpseq, ← hprev]
          omega
        have haccept := accept_next (v := ⟨prev, tr, hist⟩) taken hdr hnext (by omega) htot
        have hconcat := binsOf_concat slots call.slot
        have hmore : Taken first (slots ++ [call.slot]) (HistData.append call.slot.pkt
            call.slot.flen { hist with
              curNbins := binsOf slots + call.slot.pkt.mcaNbins, dbg := true }) :=
          taken_append taken.nbins taken.size taken.keep rfl hconcat.symm
            (by dsimp only; rw [taken.received]; omega) taken.bytes (by omega) fits
        rw [List.append_cons slots] at seq all ⊢
        obtain ⟨hgo, v', hrun, hmsg⟩ := ih hmore (by simp) call.slot.pkt.pseq
          (by rw [hpseq, List.length_append, List.length_singleton]) awake.2 seq all sent tr
          (by omega)
        rw [hpub]
        refine ⟨fun h => (by cases h), v', ?_, hmsg⟩
        rw [Runs.run, histStep_copied herr hmca haccept, if_neg hgo, View.seen, hmca]
        exact hrun

/-- The header of a complete histogram. -/
theorem header_of_complete {s : Slot} {more : List Slot} (seq : Slot.InSequence (s :: more))
    (long : TESPKT_MCA_HDR_LEN ≤ (Slot.payload s.pkt s.flen).length) :
    s.err = 0 ∧ s.pkt.isHeader = true ∧ s.pkt.pseq = 0 ∧ s.pkt.mcaNbins < 2 ^ 16 ∧
      (Slot.payload s.pkt s.flen).length = TESPKT_MCA_HDR_LEN + 4 * s.pkt.mcaNbins := by
  have hfirst : Slot.InSequence ([] ++ s :: more) := seq
  obtain ⟨herr, hpseq⟩ := inSequence_middle hfirst
  obtain ⟨valid, -⟩ := Slot.valid_of_err herr
  have hdr : s.pkt.isHeader = true := by
    rw [Tespkt.isHeader, hpseq]
    rfl
  have hlen := Slot.length_payload_of_err herr
  rcases Tespkt.mcaNbins_of_valid_header valid hdr with ⟨hbins, hsmall⟩ | ⟨hshort, -⟩
  · exact ⟨herr, hdr, hpseq, by omega, by omega⟩
  · omega

/-- A complete histogram is published, if the one before it is not without bins so far. -/
theorem run_complete (settled : v.data.Settled) (bins : ¬ v.data.Binless)
    (dbg : v.data.dbg = true) (complete : CompleteHist seg)
    (sent : v.data.sock.sends v.data.sock.calls = true) :
    ∃ v', Runs.run histStep seg v = some v' ∧
      v'.data.sock.published = v.data.sock.published ++ [Slot.payloads (mcaSlots seg)] ∧
      v'.data.dbg = true := by
  induction seg generalizing v with
  | nil =>
    obtain ⟨_, _, hnil, -⟩ := complete.header
    cases hnil
  | cons e seg ih =>
    have awake := complete.awake
    rw [List.mem_cons, not_or] at awake
    cases e with
    | activate => exact absurd rfl awake.1
    | packet call =>
      cases hmca : call.slot.pkt.isMca with
      | false =>
        have hsame : mcaSlots (.packet call :: seg) = mcaSlots seg := by
          simp [mcaSlots, hmca]
        obtain ⟨tr, hstep⟩ := histStep_other v hmca
        have hrest : CompleteHist seg :=
          ⟨⟨hsame ▸ complete.toInSequence, awake.2⟩, hsame ▸ complete.header⟩
        rw [hsame, Runs.run, hstep]
        exact ih (v := ⟨v.prevPseqMca, tr, v.data⟩) settled bins dbg hrest sent
      | true =>
        have hcons : mcaSlots (.packet call :: seg) = call.slot :: mcaSlots seg := by
          simp [mcaSlots, hmca]
        have seq := complete.toInSequence
        obtain ⟨first, rest, hfirst, hlong, hall, hfits⟩ := complete.header
        rw [hcons] at seq hfirst hall ⊢
        obtain ⟨rfl, rfl⟩ := List.cons.inj hfirst
        obtain ⟨herr, hdr, hpseq, hsmall, hlen⟩ := header_of_complete seq hlong
        have hsum : call.slot.pkt.mcaNbins + binsOf (mcaSlots seg) =
            call.slot.pkt.mcaNbinsTot := by
          rw [← hall, binsOf, binsOf, List.map_cons, List.sum_cons]
        have haccept := accept_first settled bins dbg hdr hsmall (by omega)
        have hone : binsOf [call.slot] = call.slot.pkt.mcaNbins := by
          rw [binsOf, List.map_singleton, List.sum_singleton]
        have htaken : Taken call.slot ([] ++ [call.slot]) (HistData.append call.slot.pkt
            call.slot.flen ⟨call.slot.pkt.mcaNbinsTot, call.slot.pkt.mcaNbins,
              call.slot.pkt.mcaSize, 0, false, v.data.buf, v.data.sock, true⟩) :=
          taken_append rfl rfl rfl rfl hone.symm
            (by rw [List.nil_append, hone, hlen, Nat.zero_add]) rfl
            (by rw [List.nil_append, hone]; omega) hfits
        obtain ⟨hgo, v', hrun, hmsg⟩ := run_taken htaken (by simp) call.slot.pkt.pseq
          (by rw [hpseq]; rfl) awake.2 seq hall hfits sent v.prevPseqTr
        refine ⟨v', ?_, hmsg⟩
        rw [Runs.run, histStep_copied herr hmca haccept, if_neg hgo, View.seen, hmca]
        exact hrun

end Run

/-! ## Assertions -/

namespace HistData

variable {hist : HistData} {pkt : Tespkt} {prev : ℕ}

theorem countBins_dbg (failed : hist.dbg = false) : (hist.countBins pkt).2.dbg = false := by
  rw [countBins_eq]
  split_ifs
  · simp [failed]
  · simp [failed]

/-- A failed assertion stays failed. -/
theorem accept_dbg (failed : hist.dbg = false) : (hist.accept prev pkt).2.dbg = false := by
  unfold accept
  split_ifs
  · exact failed
  · exact failed
  · exact countBins_dbg failed
  · apply countBins_dbg
    unfold startHist
    by_cases hbins : hist.curNbins > 0
    · simp [hbins, clear, dbgAssert, failed]
    · cases hdis : hist.discard with
      | true => simp [hbins, hdis, clear, dbgAssert, failed]
      | false => simp [hbins, hdis, dbgAssert, failed]

/-- A header fails an assertion after a histogram without bins so far. -/
theorem accept_binless (binless : hist.Binless) (hdr : pkt.isHeader = true) :
    (hist.accept prev pkt).2.dbg = false := by
  obtain ⟨⟨hkeep, hnbins⟩, hzero⟩ := binless
  rw [accept, if_neg (by simp [hdr])]
  apply countBins_dbg
  simp [startHist, hzero, hkeep, hnbins, dbgAssert]

theorem publish_dbg (failed : hist.dbg = false) : hist.publish.2.dbg = false := by
  unfold publish PubSock.send
  dsimp only [dbgAssert]
  split_ifs
  · simp [clear, failed]
  · simp [failed]
  · simp [failed]

end HistData

section Failed

variable {v v' : View HistData} {call : Call} {seg : List HistEvent}

theorem dbg_packet (skipped : v.data.dbg = false ∨
      call.slot.err = 0 ∧ call.slot.pkt.isMca = true)
    (failed : (v.data.accept v.prevPseqMca call.slot.pkt).2.dbg = false)
    (h : histStep (.packet call) v = some v') : v'.data.dbg = false := by
  have hhandle : (v.handle taskHistPktHn call).2.dbg = false := by
    unfold View.handle taskHistPktHn
    split_ifs with herr hmca
    · exact skipped.resolve_right fun hno => herr hno.1
    · exact skipped.resolve_right fun hno => by simp [hno.2] at hmca
    · rcases haccept : v.data.accept v.prevPseqMca call.slot.pkt with ⟨copied, hist⟩
      rw [haccept] at failed
      cases copied with
      | false => exact failed
      | true =>
        apply HistData.publish_dbg
        unfold HistData.append HistData.dbgAssert
        dsimp only at failed ⊢
        rw [failed, Bool.false_and]
  unfold histStep at h
  dsimp only at h
  split_ifs at h
  cases h
  exact hhandle

theorem dbg_step (e : HistEvent) (v v' : View HistData) (failed : v.data.dbg = false)
    (h : histStep e v = some v') : v'.data.dbg = false := by
  cases e with
  | activate =>
    cases h
    exact failed
  | packet call => exact dbg_packet (Or.inl failed) (HistData.accept_dbg failed) h

/-- A complete histogram that comes after one without bins so far fails an assertion. -/
theorem run_binless (binless : v.data.Binless) (complete : CompleteHist seg)
    (h : Runs.run histStep seg v = some v') : v'.data.dbg = false := by
  induction seg generalizing v with
  | nil =>
    obtain ⟨_, _, hnil, -⟩ := complete.header
    cases hnil
  | cons e seg ih =>
    have awake := complete.awake
    rw [List.mem_cons, not_or] at awake
    obtain ⟨v₁, hstep, hrest⟩ := Runs.run_cons h
    cases e with
    | activate => exact absurd rfl awake.1
    | packet call =>
      cases hmca : call.slot.pkt.isMca with
      | false =>
        have hsame : mcaSlots (.packet call :: seg) = mcaSlots seg := by
          simp [mcaSlots, hmca]
        obtain ⟨tr, hother⟩ := histStep_other v hmca
        rw [hstep] at hother
        obtain rfl := Option.some.inj hother
        exact ih (v := ⟨v.prevPseqMca, tr, v.data⟩) binless
          ⟨⟨hsame ▸ complete.toInSequence, awake.2⟩, hsame ▸ complete.header⟩ hrest
      | true =>
        have hcons : mcaSlots (.packet call :: seg) = call.slot :: mcaSlots seg := by
          simp [mcaSlots, hmca]
        have seq := complete.toInSequence
        obtain ⟨first, rest, hfirst, hlong, -⟩ := complete.header
        rw [hcons] at seq hfirst
        obtain ⟨rfl, rfl⟩ := List.cons.inj hfirst
        obtain ⟨herr, hdr, -⟩ := header_of_complete seq hlong
        have hfailed := dbg_packet (Or.inr ⟨herr, hmca⟩) (HistData.accept_binless binless hdr) hstep
        exact Runs.invariant dbg_step hfailed hrest

end Failed

/-- Whatever has come before it, a complete histogram is published and nothing but it, if and only
if it does not find a histogram under way that has had no bins. -/
theorem publishes_iff (sends : ℕ → Bool) (v v' : View HistData)
    (start : v.data = taskHistInit sends) (evs : List HistEvent)
    (reached : Runs.run histStep evs v = some v') (seg : List HistEvent)
    (complete : CompleteHist seg) (sent : v'.data.sock.sends v'.data.sock.calls = true) :
    Publishes seg (Slot.payloads (mcaSlots seg)) v' ↔ ¬ v'.data.Binless := by
  have hstart : v.data.Settled := by
    rw [start]
    exact Bool.noConfusion
  have settled : v'.data.Settled := Runs.invariant settled_step hstart reached
  have hwatched : HistData.Settled { v'.data with dbg := true } := by
    intro hkeep hzero
    obtain ⟨h₁, h₂, h₃⟩ := settled hkeep hzero
    exact ⟨h₁, h₂, h₃⟩
  constructor
  · rintro ⟨v'', hrun, -, hdbg⟩ binless
    rw [run_binless (v := { v' with data := { v'.data with dbg := true } }) binless complete
      hrun] at hdbg
    cases hdbg
  · intro bins
    exact run_complete (v := { v' with data := { v'.data with dbg := true } }) hwatched bins rfl
      complete sent

/-- A header that is the first of two frames, after a histogram with bins. -/
theorem publishes_iff_three : ∃ v', Runs.run histStep threeFrames histView = some v' ∧
    (Publishes threeFrames (Slot.payloads (mcaSlots threeFrames)) v' ↔ ¬ v'.data.Binless) := by
  obtain ⟨v', hrun, hsends⟩ : ∃ v', Runs.run histStep threeFrames histView = some v' ∧
      v'.data.sock.sends v'.data.sock.calls = true := ⟨_, rfl, rfl⟩
  have hcomplete : CompleteHist threeFrames := by
    refine ⟨⟨⟨by decide, by decide⟩, by simp [threeFrames]⟩, _, _, rfl, by decide, by decide,
      by decide⟩
  exact ⟨v', hrun, publishes_iff (fun _ => true) histView v' rfl threeFrames hrun threeFrames
    hcomplete hsends⟩

/-- A header without bins, and then a histogram of six bins. -/
theorem not_publishes : ¬ ∀ (evs seg : List HistEvent) (v : View HistData),
    Runs.run histStep evs histView = some v → CompleteHist seg →
      ∃ v', Runs.run histStep seg v = some v' ∧
        v'.data.sock.published = v.data.sock.published ++ [Slot.payloads (mcaSlots seg)] := by
  intro h
  obtain ⟨v, hrun, hlen⟩ : ∃ v, Runs.run histStep [.packet ⟨mcaFrame 64 0 5 1, 0⟩] histView = some v ∧
      (Runs.run histStep threeFrames v).map (fun v' => v'.data.sock.published.map List.length) =
        some [104] := ⟨_, rfl, rfl⟩
  have hcomplete : CompleteHist threeFrames := by
    refine ⟨⟨⟨by decide, by decide⟩, by simp [threeFrames]⟩, _, _, rfl, by decide, by decide,
      by decide⟩
  obtain ⟨v', hrun', hmsg⟩ := h [.packet ⟨mcaFrame 64 0 5 1, 0⟩] threeFrames v hrun hcomplete
  rw [hrun', Option.map_some, Option.some.injEq, hmsg, List.map_append] at hlen
  have hlast := congrArg List.getLast? hlen
  rw [List.map_singleton, List.getLast?_concat] at hlast
  revert hlast
  decide

end Tesd
